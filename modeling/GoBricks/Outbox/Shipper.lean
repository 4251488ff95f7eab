import Mathlib.Data.List.AList

/-!
# Outbox rows and the two lanes that carry them

A row of the outbox ledger names the lane it leaves by. A lane is an adapter with three operations:
`Ready` asks whether the lane is usable at all, `Plan` turns a row into a shipment without touching
a broker, and `Ship` makes one delivery attempt and classifies its failure. This module translates
the last two for both adapters; what `Ready` answers is data of a run.

What a broker, a client or a publisher answers is not the outbox's business, so a `Ship` takes it
as data (`Door`). An error is its text together with the sentinels `errors.Is` finds in it; one
error may wrap several, so the order of the cases in `Ship` is visible here.

Two fields of a shipment decide what a failure holds back. The **key** is the ordering key: the
later rows of a failed row's key wait. The **scope** is the sub-scope a stall takes with it: the
super stream on the stream lane, empty on the AMQP lane.
-/

namespace Outbox

/-! ### Rows -/

/-- The `status` column. -/
inductive Status
  | pending
  | published
  | failed
  deriving DecidableEq

/-- A row of the outbox table. -/
structure Record where
  id : String
  eventType : String
  payload : List UInt8
  /-- The JSON text of the headers. -/
  headers : List UInt8
  exchange : String
  routingKey : String
  lane : String
  stream : String
  partitionKey : String
  /-- Assigned by the database at insert. -/
  seq : ℤ
  status : Status
  retryCount : ℤ
  error : String
  publishedAt : Option ℤ
  deriving DecidableEq

/-- The AMQP lane. -/
def laneAMQP : String := "amqp"

/-- The stream lane. -/
def laneStream : String := "stream"

/-- Fills an unset lane. -/
def laneOrDefault (lane : String) : String :=
  if lane = "" then laneAMQP else lane

/-! ### Headers -/

/-- A decoded header value: the code only ever asks whether it is a string. -/
inductive HeaderValue
  | str (s : String)
  | other (json : String)
  deriving DecidableEq

/-- `map[string]any`; a nil map reads as the empty one. -/
abbrev Headers := AList fun _ : String ↦ HeaderValue

/-- The header with the row's id. -/
def headerEventID : String := "x-outbox-event-id"

/-- The header with the type of the event. -/
def headerEventType : String := "x-outbox-event-type"

/-- The header with the tenant. -/
def tenantStampHeader : String := "x-tenant-id"

/-- What the framework's own headers begin with. -/
def reservedHeaderPrefix : String := "x-gobricks-"

/-- The header that stands for the content type. -/
def headerContentTypeStamp : String := reservedHeaderPrefix ++ "content-type"

/-- Whether `key` claims the framework's namespace. `EqualFold` folds beyond ASCII, but only eleven
one-byte characters can fill the eleven bytes it is given, so folding ASCII is all there is. -/
def isReservedHeaderKey (key : String) : Bool :=
  (key.toList.take reservedHeaderPrefix.length).map Char.toLower == reservedHeaderPrefix.toList

/-- The type assertion `.(string)` with its failure ignored. -/
def stringHeader (headers : Headers) (key : String) : String :=
  match headers.lookup key with
  | some (.str s) => s
  | _ => ""

/-- Removes the framework's own bookkeeping headers and returns what they said, the tenant stamp and
the payload's encoding, with what is left. -/
def takeFrameworkStamps (headers : Headers) : String × String × Headers :=
  let stamp := stringHeader headers tenantStampHeader
  let headers := headers.erase tenantStampHeader
  let contentType := stringHeader headers headerContentTypeStamp
  (stamp, contentType,
    headers.keys.foldl (fun left key ↦ if isReservedHeaderKey key then left.erase key else left)
      headers)

/-! ### Errors, verdicts and shipments -/

/-- The sentinel errors the lanes ask `errors.Is` about. -/
inductive Sentinel
  | canceled
  | deadlineExceeded
  | shutdown
  | invalidPublishDestination
  | tenantStampConflict
  | invalidTenantID
  | notConnected
  | publisherClosed
  | publisherNotStarted
  deriving DecidableEq

/-- An error: its text and the sentinels in its chain. -/
structure GoError where
  text : String
  wraps : List Sentinel := []
  deriving DecidableEq

/-- `errors.Is`. -/
def GoError.is (err : GoError) (s : Sentinel) : Bool :=
  decide (s ∈ err.wraps)

/-- One lane's reading of one delivery attempt. -/
inductive VerdictKind
  /-- The broker took responsibility for the message. -/
  | delivered
  /-- Connectivity: advance `retry_count`, park the key. -/
  | retry
  /-- Message-intrinsic: dead-letter at `MaxRetries`. -/
  | poison
  /-- Shutdown: count nothing, stop the batch. -/
  | aborted
  /-- The lane itself dropped mid-batch. -/
  | brokerDown
  /-- This shipment's scope is not carrying messages. -/
  | scopeDown
  deriving DecidableEq

/-- What a `Ship` says. -/
structure Verdict where
  kind : VerdictKind
  err : Option GoError := none
  waited : ℕ := 0
  deriving DecidableEq

/-- The text `v.Err.Error()` writes into the ledger. -/
def Verdict.errText (v : Verdict) : String :=
  (v.err.map GoError.text).getD ""

/-- One planned delivery. -/
structure Shipment where
  record : Record
  headers : Headers := ∅
  contentType : String := ""
  /-- The ordering key the row parks under. -/
  key : String
  /-- Why no lane can carry the row; empty for a shippable one. -/
  poison : String := ""
  /-- The sub-scope a stall holds back. -/
  scope : String := ""
  stamp : String := ""

/-- A lane's adapter; what the environment answers to one `Ship` is an `α`. -/
structure Shipper (α : Type*) where
  plan : Record → Headers → Shipment
  ship : α → Shipment → Verdict

/-! ### The tenant grammar -/

/-- A character of `[a-z0-9-]`. -/
def tenantIDChar (c : Char) : Bool :=
  ('a' ≤ c && c ≤ 'z') || ('0' ≤ c && c ≤ '9') || c == '-'

/-- `^[a-z0-9-]{1,64}$`. -/
def defaultTenantIDPattern (id : String) : Bool :=
  id.toList.all tenantIDChar && decide (1 ≤ id.length) && decide (id.length ≤ 64)

/-- The error carries the byte length only, never the value. -/
def validateTenantID (id : String) : Option GoError :=
  if defaultTenantIDPattern id then none
  else some {
    text := "multitenant: tenant id does not match the tenant-ID grammar: " ++
      toString id.utf8ByteSize ++ " bytes"
    wraps := [.invalidTenantID] }

/-! ### The environment of one attempt -/

/-- What the outside answers to one `Ship` on either lane. -/
structure Door where
  /-- The AMQP client resolver: an error, a nil client (`false`) or a client. -/
  client : Except GoError Bool
  /-- What the publish returned. -/
  published : Option GoError
  /-- `client.IsReady` when asked after the publish. -/
  isReady : Bool
  /-- The stream publisher's `Closed`. -/
  closed : Bool
  /-- The stream publisher's `Ready`. -/
  ready : Bool
  /-- `time.Since(start)`. -/
  waited : ℕ

/-- The error of a lane that is down. -/
def brokerUnavailableErr : Option GoError → GoError
  | some err => { err with text := "messaging not available: " ++ err.text }
  | none => { text := "messaging not ready" }

/-! ### The AMQP lane -/

/-- Keys the row by its tenant stamp when it carries one and by its destination otherwise. Nothing
here refuses a row. -/
def amqpPlan (rec : Record) (headers : Headers) : Shipment :=
  let (stamp, contentType, headers) := takeFrameworkStamps headers
  let key :=
    if stamp ≠ "" then laneAMQP ++ ":tenant:" ++ stamp
    else laneAMQP ++ ":" ++ rec.exchange ++ ":" ++ rec.routingKey
  { record := rec, headers, contentType, key, stamp }

/-- How the AMQP lane reads what the publish returned. -/
def amqpRead (d : Door) : Verdict :=
  match d.published with
  | none => { kind := .delivered }
  | some err =>
    if err.is .canceled || err.is .shutdown then { kind := .aborted }
    else if err.is .invalidPublishDestination || err.is .tenantStampConflict ||
        err.is .invalidTenantID then
      { kind := .poison, err := some err }
    -- a flap that already recovered is an ordinary failure
    else if err.is .notConnected && !d.isReady then
      { kind := .brokerDown, err := some err, waited := d.waited }
    else { kind := .retry, err := some err }

/-- `Ship` of the AMQP lane. -/
def amqpShip (d : Door) (sh : Shipment) : Verdict :=
  match if sh.stamp ≠ "" then validateTenantID sh.stamp else none with
  | some err => { kind := .poison, err := some err }
  | none =>
    match d.client with
    | .error err => { kind := .brokerDown, err := some err, waited := d.waited }
    | .ok false =>
      { kind := .brokerDown, err := some (brokerUnavailableErr none), waited := d.waited }
    | .ok true => amqpRead d

/-! ### The stream lane -/

/-- Resolves one super stream's producer; the error is the poison text of a row naming a target this
build has no handle for. -/
def streamTarget (lookup : String → Bool) (name : String) : Option GoError :=
  if lookup name then none
  else some { text := "stream " ++ name.quote ++ " is not an outbox target" }

/-- Keys the row by its stream and partition key. The key is set either way, so a refused row still
holds its stream's order. -/
def streamPlan (lookup : String → Bool) (rec : Record) (headers : Headers) : Shipment :=
  let (_, _, headers) := takeFrameworkStamps headers
  { record := rec
    headers
    key := laneStream ++ ":" ++ rec.stream ++ ":" ++ rec.partitionKey
    scope := rec.stream
    stamp := rec.partitionKey
    poison :=
      match streamTarget lookup rec.stream with
      | some err => err.text
      | none => if rec.partitionKey = "" then "stream row has no partition key" else "" }

/-- How the stream lane reads what the publish returned. -/
def streamRead (d : Door) : Verdict :=
  match d.published with
  | none => { kind := .delivered }
  | some err =>
    if err.is .canceled || err.is .publisherClosed then { kind := .aborted }
    else if err.is .tenantStampConflict || err.is .invalidTenantID then
      { kind := .poison, err := some err }
    else if err.is .publisherNotStarted || err.is .deadlineExceeded then
      { kind := .scopeDown, err := some err, waited := d.waited }
    else { kind := .retry, err := some err }

/-- `Ship` of the stream lane. -/
def streamShip (lookup : String → Bool) (d : Door) (sh : Shipment) : Verdict :=
  match streamTarget lookup sh.record.stream with
  | some err => { kind := .poison, err := some err }
  | none =>
    -- the shutdown window: the publishers close before the job's context is cancelled
    if d.closed then
      { kind := .aborted
        err := some { text := "streams: publisher closed", wraps := [.publisherClosed] } }
    else if !d.ready then
      { kind := .scopeDown
        err := some {
          text := "stream " ++ sh.record.stream.quote ++
            " is not carrying messages: streams: publisher not started; Manager.Start binds it"
          wraps := [.publisherNotStarted] } }
    else streamRead d

end Outbox
