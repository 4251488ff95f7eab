import GoBricks.Ledgererr
import GoBricks.Lib.Database
import GoBricks.Lib.StepSystem
import GoBricks.Outbox.Shipper
import Mathlib.Data.List.Sort

/-!
# The relay: one ledger, one leader, one cycle after another

A relay cycle takes the leader row, fetches the pending rows oldest first, sets aside the rows of
the lanes that are down, and then walks the rest in order. The model cuts a cycle where the code can
be interrupted or interleaved with another transaction: **one step is one turn of a loop**, either
of `markOutage` or of `runRelayLoop`, and between two of them rows may be inserted and published
rows deleted.

* `RelayCycle.outaged` — the rows `markOutage` still has to mark. It is called on the rows of the
  down lanes before the loop, and on the unattempted remainder after the loop met a dropped lane; in
  the second case nothing is left in `rows`.
* `RelayCycle.rows` — the rows `runRelayLoop` has not reached.

A failing `Mark*` statement may or may not have taken effect (`DbWrite`). The leader row's lock
excludes a second drainer, so a state holds at most one cycle.

`history` is a history variable, newest event first: no step reads it.
-/

namespace Outbox

/-! ### The ledger -/

/-- The rows. -/
abbrev Ledger := List Record

namespace Ledger

/-- The pending rows in sequence order. Selection is status-gated only. -/
def pendingRows (l : Ledger) : List Record :=
  (l.filter fun r ↦ r.status = .pending).insertionSort fun a b ↦ a.seq ≤ b.seq

/-- Up to `batchSize` pending rows, oldest first. -/
def fetchPending (l : Ledger) (batchSize : ℤ) : List Record :=
  l.pendingRows.take (max batchSize 0).toNat

/-- `UPDATE … WHERE id = eventID`. -/
def update (l : Ledger) (eventID : String) (f : Record → Record) : Ledger :=
  l.map fun r ↦ if r.id = eventID then f r else r

/-- `MarkPublished` -/
def markPublished (l : Ledger) (eventID : String) (now : ℤ) : Ledger :=
  l.update eventID fun r ↦ { r with status := .published, publishedAt := some now }

/-- `MarkFailed` -/
def markFailed (l : Ledger) (eventID errMsg : String) : Ledger :=
  l.update eventID fun r ↦ { r with retryCount := r.retryCount + 1, error := errMsg }

/-- `MarkDeadLettered` -/
def markDeadLettered (l : Ledger) (eventID errMsg : String) : Ledger :=
  l.update eventID fun r ↦
    { r with retryCount := r.retryCount + 1, status := .failed, error := errMsg }

/-- Whether `DeletePublished(before)` selects the row. -/
def expired (before : ℤ) (r : Record) : Bool :=
  match r.status, r.publishedAt with
  | .published, some at_ => decide (at_ < before)
  | _, _ => false

/-- `DeletePublished` -/
def deletePublished (l : Ledger) (before : ℤ) : Ledger :=
  l.filter fun r ↦ !expired before r

/-- The row an `Insert` by `Publish` leaves: pending, its lane filled in, the other columns at their
defaults. -/
def inserted (r : Record) : Record :=
  { r with
    lane := laneOrDefault r.lane
    status := .pending
    retryCount := 0
    error := ""
    publishedAt := none }

end Ledger

/-! ### A cycle's bookkeeping -/

/-- One lane's share of a cycle. -/
structure LaneCounts where
  published : ℕ := 0
  failed : ℕ := 0
  deadlettered : ℕ := 0
  parked : ℕ := 0
  deriving DecidableEq

/-- The per-record result the relay loop uses to decide bookkeeping. -/
inductive PublishOutcome
  | published
  | publishedUnrecorded
  | failed
  | deadLettered
  deriving DecidableEq

/-- What a cycle reports. -/
structure RelayBatchResult where
  byLane : AList fun _ : String ↦ LaneCounts := ∅
  unrecorded : ℕ := 0
  stallWait : ℕ := 0
  outageErr : Option GoError := none
  leadershipErr : Option String := none

namespace RelayBatchResult

/-- A count of a lane changes. -/
def count (res : RelayBatchResult) (lane : String) (bump : LaneCounts → LaneCounts) :
    RelayBatchResult :=
  { res with byLane := res.byLane.insert lane (bump ((res.byLane.lookup lane).getD {})) }

/-- An outcome is counted. -/
def apply (res : RelayBatchResult) (lane : String) : PublishOutcome → RelayBatchResult
  | .published => res.count lane fun c ↦ { c with published := c.published + 1 }
  | .publishedUnrecorded => { res with unrecorded := res.unrecorded + 1 }
  | .failed => res.count lane fun c ↦ { c with failed := c.failed + 1 }
  | .deadLettered => res.count lane fun c ↦ { c with deadlettered := c.deadlettered + 1 }

/-- A row that is held back is counted. -/
def markParked (res : RelayBatchResult) (lane : String) : RelayBatchResult :=
  res.count lane fun c ↦ { c with parked := c.parked + 1 }

end RelayBatchResult

/-- One pass over one batch. -/
structure RelayCycle where
  /-- What `FetchPending` returned. -/
  records : List Record
  /-- The lanes the pre-flight found unusable. -/
  downLanes : List String
  /-- The rows `markOutage` still has to mark. -/
  outaged : List Record
  /-- The rows `runRelayLoop` has not reached. -/
  rows : List Record
  /-- Keys whose head failed this cycle. -/
  parked : List String := []
  /-- Scopes whose target proved unready this cycle. -/
  down : List String := []
  res : RelayBatchResult := {}

/-- Recorded events. -/
inductive Event
  /-- A cycle fetched its batch when these rows were pending. -/
  | fetched (visible : List Record)
  /-- `Ship` of the row's lane returned. -/
  | shipped (id : String) (kind : VerdictKind)
  /-- `markOutage` marked the row. -/
  | outaged (id : String)
  /-- The row was judged poison. -/
  | judgedPoison (id : String)
  /-- `MarkDeadLettered` took effect. -/
  | deadLettered (id : String)
  deriving DecidableEq

/-- A cycle in progress with the ledger it works on. -/
structure Pass where
  ledger : Ledger
  history : List Event
  cycle : RelayCycle

namespace Pass

/-- Records an event. -/
def log (p : Pass) (e : Event) : Pass :=
  { p with history := e :: p.history }

/-- Folds an outcome into the lane's share. -/
def apply (p : Pass) (lane : String) (outcome : PublishOutcome) : Pass :=
  { p with cycle := { p.cycle with res := p.cycle.res.apply lane outcome } }

/-- Holds a key for the rest of the cycle. -/
def park (p : Pass) (key : String) : Pass :=
  { p with cycle := { p.cycle with parked := key :: p.cycle.parked } }

/-- Leaves the loop. -/
def stop (p : Pass) : Pass :=
  { p with cycle := { p.cycle with rows := [] } }

/-- A failure is noted at its row, if the write takes effect. -/
def markRecordFailed (p : Pass) (w : DbWrite) (eventID errMsg : String) : Pass :=
  if w.takesEffect then
    { p with ledger := p.ledger.markFailed eventID (Ledgererr.bound errMsg) }
  else p

/-- A failed mark must not bump `retry_count`: the delivery happened either way. -/
def recordPublished (p : Pass) (w : DbWrite) (now : ℤ) (record : Record) : Pass × PublishOutcome :=
  (if w.takesEffect then { p with ledger := p.ledger.markPublished record.id now } else p,
    if w.fails then .publishedUnrecorded else .published)

/-- Advances a record's `retry_count` and holds its key. -/
def fail (p : Pass) (w : DbWrite) (record : Record) (lane key errMsg : String) : Pass :=
  ((p.markRecordFailed w record.id errMsg).apply lane .failed).park key

end Pass

/-! ### The relay -/

/-- A relay as the module wires it: its configuration, the super streams that are outbox targets,
and what its lanes' `Ship` answers. The JSON decoder is a parameter; only whether it fails and the
headers it returns matter. -/
structure Relay (α : Type*) where
  batchSize : ℤ
  maxRetries : ℤ
  unmarshal : List UInt8 → Except String Headers
  lookup : String → Bool
  amqpShip : α → Shipment → Verdict
  streamShip : α → Shipment → Verdict

/-- The production wiring: both lanes ship as the code does. -/
def newRelay (batchSize maxRetries : ℤ) (unmarshal : List UInt8 → Except String Headers)
    (lookup : String → Bool) : Relay Door where
  batchSize := batchSize
  maxRetries := maxRetries
  unmarshal := unmarshal
  lookup := lookup
  amqpShip := amqpShip
  streamShip := streamShip lookup

/-- What the environment answers to one turn of a loop. -/
structure Turn (α : Type*) where
  /-- `ctx.Err() != nil`. -/
  ctxErr : Bool := false
  /-- What `lead.Probe` returned. -/
  probeErr : Option String := none
  door : α
  /-- How the turn's `Mark*` statement ends. -/
  mark : DbWrite := .done
  now : ℤ := 0

/-- The registered lanes, sorted. -/
def laneOrder : List String := [laneAMQP, laneStream]

/-- The lanes whose `Ready` reports an error. -/
def preflight (unready : String → Bool) : List String :=
  laneOrder.filter unready

/-- Separates the rows a down lane owns from the rest, keeping each group's order. -/
def splitOnDownLanes (records : List Record) (down : List String) : List Record × List Record :=
  records.partition fun r ↦ laneOrDefault r.lane ∉ down

namespace Relay

variable {α : Type*} (R : Relay α)

/-- The adapter registered for a lane. -/
def shippers (lane : String) : Option (Shipper α) :=
  if lane = laneAMQP then some ⟨amqpPlan, R.amqpShip⟩
  else if lane = laneStream then some ⟨streamPlan R.lookup, R.streamShip⟩
  else none

/-- The headers of a row. -/
def decodeHeaders (data : List UInt8) : Except String Headers :=
  if data = [] then .ok ∅
  else (R.unmarshal data).mapError fun err ↦ "outbox relay: invalid headers JSON: " ++ err

/-- Plans one row. Nothing is written here: a row no lane can carry comes back with its reason in
`poison`. A row of an unknown lane is keyed under its own id, which it shares with nothing. -/
def plan (record : Record) : Shipment :=
  match R.shippers (laneOrDefault record.lane), R.decodeHeaders record.headers with
  | none, .error err => { record, key := "unknown:" ++ record.id, poison := err }
  | none, .ok _ =>
    { record, key := "unknown:" ++ record.id, poison := "unknown lane " ++ record.lane.quote }
  | some sh, .error err => { sh.plan record ∅ with poison := err }
  | some sh, .ok headers =>
    sh.plan record
      ((headers.insert headerEventID (.str record.id)).insert headerEventType
        (.str record.eventType))

/-- Advances `retry_count` and, once the record has reached `MaxRetries`, parks it as failed. -/
def deadLetterPoison (p : Pass) (w : DbWrite) (record : Record) (errMsg : String) :
    Pass × PublishOutcome :=
  let p := p.log (.judgedPoison record.id)
  if R.maxRetries ≤ record.retryCount + 1 then
    (if w.takesEffect then
      { p with
        ledger := p.ledger.markDeadLettered record.id (Ledgererr.bound errMsg)
        history := .deadLettered record.id :: p.history }
      else p,
      if w.fails then .failed else .deadLettered)
  else (p.markRecordFailed w record.id errMsg, .failed)

/-- Dead-letters a record and, below the ceiling, holds its key. -/
def deadLetter (p : Pass) (w : DbWrite) (record : Record) (lane key reason : String) : Pass :=
  let (p, outcome) := R.deadLetterPoison p w record reason
  if outcome ≠ .failed then p.apply lane outcome else (p.apply lane outcome).park key

/-- One delivery attempt and its verdict. A pass that must stop has no rows left; a lane that
dropped sends the unattempted remainder through the outage path. -/
def ship (p : Pass) (t : Turn α) (laneShipper : Shipper α) (sh : Shipment) (lane : String)
    (remainder : List Record) : Pass :=
  let v := laneShipper.ship t.door sh
  let record := sh.record
  let p := p.log (.shipped record.id v.kind)
  match v.kind with
  | .delivered =>
    let (p, outcome) := p.recordPublished t.mark t.now record
    p.apply lane outcome
  | .retry => p.fail t.mark record lane sh.key v.errText
  | .poison => R.deadLetter p t.mark record lane sh.key v.errText
  | .aborted => p.stop
  | .brokerDown =>
    let p := (p.fail t.mark record lane sh.key v.errText).stop
    { p with
      cycle := { p.cycle with
        outaged := remainder
        res := { p.cycle.res with
          outageErr := v.err
          stallWait := max p.cycle.res.stallWait v.waited } } }
  | .scopeDown =>
    let p := p.fail t.mark record lane sh.key v.errText
    { p with
      cycle := { p.cycle with
        down := sh.scope :: p.cycle.down
        res := { p.cycle.res with stallWait := max p.cycle.res.stallWait v.waited } } }

/-- One turn of `runRelayLoop` on `record`, with `rest` behind it. -/
def runRelayLoop (p : Pass) (t : Turn α) (record : Record) (rest : List Record) : Pass :=
  if t.ctxErr then p.stop
  else match t.probeErr with
  | some err =>
    { p.stop with
      cycle := { p.stop.cycle with
        res := { p.cycle.res with
          leadershipErr := some ("outbox: another relay instance leads this ledger: lost the " ++
            "leader row mid-cycle, database unreachable or the transaction was ended: " ++
            err) } } }
  | none =>
    let lane := laneOrDefault record.lane
    let sh := R.plan record
    let p := { p with cycle := { p.cycle with rows := rest } }
    if sh.scope ∈ p.cycle.down then
      { p with cycle := { p.cycle with res := p.cycle.res.markParked lane } }
    else if sh.key ∈ p.cycle.parked then
      { p with cycle := { p.cycle with res := p.cycle.res.markParked lane } }
    else if sh.poison ≠ "" then R.deadLetter p t.mark record lane sh.key sh.poison
    else match R.shippers lane with
      -- an unknown lane's shipment is always poison
      | none => p.stop
      | some laneShipper => R.ship p t laneShipper sh lane rest

/-- One turn of `markOutage` on `record`, with `rest` behind it. -/
def markOutage (p : Pass) (t : Turn α) (record : Record) (rest : List Record) : Pass :=
  if t.ctxErr then { p with cycle := { p.cycle with outaged := [] } }
  else match t.probeErr with
  | some err =>
    { p with
      cycle := { p.cycle with
        outaged := []
        res := { p.cycle.res with
          leadershipErr := some ("outbox: another relay instance leads this ledger: lost the " ++
            "leader row while marking an outage, database unreachable or the transaction was " ++
            "ended: " ++ err) } } }
  | none =>
    let p := { p.log (.outaged record.id) with cycle := { p.cycle with outaged := rest } }
    (p.markRecordFailed t.mark record.id "messaging unavailable").apply
      (laneOrDefault record.lane) .failed

/-- The next turn of the cycle: the outage marks come before the loop. -/
def turn (p : Pass) (t : Turn α) : Pass :=
  match p.cycle.outaged, p.cycle.rows with
  | record :: rest, _ => markOutage p t record rest
  | [], record :: rest => R.runRelayLoop p t record rest
  | [], [] => p

end Relay

/-! ### The system -/

/-- The ledger, the cycle that runs, and what has happened. -/
structure State where
  ledger : Ledger
  /-- The cycle of the leader, if one is running. -/
  cycle : Option RelayCycle := none
  history : List Event := []

/-- Who moves, and what the environment answers. -/
inductive Label (α : Type*)
  /-- A transaction with a `Publish` in it commits. -/
  | insert (r : Record)
  /-- The retention job. -/
  | deletePublished (before : ℤ)
  /-- A relay takes the leader row and fetches its batch; `unready` are the lanes whose `Ready`
  fails. -/
  | lead (unready : String → Bool)
  /-- The running cycle's next turn. -/
  | turn (t : Turn α)
  /-- The cycle returns, or its process dies. -/
  | release

namespace Relay

variable {α : Type*} (R : Relay α)

/-- `relayTenant` up to the first mark. An idle relay does not even pre-flight. -/
def lead (s : State) (unready : String → Bool) : State :=
  let records := s.ledger.fetchPending R.batchSize
  if records = [] then s
  else
    let downLanes := preflight unready
    let split := splitOnDownLanes records downLanes
    { s with
      cycle := some { records, downLanes, outaged := split.2, rows := split.1 }
      history := .fetched s.ledger.pendingRows :: s.history }

/-- One step. The primary key refuses a second row with one id, and the leader row's lock a second
cycle. -/
def step (s : State) : Label α → Option State
  | .insert r =>
    if r.id ∈ s.ledger.map Record.id then none
    else some { s with ledger := s.ledger ++ [Ledger.inserted r] }
  | .deletePublished before => some { s with ledger := s.ledger.deletePublished before }
  | .lead unready =>
    match s.cycle with
    | some _ => none
    | none => some (R.lead s unready)
  | .turn t => s.cycle.map fun cycle ↦
      let p := R.turn ⟨s.ledger, s.history, cycle⟩ t
      { ledger := p.ledger, cycle := some p.cycle, history := p.history }
  | .release => s.cycle.map fun _ ↦ { s with cycle := none }

/-- The relay and its surroundings from any ledger that satisfies `I`. -/
def system (I : Ledger → Prop) : StepSystem State (Label α) where
  init s := I s.ledger ∧ s.cycle = none ∧ s.history = []
  step := R.step

end Relay

end Outbox
