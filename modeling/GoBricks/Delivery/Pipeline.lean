import GoBricks.Backoff
import GoBricks.Lib.Panics
import Mathlib.Data.List.Basic

/-!
# The delivery pipeline

`Run` puts one message through the pipeline both messaging lanes share: trace and span, the tenant
stamp, the attempts of the handler, the outcome line, and at the end, deferred, the span's end, the
lease scope's drain and the lane's settlement.

Every call into foreign code may panic, and what it answers is a parameter: the lane's in `Request`,
everything else's in `Env`. The handler is given by what its `n`-th invocation does. The state has
what outlives a panic: the scope, the named result `res`, and the trace of the calls whose order
matters, newest first.
-/

namespace Delivery

/-! ### Errors -/

/-- An error as `errors.As` walks it. `as` is the answer of the error's own `As` method for a
permanent error, `.ok false` where there is none; a panic of `As` or `Unwrap` is a panic of the
walk. -/
inductive Err
  | leaf (text : String) (as : Call Bool)
  /-- `permanentError`. -/
  | permanent (err : Err)
  /-- `Unwrap() error`. -/
  | wrap (text : String) (as : Call Bool) (err : Err)
  /-- `Unwrap() []error`. -/
  | join (errs : List Err)

mutual

/-- Whether the error, or anything it wraps, was marked permanent. -/
def Err.isPermanent : Err → Call Bool
  | .leaf _ as => as
  | .permanent _ => .ok true
  | .wrap _ as err =>
    match as with
    | .ok false => err.isPermanent
    | answer => answer
  | .join errs => Err.anyPermanent errs

/-- The walk over the errors a joined one wraps. -/
def Err.anyPermanent : List Err → Call Bool
  | [] => .ok false
  | err :: errs =>
    match err.isPermanent with
    | .ok false => Err.anyPermanent errs
    | answer => answer

end

/-! ### The tenant stamp -/

/-- A carrier entry. -/
inductive Value
  | string (s : String)
  /-- A value of another type. -/
  | other (type : String)

/-- Why a stamp cannot be used. -/
inductive Reason
  | missing
  | notString
  | invalid
  deriving DecidableEq

/-- The text of a reason. -/
def Reason.text : Reason → String
  | .missing => "missing"
  | .notString => "not a string"
  | .invalid => "invalid"

/-- Why a tenant stamp is not read. -/
structure ReadError where
  reason : Reason
  len : ℕ := 0
  type : String := ""

/-- The text of the error. -/
def ReadError.error (e : ReadError) : String :=
  if e.type ≠ "" then "tenant stamp " ++ e.reason.text ++ " (" ++ e.type ++ ")"
  else "tenant stamp " ++ e.reason.text ++ " (" ++ toString e.len ++ " bytes)"

/-- `ValidateTenantID`: one to 64 lowercase letters, digits and hyphens. -/
def validTenantID (id : String) : Bool :=
  let cs := id.toList
  0 < cs.length && cs.length ≤ 64 && cs.all fun c ↦ c.isLower || c.isDigit || c = '-'

/-- `tenantstamp.Read`, of what the carrier has under the stamp's name. -/
def readStamp : Option Value → Except ReadError String
  | none => .error { reason := .missing }
  | some (.other type) => .error { reason := .notString, type := type }
  | some (.string id) =>
    if validTenantID id then .ok id else .error { reason := .invalid, len := id.utf8ByteSize }

/-! ### Requests and results -/

/-- How a handler ends. -/
inductive Outcome
  | succeeded
  | handlerError
  | panicked
  deriving DecidableEq

/-- A logger; of the consumer's and the one bound to the message's context only which it is. -/
inductive Logger
  | own
  | bound
  deriving DecidableEq

/-- What the lane settles on. -/
structure Result where
  outcome : Outcome := .succeeded
  err : Option Err := none
  duration : ℤ := 0
  traceID : String := ""
  log : Option Logger := none
  attempts : ℕ := 0
  panicType : String := ""

/-- A borrowed handle, by its release callback. -/
structure Lease where
  id : ℕ
  release : Call Unit

/-- One invocation of the handler: the leases it takes, and how it ends. -/
structure Attempt where
  leases : List Lease := []
  reply : Call (Option Err)

/-- A retry policy. -/
structure Retry where
  maxAttempts : ℤ
  initialBackoff : ℤ
  maxBackoff : ℤ

/-- What a lane hands the pipeline for one message. -/
structure Request where
  /-- The carrier's `Lookup` of the stamp. -/
  lookup : Call (Option Value) := .ok none
  tenantStamps : Bool := false
  tenantOptional : Bool := false
  log : Option Logger := some .own
  retry : Option Retry := none
  /-- What the `n`-th invocation does, for the tenant of the handler's context. -/
  handle : Option String → ℕ → Attempt
  logOutcome : Result → Call Unit
  settle : Option (Result → Call Unit)

/-- What the pipeline's surroundings answer. -/
structure Env where
  /-- `ExtractFromHeaders`: the trace id the carrier has. -/
  extract : Call (Option String)
  /-- The tracer's `Start`. -/
  start : Call Unit
  /-- The span's `SetAttributes`, at the start. -/
  setAttributes : Call Unit
  ensureTraceID : Call String
  /-- The logger's `WithContext`. -/
  withContext : Call (Option Logger)
  /-- Whether the context is done when the wait before the `n`-th attempt begins. -/
  ctxErr : ℕ → Bool
  /-- Whether the timer of that wait fires before the context is done. -/
  fires : ℕ → Bool
  /-- The span's `SetAttributes`, with the outcome. -/
  setOutcome : Call Unit
  recordError : Call Unit
  recordConsume : Call Unit
  /-- The span's `End`. -/
  endSpan : Call Unit
  /-- The log line for a panic of `Settle`. -/
  logSettlePanic : Call Unit
  /-- `time.Since(start)` when the attempts are over, and when a panic is recovered. -/
  elapsed : ℤ
  elapsedAtPanic : ℤ

/-- Recorded calls. -/
inductive Event
  /-- The handler was invoked. -/
  | attempted (n : ℕ)
  /-- The span's `End` was called. -/
  | spanEnded
  /-- The release callback of the lease was called. -/
  | released (lease : ℕ)
  /-- `Settle` was called. -/
  | settled (res : Result)

/-- `leasescope.Scope`. -/
structure Scope where
  releases : List Lease := []
  drained : Bool := false

/-- What a delivery has borrowed, its result and what has happened. -/
structure State where
  scope : Scope := {}
  res : Option Result := none
  trace : List Event := []

/-- An event is recorded. -/
def State.log (s : State) (e : Event) : State :=
  { s with trace := e :: s.trace }

open Go

/-! ### Attempts -/

/-- The error of a panic. -/
def panicErr (type : String) : Err :=
  .leaf ("panic in message handler (type: " ++ type ++ ")") (.ok false)

/-- Runs the lane's handler, turning a panic into an error. -/
def invoke : Call (Option Err) → Result
  | .ok none => {}
  | .ok (some err) => { outcome := .handlerError, err := some err }
  | .error p => { outcome := .panicked, panicType := p, err := some (panicErr p) }

/-- The wait before the given attempt, counted from two. -/
def backoffFor (r : Retry) (attempt : ℕ) : ℤ :=
  if attempt < 2 then 0
  else
    let base := max r.initialBackoff 0
    if base = 0 then 0 else Backoff.saturating base r.maxBackoff (attempt - 2)

/-- Whether the caller may try again. -/
def wait (ctxErr : Bool) (d : ℤ) (fires : Bool) : Bool :=
  if ctxErr then false else if d = 0 then true else fires

/-- The handler runs: what it borrows is added to the scope. -/
def State.attempt (s : State) (n : ℕ) (leases : List Lease) : State :=
  { s.log (.attempted n) with scope := { s.scope with releases := s.scope.releases ++ leases } }

/-- One round of the loop of `runAttempts`; `next` is the rest of the loop, where the policy allows
another attempt. -/
def runAttempt (req : Request) (env : Env) (tenant : Option String) (attempt : ℕ)
    (next : Option (Go State Result)) : Go State Result := do
  modify fun s ↦ s.attempt attempt (req.handle tenant attempt).leases
  let res := { invoke (req.handle tenant attempt).reply with attempts := attempt }
  match res.outcome, res.err, req.retry, next with
  | .handlerError, some err, some retry, some next =>
    if ← call err.isPermanent then return res
    else if wait (env.ctxErr attempt) (backoffFor retry (attempt + 1)) (env.fires attempt) then next
    else return res
  | _, _, _, _ => return res

/-- The attempts from the `attempt`-th on, of which the policy allows `left` more after that one. -/
def runAttempts (req : Request) (env : Env) (tenant : Option String) :
    (left attempt : ℕ) → Go State Result
  | 0, attempt => runAttempt req env tenant attempt none
  | left + 1, attempt =>
    runAttempt req env tenant attempt (some (runAttempts req env tenant left (attempt + 1)))

/-- How many attempts the policy allows after the first. -/
def Request.retries (req : Request) : ℕ :=
  match req.retry with
  | none => 0
  | some retry => (retry.maxAttempts - 1).toNat

/-! ### The pipeline -/

/-- The tenant the handler's context is seeded with; the error refuses the delivery. -/
def seedTenant (req : Request) : Call (Except Err (Option String)) :=
  if !req.tenantStamps then .ok (.ok none)
  else match req.lookup with
  | .error p => .error p
  | .ok value =>
    match readStamp value with
    | .ok id => .ok (.ok (some id))
    | .error e =>
      if req.tenantOptional ∧ e.reason = .missing then .ok (.ok none)
      else .ok (.error (.leaf e.error (.ok false)))

/-- The part of `outcomeAttributes` that can panic. -/
def outcomeAttributes (res : Result) : Call Bool :=
  match res.outcome, res.err with
  | .handlerError, some err => err.isPermanent
  | _, _ => .ok false

/-- The trace id of the delivery: the one it carried, or a new one. -/
def traceID (env : Env) : Option String → Call String
  | some id => .ok id
  | none => env.ensureTraceID

/-- The delivery is refused, or the handler runs. -/
def handle (req : Request) (env : Env) : Go State Result := do
  match ← call (seedTenant req) with
  | .error err => return { outcome := .handlerError, err := some err }
  | .ok tenant => runAttempts req env tenant req.retries 1

/-- The result is set and reported. -/
def report (req : Request) (env : Env) (res : Result) : Go State Unit := do
  modify fun s ↦ { s with res := some res }
  call (req.logOutcome res)
  let _ ← call (outcomeAttributes res)
  call env.setOutcome
  call env.recordError
  call env.recordConsume

/-- `Run` after the guard is installed, up to its return. -/
def body (req : Request) (env : Env) (carried : Option String) : Go State Unit := do
  let id ← call (traceID env carried)
  let log ← call env.withContext
  let res ← handle req env
  report req env { res with duration := env.elapsed, traceID := id, log := log }

/-- The result of a delivery whose tail panicked. -/
def panickedResult (req : Request) (env : Env) (res : Option Result) (type : String) : Result :=
  let res := res.getD {}
  { res with
    log := res.log.or req.log
    outcome := .panicked
    panicType := type
    err := some (panicErr type)
    duration := if res.duration = 0 then env.elapsedAtPanic else res.duration }

/-- Hands the result to the lane's `Settle`. A panic inside is logged, and a panic of that log line
is dropped. -/
def settleOnce (req : Request) (env : Env) : Go State Unit := do
  match req.settle, (← get).res with
  | some settle, some res =>
    guarding
      (fun recovered ↦ match recovered, res.log with
        | some _, some _ => guarding (fun _ ↦ pure ()) (call env.logSettlePanic : Go State Unit)
        | _, _ => pure ())
      (do modify (·.log (.settled res)); call (settle res))
  | _, _ => return

/-- The loop of `ReleaseAll`. -/
def releaseEach : List Lease → Go State Unit
  | [] => pure ()
  | lease :: leases => do
    modify (·.log (.released lease.id))
    call lease.release
    releaseEach leases

/-- `ReleaseAll`: the scope is emptied before the first release is called. -/
def releaseAll : Go State Unit := do
  let releases := (← get).scope.releases
  modify fun s ↦ { s with scope := { releases := [], drained := true } }
  releaseEach releases

/-- `span.End`. -/
def endSpan (env : Env) : Go State Unit := do
  modify (·.log .spanEnded)
  call env.endSpan

/-- The guard: it turns a panic into the result, and settles. -/
def settleGuard (req : Request) (env : Env) (recovered : Option String) : Go State Unit := do
  match recovered with
  | some type => modify fun s ↦ { s with res := some (panickedResult req env s.res type) }
  | none => pure ()
  settleOnce req env

/-- Puts one message through the pipeline and returns the result the lane settled on. -/
def run (req : Request) (env : Env) : Go State (Option Result) := do
  let carried ← call env.extract
  call env.start
  call env.setAttributes
  guarding (settleGuard req env) (deferring releaseAll (deferring (endSpan env) (body req env
  carried)))
  return (← get).res

end Delivery
