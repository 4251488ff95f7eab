import GoBricks.Lib.Database
import GoBricks.Lib.StepSystem
import GoBricks.Streams.HeldSet

/-!
# Offset commits of a holding consumer

One stream of a consumer that holds, from the first delivery on. The client delivers one message at
a time; the delivery waits for the gate, runs the handler or parks the message, and settles: a
message that was handled or parked is recorded by the stream's `offsetTracker`, which commits the
last offset recorded once enough messages or enough time have passed. Stopping the consumer cancels
its base context, which ends a wait at the gate and the retry loop of a park; it then flushes the
tracker, and only after that closes the client's handle.

Whether the gate is open, whether a tenant is held, how handlers and ledger writes end and what the
clock says is the environment's choice.

`history` is a history variable, newest event first.
-/

namespace Streams

/-! ### The tracker -/

/-- `offsetTracker`: the commit policy of one stream. -/
structure OffsetTracker where
  countBeforeStorage : ℤ
  flushInterval : ℤ
  pending : ℕ := 0
  lastHandledOK : ℤ := 0
  lastStoreAt : ℤ := 0
  storedOffset : ℤ := 0
  hasStored : Bool := false

namespace OffsetTracker

/-- Commits the last handled offset, at the time `now`. Returns what the broker has stored, if it
stored anything; a failed commit leaves the counter as it is. A missing storer refuses. -/
def storeLocked (t : OffsetTracker) (w : DbWrite) (now : ℤ) : OffsetTracker × Option ℤ :=
  (if w.fails then t
    else { t with
      storedOffset := t.lastHandledOK
      hasStored := true
      pending := 0
      lastStoreAt := now },
    if w.takesEffect then some t.lastHandledOK else none)

/-- Applies the policy to one settled message. -/
def record (t : OffsetTracker) (offset : ℤ) (handleErr : Bool) (w : DbWrite) (now storedAt : ℤ) :
    OffsetTracker × Option ℤ :=
  if handleErr then (t, none)
  else
    let t := { t with lastHandledOK := offset, pending := t.pending + 1 }
    if (t.pending : ℤ) < t.countBeforeStorage ∧ now - t.lastStoreAt < t.flushInterval then (t, none)
    else t.storeLocked w storedAt

/-- Commits whatever is pending. -/
def flush (t : OffsetTracker) (w : DbWrite) (now : ℤ) : OffsetTracker × Option ℤ :=
  if t.pending = 0 then (t, none) else t.storeLocked w now

variable {t : OffsetTracker} {offset o : ℤ} {w : DbWrite} {now storedAt : ℤ}

@[simp] theorem storeLocked_lastHandledOK :
    (t.storeLocked w now).1.lastHandledOK = t.lastHandledOK := by
  rw [storeLocked]
  split <;> rfl

/-- A store leaves no more pending. -/
theorem storeLocked_pending_le : (t.storeLocked w now).1.pending ≤ t.pending := by
  rw [storeLocked]
  split
  · exact le_rfl
  · exact Nat.zero_le _

/-- A store commits the last offset that was handled. -/
theorem storeLocked_stores (h : (t.storeLocked w now).2 = some o) : o = t.lastHandledOK := by
  change (if w.takesEffect then some t.lastHandledOK else none) = some o at h
  split at h
  · exact (Option.some_inj.1 h).symm
  · contradiction

/-- A message without an error is the last handled. -/
theorem record_lastHandledOK : (t.record offset false w now storedAt).1.lastHandledOK = offset := by
  rw [record]
  split
  · contradiction
  · dsimp only
    split
    · rfl
    · exact storeLocked_lastHandledOK

@[simp] theorem flush_lastHandledOK : (t.flush w now).1.lastHandledOK = t.lastHandledOK := by
  rw [flush]
  split
  · rfl
  · exact storeLocked_lastHandledOK

theorem flush_pending_le : (t.flush w now).1.pending ≤ t.pending := by
  rw [flush]
  split
  · exact le_rfl
  · exact storeLocked_pending_le

/-- A flush with something pending commits the last offset that was handled. -/
theorem flush_stores (h : (t.flush w now).2 = some o) : 0 < t.pending ∧ o = t.lastHandledOK := by
  rw [flush] at h
  split at h
  · contradiction
  · next hpending => exact ⟨Nat.pos_of_ne_zero hpending, storeLocked_stores h⟩

end OffsetTracker

namespace Commit

/-! ### The consumer -/

/-- A delivered message; the tenant is empty when the pipeline establishes none. -/
structure Message where
  offset : ℤ
  tenant : String
  deriving DecidableEq

/-- The error a finished delivery is settled on. -/
inductive Result
  | succeeded
  | payload
  /-- Any other error, a panic included. -/
  | failed
  deriving DecidableEq

/-- Which call of `park` is running. -/
inductive Parking
  /-- The tenant is held, and the handler does not run. -/
  | gated
  /-- `parkFailed`, after a failure. -/
  | settling
  deriving DecidableEq

/-- Where the delivery callback of the stream stands. -/
inductive Pc
  | idle
  /-- `awaitOpen`. -/
  | awaiting (m : Message)
  /-- The top of the `Handle` closure. -/
  | attempting (m : Message)
  | handling (m : Message)
  /-- The top of `park`'s loop. -/
  | parking (m : Message) (by' : Parking)
  /-- `Park`. -/
  | writing (m : Message) (by' : Parking)
  /-- The attempts are over; the tail of the pipeline and `Settle` are next. -/
  | finished (m : Message) (res : Result)
  /-- `recordSettled`. -/
  | recording (m : Message) (handleErr : Bool)
  deriving DecidableEq

/-- Recorded events. -/
inductive Event
  /-- The client called the delivery callback. -/
  | delivered (m : Message)
  /-- The handler returned without an error, in a delivery or in a replay. -/
  | handled (m : Message)
  /-- The delivery failed with a payload error. -/
  | poison (m : Message)
  /-- The broker stored the offset. -/
  | committed (offset : ℤ)
  deriving DecidableEq

/-- The tracker, where the consumer stands, and what happened so far. -/
structure State where
  tracker : OffsetTracker
  /-- The base context is cancelled. -/
  cancelled : Bool := false
  pc : Pc := .idle
  /-- The messages of the stream that the hold ledger has. -/
  ledger : List Message := []
  history : List Event := []

/-- What happens next, and what the environment answers. -/
inductive Label
  | deliver (m : Message)
  /-- `awaitOpen` reports true. -/
  | opened
  /-- The base context is cancelled. -/
  | cancel
  /-- `awaitOpen` reports false. -/
  | dropped
  /-- `gated` when the tenant is held, `poison` when the consumer's screen refuses the message. -/
  | attempt (gated poison : Bool)
  | handled (outcome : Outcome)
  /-- The top of `park`'s loop. -/
  | loop
  | park (w : DbWrite)
  /-- `Park` panics. -/
  | parkPanics
  /-- The tail of the pipeline, which may panic, and the choice `Settle` makes. -/
  | settle (panics : Bool)
  | record (w : DbWrite) (now storedAt : ℤ)
  /-- The flush of `stopLocked`. -/
  | flush (w : DbWrite) (now : ℤ)
  /-- The drain has replayed the message, and deletes its row. -/
  | drained (m : Message) (w : DbWrite)

namespace State

/-- An event is noted. -/
def log (s : State) (e : Event) : State :=
  { s with history := e :: s.history }

/-- The consumer moves. -/
def goto (s : State) (pc : Pc) : State :=
  { s with pc := pc }

/-- The tracker after a call, and what the broker stored. -/
def track (s : State) (r : OffsetTracker × Option ℤ) : State :=
  match r with
  | (t, none) => { s with tracker := t }
  | (t, some offset) => { s with tracker := t }.log (.committed offset)

/-- A message arrives. -/
def deliver (s : State) (m : Message) : Option State :=
  match s.pc with
  | .idle => some ((s.log (.delivered m)).goto (.awaiting m))
  | _ => none

/-- The gate lets the message through. -/
def opened (s : State) : Option State :=
  match s.pc with
  | .awaiting m => some (s.goto (.attempting m))
  | _ => none

/-- The consumer is stopping: nothing is recorded. -/
def dropped (s : State) : Option State :=
  match s.pc with
  | .awaiting _ => if s.cancelled then some (s.goto .idle) else none
  | _ => none

/-- The `Handle` closure up to the handler. -/
def attempt (s : State) (gated poison : Bool) : Option State :=
  match s.pc with
  | .attempting m =>
    if m.tenant ≠ "" && gated then
      if poison then some ((s.log (.poison m)).goto (.finished m .payload))
      else some (s.goto (.parking m .gated))
    else some (s.goto (.handling m))
  | _ => none

/-- The handler returns; whether a failure is tried again is the retry policy's to say. -/
def handled (s : State) (outcome : Outcome) : Option State :=
  match s.pc with
  | .handling m =>
    match outcome with
    | .succeeded => some ((s.log (.handled m)).goto (.finished m .succeeded))
    | .again => some (s.goto (.attempting m))
    | .payload => some ((s.log (.poison m)).goto (.finished m .payload))
    | .failed => some (s.goto (.finished m .failed))
  | _ => none

/-- `park` looks at its context. Abandoned, a gated delivery fails with the context's error, and
`parkFailed` returns. -/
def loop (s : State) : Option State :=
  match s.pc with
  | .parking m by' =>
    if !s.cancelled then some (s.goto (.writing m by'))
    else match by' with
    | .gated => some (s.goto (.finished m .failed))
    | .settling => some (s.goto .idle)
  | _ => none

/-- `Park`; after an error `park` waits and tries again. -/
def park (s : State) (w : DbWrite) : Option State :=
  match s.pc with
  | .writing m by' =>
    let s := if w.takesEffect then { s with ledger := m :: s.ledger } else s
    if w.fails then some (s.goto (.parking m by'))
    else match by' with
    | .gated => some (s.goto (.finished m .succeeded))
    | .settling => some (s.goto (.recording m false))
  | _ => none

/-- A panic of `Park` fails a gated delivery; in `parkFailed` it is recovered and logged by the
settlement guard, which does not try again. -/
def parkPanics (s : State) : Option State :=
  match s.pc with
  | .writing m .gated => some (s.goto (.finished m .failed))
  | .writing _ .settling => some (s.goto .idle)
  | _ => none

/-- `Settle`: `parkFailed` or `commitOffset`. A panic in the tail turns any result into a failure.
-/
def settle (s : State) (panics : Bool) : Option State :=
  match s.pc with
  | .finished m res =>
    match if panics then .failed else res with
    | .succeeded => some (s.goto (.recording m false))
    | .payload => some (s.goto (.recording m true))
    | .failed => some (s.goto (if m.tenant = "" then .recording m true else .parking m .settling))
  | _ => none

/-- The outcome is given to the tracker. -/
def record (s : State) (w : DbWrite) (now storedAt : ℤ) : Option State :=
  match s.pc with
  | .recording m handleErr =>
    some ((s.track (s.tracker.record m.offset handleErr w now storedAt)).goto .idle)
  | _ => none

/-- The flush runs on a goroutine of its own, beside whatever delivery is running. -/
def flush (s : State) (w : DbWrite) (now : ℤ) : Option State :=
  if s.cancelled then some (s.track (s.tracker.flush w now)) else none

/-- A row leaves the ledger only after a replay of its message succeeded. -/
def drained (s : State) (m : Message) (w : DbWrite) : Option State :=
  if m ∈ s.ledger then
    let s := s.log (.handled m)
    some (if w.takesEffect then { s with ledger := s.ledger.filter (· ≠ m) } else s)
  else none

/-- A step of the consumer. -/
def step (s : State) : Label → Option State
  | .deliver m => s.deliver m
  | .opened => s.opened
  | .cancel => some { s with cancelled := true }
  | .dropped => s.dropped
  | .attempt gated poison => s.attempt gated poison
  | .handled outcome => s.handled outcome
  | .loop => s.loop
  | .park w => s.park w
  | .parkPanics => s.parkPanics
  | .settle panics => s.settle panics
  | .record w now storedAt => s.record w now storedAt
  | .flush w now => s.flush w now
  | .drained m w => s.drained m w

end State

/-- One stream of a holding consumer, from the consumer's start on, with a fresh tracker. -/
def system : StepSystem State Label where
  init s := ∃ count interval now, s =
    { tracker := { countBeforeStorage := count, flushInterval := interval, lastStoreAt := now } }
  step := State.step

end Commit

end Streams
