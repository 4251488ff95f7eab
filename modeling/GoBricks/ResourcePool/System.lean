import GoBricks.Lib.StepSystem
import GoBricks.ResourcePool.Pool

/-!
# The pool under arbitrary interleavings

The pool together with everything that runs around it: the `GetOrCreate` callers, the create
goroutines, the calls to the Closer made after unlocking, the cleanup loops, and `Close`. A label is
one atomic step of one of them, carrying whatever the environment chooses there — a clock reading,
the result of a create or of a Closer, the visiting order of a map. Any sequence of enabled labels
is a run, so every interleaving of any number of callers on any keys is one.

Three fields are **history variables**: no step reads them, they only record.

* `closeLog` — the values whose Closer has run, or which `Remove` handed back;
* `passErrs` — the close failures the idle-cleanup passes produced;
* `history` — when creates began and succeeded, keys were removed, and entries were installed or
  leased, newest first.

A Closer runs outside the lock, so deciding to close and closing are separate steps: `closing` holds
the calls decided and not yet made. A cleanup loop is inside a pass for as long as `closing` holds a
call of its own or it still has to record a failure.
-/

namespace ResourcePool

/-- Where one `GetOrCreate` call stands. A call that holds a lease stays `leased` until the one
effective call of its `ReleaseFunc`. -/
inductive Caller (E : Type*)
  /-- Waiting for create `c`. -/
  | joined (c : ℕ)
  /-- `await` returned entry `i`; the seed is not claimed yet. -/
  | awaited (i : ℕ)
  /-- The lease on entry `i` has been returned and not yet released. -/
  | leased (i : ℕ)
  | released
  | failed (err : PoolErr E)

/-- The caller left by `leaseOrJoin`. -/
def Caller.ofJoined {E : Type*} : Pool.Joined E → Caller E
  | .failed err => .failed err
  | .leased i => .leased i
  | .joined c _ => .joined c

/-- Recorded events. -/
inductive Event
  /-- `beginCreateLocked` registered create `c`. -/
  | began (c : ℕ)
  /-- Create `c` returned a value. -/
  | created (c : ℕ)
  /-- `Remove(key)` ran. -/
  | removed (key : String)
  /-- `installCreated` ran for entry `i`, or `i` was leased. -/
  | touched (i : ℕ)
  deriving DecidableEq

/-- The events `leaseOrJoin` records. -/
def Event.ofJoined {E : Type*} : Pool.Joined E → List Event
  | .failed _ => []
  | .leased i => [.touched i]
  | .joined _ false => []
  | .joined c true => [.began c]

/-- Where a cleanup loop stands. -/
inductive LoopPhase (E : Type*)
  /-- In `select`. -/
  | idle
  /-- Past the critical section of `cleanupIdle`, closing what it removed. -/
  | pass
  /-- A Closer of the pass returned `err`, not yet recorded. -/
  | noting (err : E)
  /-- Returned; the `done` channel is closed. -/
  | exited

/-- The loop has returned. -/
def LoopPhase.isExited {E : Type*} : LoopPhase E → Bool
  | .exited => true
  | _ => false

/-- A cleanup loop: whether its `stop` channel is closed, and where it stands. The loop started
`n`-th is addressed by `n`, and so are the two channels it was started with. -/
structure Loop (E : Type*) where
  stop : Bool
  phase : LoopPhase E

/-- Where the body of `Close` stands; `sync.Once` lets it run once. -/
inductive ClosePhase (E : Type*)
  | notCalled
  /-- `closed` is set. -/
  | flagged
  /-- Inside `StopCleanup`, joining the loop whose `done` it captured. -/
  | joining (done : Option ℕ)
  /-- The map is drained; the drained entries are being closed, with the errors so far. -/
  | closing (errs : List E)
  | returned (errs : List E)

/-- The whole system. -/
structure State (V E : Type*) where
  pool : Pool V E
  callers : List (Caller E)
  closing : List (Task × ℕ)
  loops : List (Loop E)
  cleanupStop : Option ℕ
  cleanupDone : Option ℕ
  closePhase : ClosePhase E
  closeLog : List ℕ
  passErrs : List E
  history : List Event

/-- One atomic step. -/
inductive Label (V E : Type*)
  /-- A new caller runs `leaseOrJoin`. -/
  | getOrCreate (key : String) (now : ℤ)
  /-- Caller `k`'s context ends before its create settles. -/
  | giveUp (k : ℕ)
  /-- Caller `k` takes the result of its settled create. -/
  | await (k : ℕ)
  | claimSeed (k : ℕ)
  | release (k : ℕ)
  /-- Create `c` returned `value`. -/
  | installCreated (c : ℕ) (value : V) (now : ℤ)
  /-- Create `c` returned an error, panicked, or exited without returning. -/
  | failCreate (c : ℕ) (err : E)
  | remove (key : String)
  /-- A Closer call runs and returns `err`. -/
  | runCloser (t : Task × ℕ) (err : Option E)
  | startCleanup (interval : ℤ)
  /-- The critical section of a `StopCleanup` called from outside. -/
  | stopCleanup
  /-- Loop `l`'s ticker fires: the critical section of `cleanupIdle`. -/
  | tick (l : ℕ) (now : ℤ) (order : List String)
  /-- Loop `l` records a close failure. -/
  | note (l : ℕ)
  /-- Loop `l` is done with its pass. -/
  | endPass (l : ℕ)
  /-- Loop `l` sees its `stop` channel closed. -/
  | exitLoop (l : ℕ)
  /-- `Close` sets `closed`. -/
  | closeFlag
  /-- The critical section of `Close`'s `StopCleanup`. -/
  | closeStop
  /-- `Close` has joined its loop and drains the map. -/
  | closeDrain (order : List String)
  | closeReturn

namespace State

variable {V E : Type*}

/-- A freshly constructed pool with nobody around. -/
def start (maxSize idleTTL : ℤ) : State V E where
  pool := .new maxSize idleTTL
  callers := []
  closing := []
  loops := []
  cleanupStop := none
  cleanupDone := none
  closePhase := .notCalled
  closeLog := []
  passErrs := []
  history := []

variable (s : State V E)

/-! ### Callers and creates -/

/-- `GetOrCreate`, up to the wait for the create. -/
def getOrCreate (key : String) (now : ℤ) : State V E :=
  let r := s.pool.leaseOrJoin key now
  { s with
    pool := r.1
    callers := s.callers ++ [.ofJoined r.2]
    history := Event.ofJoined r.2 ++ s.history }

/-- A caller's context ends before the create does. -/
def giveUp (k : ℕ) : Option (State V E) :=
  match s.callers[k]? with
  | some (.joined c) =>
    match s.pool.creates[c]? with
    | some pc =>
      if pc.settled then none
      else some { s with pool := s.pool.giveUp c, callers := s.callers.set k (.failed .ctx) }
    | none => none
  | _ => none

/-- The create that a caller waits for has ended. -/
def await (k : ℕ) : Option (State V E) :=
  match s.callers[k]? with
  | some (.joined c) =>
    match s.pool.creates[c]? with
    | some pc =>
      if pc.settled then
        match pc.err, pc.e with
        | some err, _ => some { s with callers := s.callers.set k (.failed err) }
        | none, some i => some { s with callers := s.callers.set k (.awaited i) }
        | none, none => none
      else none
    | none => none
  | _ => none

/-- A caller takes the lease that the create left for it. -/
def claimSeed (k : ℕ) : Option (State V E) :=
  match s.callers[k]? with
  | some (.awaited i) =>
    let r := s.pool.claimSeed i
    some { s with
      pool := r.1
      callers := s.callers.set k (if r.2 then .leased i else .failed .poolClosed) }
  | _ => none

/-- A caller gives its lease back. -/
def release (k : ℕ) : Option (State V E) :=
  match s.callers[k]? with
  | some (.leased i) =>
    let r := s.pool.releaseEntry i
    some { s with
      pool := r.1, callers := s.callers.set k .released, closing := s.closing ++ r.2 }
  | _ => none

/-- A create ends with a value. -/
def installCreated (c : ℕ) (value : V) (now : ℤ) : Option (State V E) :=
  match s.pool.creates[c]? with
  | some pc =>
    if pc.settled then none
    else
      let r := s.pool.installCreated c pc value now
      some { s with
        pool := r.1
        closing := s.closing ++ r.2
        history := .touched c :: .created c :: s.history }
  | none => none

/-- A create ends with an error. -/
def failCreate (c : ℕ) (err : E) : Option (State V E) :=
  match s.pool.creates[c]? with
  | some pc =>
    if pc.settled then none else some { s with pool := s.pool.failCreate pc.key c err }
  | none => none

/-- `Remove` -/
def remove (key : String) : State V E :=
  let r := s.pool.remove key
  { s with
    pool := r.1
    closeLog := r.2.toList ++ s.closeLog
    history := .removed key :: s.history }

/-! ### Closers and cleanup loops -/

/-- One counted close failure, if `err` is one. -/
def countErr (err : Option E) : Pool V E :=
  { s.pool with errors := s.pool.errors + err.toList.length }

/-- A failed Closer call is counted by the release and birth paths, recorded by the cleanup loop
that made it, joined into the result of `Close`, and discarded by the other paths. A loop calls one
Closer at a time: the next one waits until a failure is recorded. -/
def runCloser (t : Task × ℕ) (err : Option E) : Option (State V E) :=
  if t ∈ s.closing then
    let s' := { s with closing := s.closing.erase t, closeLog := t.2 :: s.closeLog }
    match t.1 with
    | .release | .birth => some { s' with pool := s.countErr err }
    | .orphan | .evicted => some s'
    | .loop l =>
      match s.loops[l]? with
      | some ⟨stop, .pass⟩ =>
        match err with
        | none => some s'
        | some err =>
          some { s' with
            loops := s.loops.set l ⟨stop, .noting err⟩, passErrs := err :: s.passErrs }
      | _ => none
    | .close =>
      match s.closePhase with
      | .closing errs =>
        some { s' with pool := s.countErr err, closePhase := .closing (errs ++ err.toList) }
      | _ => none
  else none

/-- `StartCleanup`, from its lock on: the lock-free guard before it only returns earlier. -/
def startCleanup (interval : ℤ) : State V E :=
  if s.pool.idleTTL ≤ 0 ∨ interval ≤ 0 ∨ s.pool.closed then s
  else
    match s.cleanupStop with
    | some _ => s
    | none =>
      { s with
        loops := s.loops ++ [{ stop := false, phase := .idle }]
        cleanupStop := some s.loops.length
        cleanupDone := some s.loops.length }

/-- The critical section of `StopCleanup`: close the running loop's `stop` channel. What the caller
then waits for is `cleanupDone`. -/
def stopCleanup : State V E :=
  match s.cleanupStop with
  | some l =>
    { s with
      loops := s.loops.modify l fun lp ↦ { lp with stop := true }
      cleanupStop := none }
  | none => s

/-- A cleanup loop starts a pass. -/
def tick (l : ℕ) (now : ℤ) (order : List String) : Option (State V E) :=
  match s.loops[l]? with
  | some ⟨stop, .idle⟩ =>
    if order.Perm s.pool.entries.keys then
      let r := s.pool.cleanupIdle now order
      some { s with
        pool := r.1
        loops := s.loops.set l ⟨stop, .pass⟩
        closing := s.closing ++ r.2.map fun i ↦ (.loop l, i) }
    else none
  | _ => none

/-- A cleanup loop notes the failure of a close. -/
def note (l : ℕ) : Option (State V E) :=
  match s.loops[l]? with
  | some ⟨stop, .noting err⟩ =>
    some { s with
      pool := { s.pool with
        errors := s.pool.errors + 1, cleanupErrs := s.pool.cleanupErrs ++ [err] }
      loops := s.loops.set l ⟨stop, .pass⟩ }
  | _ => none

/-- A pass ends when its closes have. -/
def endPass (l : ℕ) : Option (State V E) :=
  match s.loops[l]? with
  | some ⟨stop, .pass⟩ =>
    if ∀ t ∈ s.closing, t.1 ≠ .loop l then some { s with loops := s.loops.set l ⟨stop, .idle⟩ }
    else none
  | _ => none

/-- A cleanup loop that was told to stop exits. -/
def exitLoop (l : ℕ) : Option (State V E) :=
  match s.loops[l]? with
  | some ⟨true, .idle⟩ => some { s with loops := s.loops.set l ⟨true, .exited⟩ }
  | _ => none

/-! ### Close -/

/-- `Close` sets the flag. -/
def closeFlag : Option (State V E) :=
  match s.closePhase with
  | .notCalled => some { s with pool := { s.pool with closed := true }, closePhase := .flagged }
  | _ => none

/-- `Close` stops the cleanup, and waits for the loops. -/
def closeStop : Option (State V E) :=
  match s.closePhase with
  | .flagged => some { s.stopCleanup with closePhase := .joining s.cleanupDone }
  | _ => none

/-- Loop `l` has closed its `done` channel. -/
def exited (l : ℕ) : Bool :=
  s.loops[l]?.any fun lp ↦ lp.phase.isExited

/-- `Close` empties the map. -/
def closeDrain (order : List String) : Option (State V E) :=
  match s.closePhase with
  | .joining done =>
    if (∀ l ∈ done, s.exited l) ∧ order.Perm s.pool.entries.keys then
      let r := s.pool.drain order
      some { s with
        pool := r.1
        closePhase := .closing s.pool.cleanupErrs
        closing := s.closing ++ r.2.map fun i ↦ (.close, i) }
    else none
  | _ => none

/-- `Close` returns when its closes have. -/
def closeReturn : Option (State V E) :=
  match s.closePhase with
  | .closing errs =>
    if ∀ t ∈ s.closing, t.1 ≠ .close then some { s with closePhase := .returned errs } else none
  | _ => none

/-- The step function. -/
def step : Label V E → Option (State V E)
  | .getOrCreate key now => some (s.getOrCreate key now)
  | .giveUp k => s.giveUp k
  | .await k => s.await k
  | .claimSeed k => s.claimSeed k
  | .release k => s.release k
  | .installCreated c value now => s.installCreated c value now
  | .failCreate c err => s.failCreate c err
  | .remove key => some (s.remove key)
  | .runCloser t err => s.runCloser t err
  | .startCleanup interval => some (s.startCleanup interval)
  | .stopCleanup => some s.stopCleanup
  | .tick l now order => s.tick l now order
  | .note l => s.note l
  | .endPass l => s.endPass l
  | .exitLoop l => s.exitLoop l
  | .closeFlag => s.closeFlag
  | .closeStop => s.closeStop
  | .closeDrain order => s.closeDrain order
  | .closeReturn => s.closeReturn

end State

/-- The system of a pool built with the given capacity and idle timeout. -/
def system (V E : Type*) (maxSize idleTTL : ℤ) : StepSystem (State V E) (Label V E) where
  init s := s = .start maxSize idleTTL
  step := State.step

end ResourcePool
