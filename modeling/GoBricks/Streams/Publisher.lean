import GoBricks.Lib.StepSystem
import Mathlib.Data.Nat.Notation
import Mathlib.Logic.Function.Basic

/-!
# The publisher of a stream

Any number of `Publish` calls go through one `Publisher`. A call loads the producer handle it is
bound to, registers a **waiter** for its message, checks once more that the publisher is open, and
waits for a confirmation while a goroutine of its own is in the client's `Send`. The manager closes
the publisher and binds a new handle, one after the other under a lock of its own; the atomics of
the publisher (`bound` and `closed`) and the lock of the waiters are not under that lock, so that
every access to them is a step.

A client message is a pointer that one call makes, and it has one waiter; both are named by the
call. The confirmations, how `Send` ends and when contexts expire are the environment's choice.

`history` is a history variable, newest event first, and so are the fields that are marked.
-/

namespace Streams.Publisher

/-! ### Errors -/

/-- What a publish may return. -/
inductive Err
  | nilMessage
  | publisherClosed
  | publisherNotStarted
  | routingKeyRequired
  | routingKeyUnexpected
  /-- The tenant stamp was refused. -/
  | stamp (cause : String)
  | sendFailed (cause : String)
  | notConfirmed (cause : Option String)
  | abandoned (cause : String)
  deriving DecidableEq

/-- The text of an error; `stream` is the quoted name of the stream. -/
def Err.text (stream : String) : Err → String
  | .nilMessage => "streams: nil message published to stream " ++ stream
  | .publisherClosed => "streams: publisher closed"
  | .publisherNotStarted => "streams: publisher not started; Manager.Start binds it"
  | .routingKeyRequired =>
    "streams: a RoutingKey is required to publish to super stream " ++ stream ++
      "; hashing an empty key would send every message to one partition"
  | .routingKeyUnexpected =>
    "streams: routing keys select super-stream partitions, but this publisher targets " ++
      "plain stream " ++ stream
  | .stamp cause => cause
  | .sendFailed cause => "failed to publish to stream " ++ stream ++ ": " ++ cause
  | .notConfirmed none => "publish to stream " ++ stream ++ " was not confirmed by the broker"
  | .notConfirmed (some cause) => "publish to stream " ++ stream ++ " not confirmed: " ++ cause
  | .abandoned cause =>
    "publish to stream " ++ stream ++ " abandoned before confirmation: " ++ cause

/-- Go's `error`: nothing for nil. -/
abbrev Outcome := Option Err

/-- `routingError`. -/
def routingError (super : Bool) (routingKey : String) : Outcome :=
  if super ∧ routingKey = "" then some .routingKeyRequired
  else if !super ∧ routingKey ≠ "" then some .routingKeyUnexpected
  else none

/-! ### Waiters -/

/-- What a publish waits on. -/
structure Waiter where
  /-- The channel, of capacity one. -/
  ch : Option Outcome := none
  routingKey : String := ""
  done : Bool := false
  /-- History: the results sent on the channel. -/
  results : List Outcome := []

/-- Delivers the result to a waiter that has not been resolved yet. -/
def Waiter.resolve (w : Waiter) (err : Outcome) : Waiter :=
  if w.done then w else { w with done := true, ch := some err, results := err :: w.results }

/-! ### State -/

/-- Where a `Publish` call stands. -/
inductive Pc
  | idle
  /-- `send` has a message; `closed` is read. -/
  | opening
  /-- `binding`: `bound` is read. -/
  | loading
  /-- `binding` found no handle; `closed` is read. -/
  | explaining
  /-- The routing key and the tenant stamp are checked. -/
  | validating (handle : ℕ)
  /-- `registerSend`: the waiter is added. -/
  | registering (handle : ℕ)
  /-- `registerSend`: `closed` is read. -/
  | checking (handle : ℕ)
  /-- `registerSend`: the waiter is resolved. -/
  | refusing (handle : ℕ)
  /-- The select. -/
  | waiting (handle : ℕ)
  /-- The context has expired: `abandon`. -/
  | abandoning (cause : String)
  | ended (err : Outcome)
  deriving DecidableEq

/-- The goroutine of a call. -/
inductive Sender
  | none
  /-- In the client's `Send`. -/
  | sending (handle : ℕ)
  /-- `Send` failed; the waiter is resolved. -/
  | resolving (cause : String)
  | finished
  deriving DecidableEq

/-- What is left to do once `Send` has returned. -/
def Sender.returned : Option String → Sender
  | Option.none => .finished
  | some cause => .resolving cause

/-- The manager, which runs `bind` and `closeBound` one at a time. -/
inductive Manager
  | idle
  /-- `closeBound` has set `closed`; the binding is swapped away. -/
  | swapping
  /-- The handle is closed. -/
  | closing (handle : ℕ)
  /-- The waiters are swept. -/
  | sweeping (handle : Option ℕ)
  /-- `bind` has stored the handle; `closed` is cleared. -/
  | reopening
  deriving DecidableEq

/-- Recorded events. -/
inductive Event
  /-- The waiter of the call was added. -/
  | registered (c : ℕ)
  /-- The client confirmed the message of the call, positively or not. -/
  | confirmed (c : ℕ) (ok : Bool)
  /-- The send of the call resolved: by a confirmation, by an error of `Send`, or because it was
  refused. -/
  | resolved (c : ℕ)
  /-- A close swept the waiters. -/
  | swept
  deriving DecidableEq

/-- The publisher, its calls and senders, and what happened so far. -/
structure State where
  bound : Option ℕ := none
  closed : Bool := false
  /-- Whether the map of the waiters has the message of the call. -/
  pending : ℕ → Bool := fun _ ↦ false
  waiters : ℕ → Waiter := fun _ ↦ {}
  calls : ℕ → Pc := fun _ ↦ .idle
  senders : ℕ → Sender := fun _ ↦ .none
  /-- The routing key of the message each call was given. -/
  routingKeys : ℕ → String := fun _ ↦ ""
  manager : Manager := .idle
  /-- The handles that have been made. -/
  nextHandle : ℕ := 0
  /-- History: the handles whose `closeBound` has completed. -/
  closedHandles : List ℕ := []
  history : List Event := []

/-- What happens next, and what the environment answers. -/
inductive Label
  /-- A call begins, with a message and its routing key, or with nil. -/
  | begin (c : ℕ) (msg : Option String)
  | opened (c : ℕ)
  | load (c : ℕ)
  | explain (c : ℕ)
  | validate (c : ℕ) (stampErr : Option String)
  | register (c : ℕ)
  | check (c : ℕ)
  | refuse (c : ℕ)
  | receive (c : ℕ)
  /-- The context of a waiting call expires. -/
  | expire (c : ℕ) (cause : String)
  | abandon (c : ℕ)
  /-- `Send` returns. -/
  | sent (c : ℕ) (sendErr : Option String)
  | fail (c : ℕ)
  /-- The client delivers a confirmation. -/
  | confirm (c : ℕ) (ok : Bool) (cause : Option String)
  /-- `closeBound` begins. -/
  | shut
  | swap
  | closeHandle
  | sweep
  /-- `bind` begins, with a handle that was made for it. -/
  | bind
  | reopen

/-! ### Steps -/

namespace State

/-- An event is noted. -/
def log (s : State) (e : Event) : State :=
  { s with history := e :: s.history }

/-- A call moves. -/
def goto (s : State) (c : ℕ) (pc : Pc) : State :=
  { s with calls := Function.update s.calls c pc }

/-- A sender moves. -/
def setSender (s : State) (c : ℕ) (sender : Sender) : State :=
  { s with senders := Function.update s.senders c sender }

/-- `waiters.add`. -/
def add (s : State) (c : ℕ) (routingKey : String) : State :=
  { s with
    pending := Function.update s.pending c true
    waiters := Function.update s.waiters c { routingKey := routingKey } }

/-- `waiters.resolve`. -/
def resolve (s : State) (c : ℕ) (err : Outcome) : State :=
  if s.pending c then
    { s with
      pending := Function.update s.pending c false
      waiters := Function.update s.waiters c ((s.waiters c).resolve err) }
  else s

/-- `waiters.abandon`. -/
def tombstone (s : State) (c : ℕ) : State :=
  if s.pending c then
    { s with waiters := Function.update s.waiters c { s.waiters c with done := true } }
  else s

/-- `waiters.routingKeyFor`. -/
def routingKeyFor (s : State) (c : ℕ) : Option String :=
  if s.pending c then some (s.waiters c).routingKey else none

/-- `waiters.sweep`. -/
def sweepWaiters (s : State) (err : Outcome) : State :=
  { s with
    pending := fun _ ↦ false
    waiters := fun c ↦ if s.pending c then (s.waiters c).resolve err else s.waiters c }

/-- A call of `Publish` starts. -/
def begin (s : State) (c : ℕ) (msg : Option String) : Option State :=
  match s.calls c with
  | .idle => some (match msg with
      | none => s.goto c (.ended (some .nilMessage))
      | some routingKey =>
        { s with routingKeys := Function.update s.routingKeys c routingKey }.goto c .opening)
  | _ => none

/-- The first look at the closed flag. -/
def opened (s : State) (c : ℕ) : Option State :=
  match s.calls c with
  | .opening => some (s.goto c (if s.closed then .ended (some .publisherClosed) else .loading))
  | _ => none

/-- The handle is loaded. -/
def load (s : State) (c : ℕ) : Option State :=
  match s.calls c with
  | .loading => some (s.goto c (match s.bound with
      | some handle => .validating handle
      | none => .explaining))
  | _ => none

/-- Why there is no handle. -/
def explain (s : State) (c : ℕ) : Option State :=
  match s.calls c with
  | .explaining =>
    some (s.goto c (.ended (some (if s.closed then .publisherClosed else .publisherNotStarted))))
  | _ => none

/-- The message is checked and stamped. -/
def validate (super : Bool) (s : State) (c : ℕ) (stampErr : Option String) : Option State :=
  match s.calls c with
  | .validating handle =>
    some (s.goto c (match routingError super (s.routingKeys c), stampErr with
      | some err, _ => .ended (some err)
      | none, some cause => .ended (some (.stamp cause))
      | none, none => .registering handle))
  | _ => none

/-- The waiter is registered. -/
def register (s : State) (c : ℕ) : Option State :=
  match s.calls c with
  | .registering handle =>
    some (((s.add c (s.routingKeys c)).log (.registered c)).goto c (.checking handle))
  | _ => none

/-- The second check of `closed`; a live send gets its goroutine. -/
def check (s : State) (c : ℕ) : Option State :=
  match s.calls c with
  | .checking handle =>
    some (if s.closed then s.goto c (.refusing handle)
      else (s.setSender c (.sending handle)).goto c (.waiting handle))
  | _ => none

/-- A registered call that finds the publisher closed resolves its own waiter. -/
def refuse (s : State) (c : ℕ) : Option State :=
  match s.calls c with
  | .refusing handle =>
    some (((s.resolve c (some .publisherClosed)).log (.resolved c)).goto c (.waiting handle))
  | _ => none

/-- A call takes its outcome. -/
def receive (s : State) (c : ℕ) : Option State :=
  match s.calls c, (s.waiters c).ch with
  | .waiting _, some err =>
    some ({ s with waiters := Function.update s.waiters c { s.waiters c with ch := none } }.goto c
      (.ended err))
  | _, _ => none

/-- A call's context ends. -/
def expire (s : State) (c : ℕ) (cause : String) : Option State :=
  match s.calls c with
  | .waiting _ => some (s.goto c (.abandoning cause))
  | _ => none

/-- A call whose context ended leaves its waiter as a tombstone. -/
def abandon (s : State) (c : ℕ) : Option State :=
  match s.calls c with
  | .abandoning cause => some ((s.tombstone c).goto c (.ended (some (.abandoned cause))))
  | _ => none

/-- The send returns. -/
def sent (s : State) (c : ℕ) (sendErr : Option String) : Option State :=
  match s.senders c with
  | .sending _ => some (s.setSender c (.returned sendErr))
  | _ => none

/-- A send that failed resolves the waiter. -/
def fail (s : State) (c : ℕ) : Option State :=
  match s.senders c with
  | .resolving cause =>
    some (((s.resolve c (some (.sendFailed cause))).log (.resolved c)).setSender c .finished)
  | _ => none

/-- `resolveConfirmation`. The client confirms messages that it was given. -/
def confirm (s : State) (c : ℕ) (ok : Bool) (cause : Option String) : Option State :=
  match s.senders c with
  | .none => none
  | _ => some (((s.resolve c (if ok then none else some (.notConfirmed cause))).log
      (.confirmed c ok)).log (.resolved c))

/-- The manager marks the publisher closed. -/
def shut (s : State) : Option State :=
  match s.manager with
  | .idle => some { s with closed := true, manager := .swapping }
  | _ => none

/-- The manager takes the handle away. -/
def swap (s : State) : Option State :=
  match s.manager with
  | .swapping => some { s with
      bound := none
      manager := match s.bound with
        | some handle => .closing handle
        | none => .sweeping none }
  | _ => none

/-- The manager closes the handle it took. -/
def closeHandle (s : State) : Option State :=
  match s.manager with
  | .closing handle => some { s with manager := .sweeping (some handle) }
  | _ => none

/-- The sweep, with which `closeBound` is complete. -/
def sweep (s : State) : Option State :=
  match s.manager with
  | .sweeping handle => some { (s.sweepWaiters (some .publisherClosed)).log .swept with
      manager := .idle
      closedHandles := handle.toList ++ s.closedHandles }
  | _ => none

/-- The manager binds a new handle. -/
def bind (s : State) : Option State :=
  match s.manager with
  | .idle => some { s with
      bound := some s.nextHandle
      nextHandle := s.nextHandle + 1
      manager := .reopening }
  | _ => none

/-- The manager clears the closed flag. -/
def reopen (s : State) : Option State :=
  match s.manager with
  | .reopening => some { s with closed := false, manager := .idle }
  | _ => none

/-- A step of the publisher. -/
def step (super : Bool) (s : State) : Label → Option State
  | .begin c msg => s.begin c msg
  | .opened c => s.opened c
  | .load c => s.load c
  | .explain c => s.explain c
  | .validate c stampErr => s.validate super c stampErr
  | .register c => s.register c
  | .check c => s.check c
  | .refuse c => s.refuse c
  | .receive c => s.receive c
  | .expire c cause => s.expire c cause
  | .abandon c => s.abandon c
  | .sent c sendErr => s.sent c sendErr
  | .fail c => s.fail c
  | .confirm c ok cause => s.confirm c ok cause
  | .shut => s.shut
  | .swap => s.swap
  | .closeHandle => s.closeHandle
  | .sweep => s.sweep
  | .bind => s.bind
  | .reopen => s.reopen

end State

/-- A publisher from its declaration on; `super` for one whose target is a super stream. -/
def system (super : Bool) : StepSystem State Label where
  init s := s = {}
  step := State.step super

end Streams.Publisher
