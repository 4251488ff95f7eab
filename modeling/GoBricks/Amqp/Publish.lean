import GoBricks.Lib.StepSystem
import Mathlib.Data.Int.Basic
import Mathlib.Logic.Function.Basic

/-!
# Publisher confirms of the AMQP client

Any number of `publishBytes` calls share one client. A call draws its delivery tag, registers a
**pending** entry under (generation, tag) and sends its frame, all in the publish slot; it then
waits on a channel of its own. The dispatcher of each generation takes the broker's confirmations
and returns and hands them to the entry they belong to. A reconnect sweeps the entries of the old
generation, installs the next one and starts its dispatcher, also in the slot; the old dispatcher
goes on until its channel is closed.

The entries are in two maps, `pendingPublishes` and, for a Mandatory publish, an index by message
id, which is all the address a return carries. Every access to a map is a step of its own, so that
`untrackPending`, which five callers share, is two: the removal from the first map, after which
nobody else finds the entry, and the removal from the index.

A step is one such access, one channel operation, or one critical section; contexts, timers and
failures are the environment's choice, and so is what the broker does. `history` is a history
variable, newest event first, and so are the fields of an entry and of a call that are marked.
-/

namespace Amqp

/-! ### Data -/

/-- What a pending publish is stored under. -/
@[ext]
structure ConfirmKey where
  generation : ℕ
  tag : ℕ
  deriving DecidableEq

/-- What a Mandatory publish is indexed by. -/
structure MandatoryKey where
  generation : ℕ
  messageID : String
  deriving DecidableEq

/-- What the client keeps of a basic.return. -/
structure PublishReturn where
  replyCode : ℕ
  replyText : String
  messageID : String
  deriving DecidableEq

/-- `amqp.Confirmation` -/
structure Confirmation where
  tag : ℕ
  ack : Bool
  deriving DecidableEq

/-- The answer to one publish: its confirmation, and the return that preceded it. -/
structure PublishConfirm extends Confirmation where
  returned : Option PublishReturn
  deriving DecidableEq

/-- Why an attempt failed. -/
inductive Cause
  | publishError
  | nacked
  | unroutable
  | confirmTimeout
  deriving DecidableEq

/-- How a call ends. -/
inductive Result
  /-- It returned nil, on the confirmation of the key. -/
  | ok (key : ConfirmKey)
  /-- An abort or the end of its attempts, with the last cause wrapped. -/
  | failed (cause : Option Cause)
  | notConnected
  deriving DecidableEq

/-! ### Threads -/

/-- Who runs in the client. -/
inductive Thread
  | call (c : ℕ)
  /-- `dispatchConfirms`, one per generation. -/
  | dispatcher (g : ℕ)
  | reconnect
  deriving DecidableEq

/-- Who called `untrackPending`, and for what. -/
inductive Untracker
  /-- A call that gives up; its own entry. -/
  | abort (entry : ℕ)
  /-- A call whose attempt failed; its own entry. -/
  | retry (entry : ℕ) (cause : Cause)
  /-- `routeConfirm`. -/
  | route (confirm : Confirmation)
  /-- `drainPendingPublishesWithNack`. -/
  | sweep
  deriving DecidableEq

/-- What a dispatcher does once it has taken a return. -/
inductive Drained
  | select
  /-- It is draining the returns ahead of the confirmation. -/
  | route (confirm : Confirmation)
  /-- It is draining the returns of a channel that was closed. -/
  | exit
  deriving DecidableEq

/-- Where a thread stands. -/
inductive Pc
  /-- Not begun; for the reconnect, between two rotations. -/
  | idle
  /-- `publishAttemptGuard`. -/
  | guarding
  /-- The slot's `acquire`. -/
  | acquiring
  /-- In the slot: readiness, channel, generation and `GetNextPublishSeqNo` are read. -/
  | snapshotting
  /-- In the slot: `trackPending`'s first store. -/
  | indexing (key : ConfirmKey) (entry : ℕ)
  /-- In the slot: `trackPending`'s second store. -/
  | storing (key : ConfirmKey) (entry : ℕ)
  /-- In the slot: `PublishWithContext`. -/
  | sending (key : ConfirmKey) (entry : ℕ)
  /-- The select of `publishAttempt`. -/
  | waiting (key : ConfirmKey) (entry : ℕ)
  /-- `publishRetryEpilogue`. -/
  | retrying (cause : Cause)
  | ended (r : Result)
  /-- The select of `dispatchConfirms`. -/
  | selecting
  /-- `drainReturns`. -/
  | draining (next : Drained)
  /-- `recordReturn`: the index is read. -/
  | recording (ret : PublishReturn) (next : Drained)
  /-- `recordReturn`: the return is stored. -/
  | attaching (ret : PublishReturn) (entry : ℕ) (next : Drained)
  | exited
  /-- `changeChannel` waits for the slot. -/
  | rotating
  /-- In the slot: the range over the pending publishes of the old generation. -/
  | sweeping (g : ℕ)
  /-- In the slot: the new channel is installed. -/
  | installing
  /-- `untrackPending`: the removal from the pending publishes. -/
  | untracking (key : ConfirmKey) (by' : Untracker)
  /-- `untrackPending`: the removal from the index. -/
  | unindexing (key : ConfirmKey) (entry : ℕ) (by' : Untracker)
  /-- The send on the confirm channel of the entry. -/
  | answering (key : ConfirmKey) (entry : ℕ) (by' : Untracker)
  deriving DecidableEq

/-! ### State -/

/-- `pendingPublish`. -/
structure Pending where
  /-- Empty unless the publish is Mandatory. -/
  messageID : String := ""
  /-- The confirm channel, of capacity one. -/
  confirm : Option PublishConfirm := none
  returned : Option PublishReturn := none
  /-- History: the call that made the entry. -/
  call : ℕ := 0
  /-- History: the key it was made for. -/
  key : ConfirmKey := ⟨0, 0⟩
  /-- History: the thread that removed it from the pending publishes. -/
  taker : Option Thread := none

/-- A frame the broker has. -/
structure Frame where
  call : ℕ
  entry : ℕ
  mandatory : Bool
  messageID : String

/-- A channel and its listeners. -/
structure Channel where
  /-- The last delivery tag that was drawn. -/
  published : ℕ := 0
  frames : ℕ → Option Frame := fun _ ↦ none
  confirms : List Confirmation := []
  returns : List PublishReturn := []

/-- One `publishBytes` call. -/
structure Call where
  mandatory : Bool := false
  messageID : String := ""
  retryCount : ℕ := 0
  lastCause : Option Cause := none
  /-- History: the attempts begun. -/
  attempts : ℕ := 0

/-- Recorded events. -/
inductive Event
  /-- The broker confirmed the frame of the key. -/
  | confirmed (key : ConfirmKey) (ack : Bool)
  /-- The broker returned the frame of the key. -/
  | returned (key : ConfirmKey)
  /-- The entry was answered, by the confirmation of the key or by a sweep. -/
  | answered (entry : ℕ) (by' : Option ConfirmKey)
  /-- The call returned nil, on the confirmation of the key. -/
  | succeeded (c : ℕ) (key : ConfirmKey)
  /-- An attempt of the call was classified as unroutable. -/
  | unroutable (c : ℕ)
  deriving DecidableEq

/-- The client with its channels and calls, and what has happened so far. -/
structure State where
  generation : ℕ := 0
  isReady : Bool := false
  closed : Bool := false
  publishSerial : Option Thread := none
  pendingPublishes : ConfirmKey → Option ℕ := fun _ ↦ none
  pendingMandatory : MandatoryKey → Option ℕ := fun _ ↦ none
  entries : ℕ → Pending := fun _ ↦ {}
  nextEntry : ℕ := 0
  channels : ℕ → Channel := fun _ ↦ {}
  calls : ℕ → Call := fun _ ↦ {}
  threads : Thread → Pc := fun _ ↦ .idle
  history : List Event := []

/-- How `PublishWithContext` ends. A failed publish may or may not have drawn its tag. -/
inductive Sent
  | ok
  | failed (drew : Bool)

/-- What happens next, and what the environment answers. -/
inductive Label
  /-- A call begins; `minted` is the id made for a publish that brings none. -/
  | begin (c : ℕ) (mandatory : Bool) (messageID minted : String)
  | guard (c : ℕ) (abort : Bool)
  /-- The slot is taken, or the wait for it ends with the context. -/
  | acquire (c : ℕ) (abort : Bool)
  | snapshot (c : ℕ)
  | index (c : ℕ)
  | store (c : ℕ)
  | send (c : ℕ) (r : Sent)
  | receive (c : ℕ)
  /-- The wait ends without an answer, by the timer or by the context or the shutdown. -/
  | giveUp (c : ℕ) (timeout : Bool)
  | retry (c : ℕ) (abort : Bool)
  | untrack (th : Thread)
  | unindex (th : Thread)
  | answer (th : Thread)
  | brokerConfirm (key : ConfirmKey) (ack : Bool)
  | brokerReturn (key : ConfirmKey) (replyCode : ℕ) (replyText : String)
  | takeReturn (g : ℕ)
  | takeConfirm (g : ℕ)
  /-- The confirm listener is closed. -/
  | teardown (g : ℕ)
  | drain (g : ℕ)
  | record (g : ℕ)
  | attach (g : ℕ)
  /-- The dispatcher sees the shutdown. -/
  | stop (g : ℕ)
  | rotate
  | acquireUncond
  /-- The range comes to the key with the tag. -/
  | sweep (tag : ℕ)
  | swept
  | install
  | ready (isReady : Bool)
  | close

/-! ### Steps -/

/-- The channel after a publish: the broker has the frame, or the publish failed. -/
def Channel.publish (ch : Channel) (f : Frame) : Sent → Channel
  | .ok =>
    { ch with
      published := ch.published + 1
      frames := Function.update ch.frames (ch.published + 1) (some f) }
  | .failed true => { ch with published := ch.published + 1 }
  | .failed false => ch

/-- What is sent on the confirm channel. A sweep answers as the broker would have. -/
def Untracker.answer (key : ConfirmKey) (returned : Option PublishReturn) :
    Untracker → PublishConfirm
  | .route confirm => { confirm with returned := returned }
  | _ => { tag := key.tag, ack := returned.isSome, returned := returned }

/-- Where a dispatcher goes on after a return, and when there is none left. -/
def Drained.again : Drained → Pc
  | .select => .selecting
  | next => .draining next

/-- Where the dispatcher goes when there is no return left. -/
def Drained.done (g : ℕ) : Drained → Pc
  | .select => .selecting
  | .route confirm => .untracking ⟨g, confirm.tag⟩ (.route confirm)
  | .exit => .exited

namespace State

/-- An event is recorded. -/
def log (s : State) (e : Event) : State :=
  { s with history := e :: s.history }

/-- A thread moves. -/
def goto (s : State) (th : Thread) (pc : Pc) : State :=
  { s with threads := Function.update s.threads th pc }

/-- An entry is set. -/
def setEntry (s : State) (e : ℕ) (p : Pending) : State :=
  { s with entries := Function.update s.entries e p }

/-- A call's record is set. -/
def setCall (s : State) (c : ℕ) (call : Call) : State :=
  { s with calls := Function.update s.calls c call }

/-- A channel is set. -/
def setChannel (s : State) (g : ℕ) (ch : Channel) : State :=
  { s with channels := Function.update s.channels g ch }

/-- `publishAbort`. -/
def abort (s : State) (c : ℕ) : State :=
  s.goto (.call c) (.ended (.failed (s.calls c).lastCause))

/-- `publishBytes` up to its loop. -/
def begin (s : State) (c : ℕ) (mandatory : Bool) (messageID minted : String) : Option State :=
  match s.threads (.call c) with
  | .idle =>
    if minted = "" then none
    else
      let id := if messageID = "" then minted else messageID
      some ((s.setCall c { mandatory := mandatory, messageID := id }).goto (.call c) .guarding)
  | _ => none

/-- `publishAttemptGuard` -/
def guard (s : State) (c : ℕ) (abort : Bool) : Option State :=
  match s.threads (.call c) with
  | .guarding =>
    if abort then some (s.abort c)
    else
      let call := s.calls c
      some ((s.setCall c { call with attempts := call.attempts + 1 }).goto (.call c) .acquiring)
  | _ => none

/-- A call takes the publish slot, or gives up on it. -/
def acquire (s : State) (c : ℕ) (abort : Bool) : Option State :=
  match s.threads (.call c) with
  | .acquiring =>
    if abort then some (s.abort c)
    else if s.publishSerial = none then
      some ({ s with publishSerial := some (.call c) }.goto (.call c) .snapshotting)
    else none
  | _ => none

/-- The snapshot of `publishSlotted`; the slot keeps it consistent until the frame is sent. -/
def snapshot (s : State) (c : ℕ) : Option State :=
  match s.threads (.call c) with
  | .snapshotting =>
    if !s.isReady then
      some ({ s with publishSerial := none }.goto (.call c) (.ended .notConnected))
    else
      let call := s.calls c
      let key := ⟨s.generation, (s.channels s.generation).published + 1⟩
      let p := { messageID := if call.mandatory then call.messageID else "", call := c, key := key }
      some (({ s with nextEntry := s.nextEntry + 1 }.setEntry s.nextEntry p).goto (.call c)
        (.indexing key s.nextEntry))
  | _ => none

/-- The first half of `trackPending`. -/
def index (s : State) (c : ℕ) : Option State :=
  match s.threads (.call c) with
  | .indexing key e =>
    let id := (s.entries e).messageID
    let s := if id ≠ "" then
        { s with pendingMandatory :=
          Function.update s.pendingMandatory ⟨key.generation, id⟩ (some e) }
      else s
    some (s.goto (.call c) (.storing key e))
  | _ => none

/-- The second half of `trackPending`. -/
def store (s : State) (c : ℕ) : Option State :=
  match s.threads (.call c) with
  | .storing key e =>
    some ({ s with pendingPublishes := Function.update s.pendingPublishes key (some e) }.goto
      (.call c) (.sending key e))
  | _ => none

/-- `PublishWithContext`, and the release of the slot. -/
def send (s : State) (c : ℕ) (r : Sent) : Option State :=
  match s.threads (.call c) with
  | .sending key e =>
    let call := s.calls c
    let frame := { call := c, entry := e, mandatory := call.mandatory, messageID := call.messageID }
    let s := { s.setChannel key.generation ((s.channels key.generation).publish frame r) with
      publishSerial := none }
    some (s.goto (.call c) (match r with
      | .ok => .waiting key e
      | .failed _ => .untracking key (.retry e .publishError)))
  | _ => none

/-- The confirm channel answers: `armConfirmation`. -/
def receive (s : State) (c : ℕ) : Option State :=
  match s.threads (.call c) with
  | .waiting key e =>
    match (s.entries e).confirm with
    | none => none
    | some a =>
      let s := s.setEntry e { s.entries e with confirm := none }
      some (if a.ack then
          if a.returned = none then (s.log (.succeeded c key)).goto (.call c) (.ended (.ok key))
          else (s.log (.unroutable c)).goto (.call c) (.retrying .unroutable)
        else s.goto (.call c) (.retrying .nacked))
  | _ => none

/-- A call stops waiting, on a timeout or because it is over. -/
def giveUp (s : State) (c : ℕ) (timeout : Bool) : Option State :=
  match s.threads (.call c) with
  | .waiting key e =>
    some (s.goto (.call c)
      (.untracking key (if timeout then .retry e .confirmTimeout else .abort e)))
  | _ => none

/-- `publishRetryEpilogue`: the attempt ceiling, then the wait. -/
def retry (maxPublishAttempts : ℤ) (s : State) (c : ℕ) (abort : Bool) : Option State :=
  match s.threads (.call c) with
  | .retrying cause =>
    let call := { s.calls c with
      retryCount := (s.calls c).retryCount + 1
      lastCause := some cause }
    let s := s.setCall c call
    some (if 0 < maxPublishAttempts ∧ maxPublishAttempts ≤ call.retryCount ∨ abort = true then
        s.goto (.call c) (.ended (.failed (some cause)))
      else s.goto (.call c) .guarding)
  | _ => none

/-- Where the caller of `untrackPending` goes on when there is nothing left for it to do. -/
def resume (s : State) (th : Thread) (key : ConfirmKey) : Untracker → Pc
  | .abort _ => .ended (.failed (match th with
      | .call c => (s.calls c).lastCause
      | _ => none))
  | .retry _ cause => .retrying cause
  | .route _ => .selecting
  | .sweep => .sweeping key.generation

/-- `untrackPending`'s `LoadAndDelete`. -/
def untrack (s : State) (th : Thread) : Option State :=
  match s.threads th with
  | .untracking key by' =>
    match s.pendingPublishes key with
    | none => some (s.goto th (s.resume th key by'))
    | some e =>
      let s := s.setEntry e { s.entries e with taker := some th }
      some ({ s with pendingPublishes := Function.update s.pendingPublishes key none }.goto th
        (.unindexing key e by'))
  | _ => none

/-- `untrackPending`'s `CompareAndDelete`. -/
def unindex (s : State) (th : Thread) : Option State :=
  match s.threads th with
  | .unindexing key e by' =>
    let mkey := ⟨key.generation, (s.entries e).messageID⟩
    let s := if mkey.messageID ≠ "" ∧ s.pendingMandatory mkey = some e then
        { s with pendingMandatory := Function.update s.pendingMandatory mkey none }
      else s
    some (s.goto th (match by' with
      | .route _ | .sweep => .answering key e by'
      | _ => s.resume th key by'))
  | _ => none

/-- The send on the confirm channel, which does not block. -/
def answer (s : State) (th : Thread) : Option State :=
  match s.threads th with
  | .answering key e by' =>
    let p := s.entries e
    let a := by'.answer key p.returned
    let s := s.setEntry e { p with confirm := some (p.confirm.getD a) }
    some ((s.log (.answered e (match by' with
      | .route _ => some key
      | _ => none))).goto th (s.resume th key by'))
  | _ => none

/-- The broker confirms a frame. -/
def brokerConfirm (s : State) (key : ConfirmKey) (ack : Bool) : Option State :=
  let ch := s.channels key.generation
  match ch.frames key.tag with
  | none => none
  | some _ => some ((s.setChannel key.generation
      { ch with confirms := ch.confirms ++ [⟨key.tag, ack⟩] }).log (.confirmed key ack))

/-- The broker returns a Mandatory frame. -/
def brokerReturn (s : State) (key : ConfirmKey) (replyCode : ℕ) (replyText : String) :
    Option State :=
  let ch := s.channels key.generation
  match ch.frames key.tag with
  | none => none
  | some f =>
    if f.mandatory then
      some ((s.setChannel key.generation
        { ch with returns := ch.returns ++ [⟨replyCode, replyText, f.messageID⟩] }).log
          (.returned key))
    else none

/-- The dispatcher takes a return. -/
def takeReturn (s : State) (g : ℕ) : Option State :=
  match s.threads (.dispatcher g), (s.channels g).returns with
  | .selecting, ret :: rest =>
    some ((s.setChannel g { s.channels g with returns := rest }).goto (.dispatcher g)
      (.recording ret .select))
  | _, _ => none

/-- The dispatcher takes a confirmation, and looks for returns first. -/
def takeConfirm (s : State) (g : ℕ) : Option State :=
  match s.threads (.dispatcher g), (s.channels g).confirms with
  | .selecting, confirm :: rest =>
    some ((s.setChannel g { s.channels g with confirms := rest }).goto (.dispatcher g)
      (.draining (.route confirm)))
  | _, _ => none

/-- The channel is closed; the dispatcher takes the returns that are left. -/
def teardown (s : State) (g : ℕ) : Option State :=
  match s.threads (.dispatcher g), (s.channels g).confirms with
  | .selecting, [] => some (s.goto (.dispatcher g) (.draining .exit))
  | _, _ => none

/-- A round of `drainReturns`. -/
def drain (s : State) (g : ℕ) : Option State :=
  match s.threads (.dispatcher g) with
  | .draining next =>
    match (s.channels g).returns with
    | [] => some (s.goto (.dispatcher g) (next.done g))
    | ret :: rest =>
      some ((s.setChannel g { s.channels g with returns := rest }).goto (.dispatcher g)
        (.recording ret next))
  | _ => none

/-- `recordReturn` looks up the entry of a return. -/
def record (s : State) (g : ℕ) : Option State :=
  match s.threads (.dispatcher g) with
  | .recording ret next =>
    match s.pendingMandatory ⟨g, ret.messageID⟩ with
    | none => some (s.goto (.dispatcher g) next.again)
    | some e => some (s.goto (.dispatcher g) (.attaching ret e next))
  | _ => none

/-- `recordReturn` hands the return to the entry. -/
def attach (s : State) (g : ℕ) : Option State :=
  match s.threads (.dispatcher g) with
  | .attaching ret e next =>
    some ((s.setEntry e { s.entries e with returned := some ret }).goto (.dispatcher g) next.again)
  | _ => none

/-- The dispatcher stops with the client. -/
def stop (s : State) (g : ℕ) : Option State :=
  match s.threads (.dispatcher g) with
  | .selecting => if s.closed then some (s.goto (.dispatcher g) .exited) else none
  | _ => none

/-- A reconnect has a new channel in confirm mode: `changeChannel`. -/
def rotate (s : State) : Option State :=
  match s.threads .reconnect with
  | .idle => some (s.goto .reconnect .rotating)
  | _ => none

/-- The reconnect takes the publish slot. -/
def acquireUncond (s : State) : Option State :=
  match s.threads .reconnect with
  | .rotating =>
    if s.publishSerial = none then
      some ({ s with publishSerial := some .reconnect }.goto .reconnect (.sweeping s.generation))
    else none
  | _ => none

/-- The reconnect drains a pending publish with a NACK. -/
def sweep (s : State) (tag : ℕ) : Option State :=
  match s.threads .reconnect with
  | .sweeping g => some (s.goto .reconnect (.untracking ⟨g, tag⟩ .sweep))
  | _ => none

/-- The range is over. Nothing is stored while it runs, and it has come to every key that is still
there. -/
def swept (s : State) : Option State :=
  match s.threads .reconnect with
  | .sweeping g =>
    if (List.range ((s.channels g).published + 2)).all
        fun tag ↦ s.pendingPublishes ⟨g, tag⟩ = none then
      some (s.goto .reconnect .installing)
    else none
  | _ => none

/-- The new generation and its dispatcher, unless `Close` has run. -/
def install (s : State) : Option State :=
  match s.threads .reconnect with
  | .installing =>
    let s := { s with publishSerial := none }.goto .reconnect .idle
    some (if s.closed then s
      else { s with generation := s.generation + 1 }.goto (.dispatcher (s.generation + 1))
        .selecting)
  | _ => none

/-- A step of the client. -/
def step (maxPublishAttempts : ℤ) (s : State) : Label → Option State
  | .begin c mandatory messageID minted => s.begin c mandatory messageID minted
  | .guard c abort => s.guard c abort
  | .acquire c abort => s.acquire c abort
  | .snapshot c => s.snapshot c
  | .index c => s.index c
  | .store c => s.store c
  | .send c r => s.send c r
  | .receive c => s.receive c
  | .giveUp c timeout => s.giveUp c timeout
  | .retry c abort => s.retry maxPublishAttempts c abort
  | .untrack th => s.untrack th
  | .unindex th => s.unindex th
  | .answer th => s.answer th
  | .brokerConfirm key ack => s.brokerConfirm key ack
  | .brokerReturn key replyCode replyText => s.brokerReturn key replyCode replyText
  | .takeReturn g => s.takeReturn g
  | .takeConfirm g => s.takeConfirm g
  | .teardown g => s.teardown g
  | .drain g => s.drain g
  | .record g => s.record g
  | .attach g => s.attach g
  | .stop g => s.stop g
  | .rotate => s.rotate
  | .acquireUncond => s.acquireUncond
  | .sweep tag => s.sweep tag
  | .swept => s.swept
  | .install => s.install
  | .ready isReady => some { s with isReady := isReady && !s.closed && 0 < s.generation }
  | .close => some { s with closed := true, isReady := false }

end State

/-- A client from its creation on. -/
def system (maxPublishAttempts : ℤ) : StepSystem State Label where
  init s := s = {}
  step := State.step maxPublishAttempts

end Amqp
