import GoBricks.Amqp.Publish

/-!
# What one step of the AMQP client can do

The steps by what they change (`Act`). Many move one thread and touch nothing else (`Moves`).
-/

namespace Amqp

/-- How a thread moves when nothing else changes. -/
inductive Moves (s : State) : Thread → Pc → Pc → Prop
  | guardAbort {c : ℕ} : Moves s (.call c) .guarding (.ended (.failed (s.calls c).lastCause))
  | acquireAbort {c : ℕ} : Moves s (.call c) .acquiring (.ended (.failed (s.calls c).lastCause))
  | timeout {c : ℕ} {key : ConfirmKey} {e : ℕ} :
    Moves s (.call c) (.waiting key e) (.untracking key (.retry e .confirmTimeout))
  | cancel {c : ℕ} {key : ConfirmKey} {e : ℕ} :
    Moves s (.call c) (.waiting key e) (.untracking key (.abort e))
  | missing {th : Thread} {key : ConfirmKey} {by' : Untracker}
    (hnone : s.pendingPublishes key = none) :
    Moves s th (.untracking key by') (s.resume th key by')
  | teardown {g : ℕ} : Moves s (.dispatcher g) .selecting (.draining .exit)
  | drained {g : ℕ} {next : Drained} (hempty : (s.channels g).returns = []) :
    Moves s (.dispatcher g) (.draining next) (next.done g)
  | unmatched {g : ℕ} {ret : PublishReturn} {next : Drained}
    (hnone : s.pendingMandatory ⟨g, ret.messageID⟩ = none) :
    Moves s (.dispatcher g) (.recording ret next) next.again
  | matched {g e : ℕ} {ret : PublishReturn} {next : Drained}
    (hsome : s.pendingMandatory ⟨g, ret.messageID⟩ = some e) :
    Moves s (.dispatcher g) (.recording ret next) (.attaching ret e next)
  | stop {g : ℕ} : Moves s (.dispatcher g) .selecting .exited
  | rotate : Moves s .reconnect .idle .rotating
  | sweep {g tag : ℕ} : Moves s .reconnect (.sweeping g) (.untracking ⟨g, tag⟩ .sweep)
  | swept {g : ℕ} : Moves s .reconnect (.sweeping g) .installing

/-- Where `untrackPending` leaves its caller, once the entry is out of the index. -/
def State.untracked (s : State) (th : Thread) (key : ConfirmKey) (e : ℕ) (by' : Untracker) : Pc :=
  match by' with
  | .route _ | .sweep => .answering key e by'
  | _ => s.resume th key by'

/-- The key a confirmation answers for. -/
def Untracker.source (key : ConfirmKey) : Untracker → Option ConfirmKey
  | .route _ => some key
  | _ => none

/-- What a step does. -/
inductive Act (maxPublishAttempts : ℤ) (s : State) : Label → State → Prop
  | begin {c : ℕ} {mandatory : Bool} {messageID minted id : String}
    (hpc : s.threads (.call c) = .idle)
    (hid : id = if messageID = "" then minted else messageID) (hne : id ≠ "") :
    Act maxPublishAttempts s (.begin c mandatory messageID minted)
      ((s.setCall c { mandatory := mandatory, messageID := id }).goto (.call c) .guarding)
  | move {l : Label} {th : Thread} {pc pc' : Pc} (hpc : s.threads th = pc)
    (h : Moves s th pc pc') : Act maxPublishAttempts s l (s.goto th pc')
  | attempt {c : ℕ} (hpc : s.threads (.call c) = .guarding) :
    Act maxPublishAttempts s (.guard c false)
      ((s.setCall c { s.calls c with attempts := (s.calls c).attempts + 1 }).goto (.call c)
        .acquiring)
  | acquire {c : ℕ} (hpc : s.threads (.call c) = .acquiring) (hfree : s.publishSerial = none) :
    Act maxPublishAttempts s (.acquire c false)
      ({ s with publishSerial := some (.call c) }.goto (.call c) .snapshotting)
  | notReady {c : ℕ} (hpc : s.threads (.call c) = .snapshotting) :
    Act maxPublishAttempts s (.snapshot c)
      ({ s with publishSerial := none }.goto (.call c) (.ended .notConnected))
  | snapshot {c : ℕ} {key : ConfirmKey} {p : Pending}
    (hpc : s.threads (.call c) = .snapshotting)
    (hkey : key = ⟨s.generation, (s.channels s.generation).published + 1⟩)
    (hp : p = { messageID := if (s.calls c).mandatory then (s.calls c).messageID else "",
                call := c, key := key }) :
    Act maxPublishAttempts s (.snapshot c)
      (({ s with nextEntry := s.nextEntry + 1 }.setEntry s.nextEntry p).goto (.call c)
        (.indexing key s.nextEntry))
  | index {c e : ℕ} {key : ConfirmKey} {pendingMandatory : MandatoryKey → Option ℕ}
    (hpc : s.threads (.call c) = .indexing key e)
    (hindex : pendingMandatory = if (s.entries e).messageID ≠ "" then
      Function.update s.pendingMandatory ⟨key.generation, (s.entries e).messageID⟩ (some e)
      else s.pendingMandatory) :
    Act maxPublishAttempts s (.index c)
      ({ s with pendingMandatory := pendingMandatory }.goto (.call c) (.storing key e))
  | store {c e : ℕ} {key : ConfirmKey} (hpc : s.threads (.call c) = .storing key e) :
    Act maxPublishAttempts s (.store c)
      ({ s with pendingPublishes := Function.update s.pendingPublishes key (some e) }.goto
        (.call c) (.sending key e))
  | send {c e : ℕ} {key : ConfirmKey} {r : Sent} {f : Frame} {pc' : Pc}
    (hpc : s.threads (.call c) = .sending key e)
    (hf : f = { call := c, entry := e, mandatory := (s.calls c).mandatory,
                messageID := (s.calls c).messageID })
    (hpc' : pc' = .waiting key e ∨ pc' = .untracking key (.retry e .publishError)) :
    Act maxPublishAttempts s (.send c r)
      ({ s.setChannel key.generation ((s.channels key.generation).publish f r) with
        publishSerial := none }.goto (.call c) pc')
  | succeed {c e : ℕ} {key : ConfirmKey} {a : PublishConfirm}
    (hpc : s.threads (.call c) = .waiting key e) (ha : (s.entries e).confirm = some a)
    (hack : a.ack = true) (hreturned : a.returned = none) :
    Act maxPublishAttempts s (.receive c)
      (((s.setEntry e { s.entries e with confirm := none }).log (.succeeded c key)).goto (.call c)
        (.ended (.ok key)))
  | unroutable {c e : ℕ} {key : ConfirmKey} {a : PublishConfirm}
    (hpc : s.threads (.call c) = .waiting key e) (ha : (s.entries e).confirm = some a)
    (hreturned : a.returned ≠ none) :
    Act maxPublishAttempts s (.receive c)
      (((s.setEntry e { s.entries e with confirm := none }).log (.unroutable c)).goto (.call c)
        (.retrying .unroutable))
  | nacked {c e : ℕ} {key : ConfirmKey} {a : PublishConfirm}
    (hpc : s.threads (.call c) = .waiting key e) (ha : (s.entries e).confirm = some a) :
    Act maxPublishAttempts s (.receive c)
      ((s.setEntry e { s.entries e with confirm := none }).goto (.call c) (.retrying .nacked))
  | retry {c : ℕ} {cause : Cause} {call : Call} {abort : Bool} {pc' : Pc}
    (hpc : s.threads (.call c) = .retrying cause)
    (hcall : call = { s.calls c with
      retryCount := (s.calls c).retryCount + 1
      lastCause := some cause })
    (hpc' : pc' = .ended (.failed (some cause)) ∨ pc' = .guarding ∧
      (0 < maxPublishAttempts → (call.retryCount : ℤ) < maxPublishAttempts)) :
    Act maxPublishAttempts s (.retry c abort) ((s.setCall c call).goto (.call c) pc')
  | take {th : Thread} {key : ConfirmKey} {e : ℕ} {by' : Untracker}
    (hpc : s.threads th = .untracking key by') (he : s.pendingPublishes key = some e) :
    Act maxPublishAttempts s (.untrack th)
      ({ s.setEntry e { s.entries e with taker := some th } with
        pendingPublishes := Function.update s.pendingPublishes key none }.goto th
          (.unindexing key e by'))
  | unindex {th : Thread} {key : ConfirmKey} {e : ℕ} {by' : Untracker}
    {pendingMandatory : MandatoryKey → Option ℕ} (hpc : s.threads th = .unindexing key e by')
    (hindex : pendingMandatory =
      if (s.entries e).messageID ≠ "" ∧
        s.pendingMandatory ⟨key.generation, (s.entries e).messageID⟩ = some e then
      Function.update s.pendingMandatory ⟨key.generation, (s.entries e).messageID⟩ none
      else s.pendingMandatory) :
    Act maxPublishAttempts s (.unindex th)
      ({ s with pendingMandatory := pendingMandatory }.goto th (s.untracked th key e by'))
  | answer {th : Thread} {key : ConfirmKey} {e : ℕ} {by' : Untracker} {p : Pending}
    (hpc : s.threads th = .answering key e by')
    (hp : p = { s.entries e with
      confirm := some ((s.entries e).confirm.getD (by'.answer key (s.entries e).returned)) }) :
    Act maxPublishAttempts s (.answer th)
      (((s.setEntry e p).log (.answered e (by'.source key))).goto th (s.resume th key by'))
  | brokerConfirm {key : ConfirmKey} {ack : Bool} {f : Frame} {ch : Channel}
    (hf : (s.channels key.generation).frames key.tag = some f)
    (hch : ch = { s.channels key.generation with
      confirms := (s.channels key.generation).confirms ++ [⟨key.tag, ack⟩] }) :
    Act maxPublishAttempts s (.brokerConfirm key ack)
      ((s.setChannel key.generation ch).log (.confirmed key ack))
  | brokerReturn {key : ConfirmKey} {replyCode : ℕ} {replyText : String} {f : Frame}
    {ch : Channel} (hf : (s.channels key.generation).frames key.tag = some f)
    (hmandatory : f.mandatory = true)
    (hch : ch = { s.channels key.generation with
      returns := (s.channels key.generation).returns ++ [⟨replyCode, replyText, f.messageID⟩] }) :
    Act maxPublishAttempts s (.brokerReturn key replyCode replyText)
      ((s.setChannel key.generation ch).log (.returned key))
  | takeReturn {l : Label} {g : ℕ} {next : Drained} {ret : PublishReturn}
    {rest : List PublishReturn}
    (hpc : s.threads (.dispatcher g) = .selecting ∧ next = .select ∨
      s.threads (.dispatcher g) = .draining next)
    (hreturns : (s.channels g).returns = ret :: rest) :
    Act maxPublishAttempts s l
      ((s.setChannel g { s.channels g with returns := rest }).goto (.dispatcher g)
        (.recording ret next))
  | takeConfirm {g : ℕ} {confirm : Confirmation} {rest : List Confirmation}
    (hpc : s.threads (.dispatcher g) = .selecting)
    (hconfirms : (s.channels g).confirms = confirm :: rest) :
    Act maxPublishAttempts s (.takeConfirm g)
      ((s.setChannel g { s.channels g with confirms := rest }).goto (.dispatcher g)
        (.draining (.route confirm)))
  | attach {g e : ℕ} {ret : PublishReturn} {next : Drained}
    (hpc : s.threads (.dispatcher g) = .attaching ret e next) :
    Act maxPublishAttempts s (.attach g)
      ((s.setEntry e { s.entries e with returned := some ret }).goto (.dispatcher g) next.again)
  | acquireUncond (hpc : s.threads .reconnect = .rotating) (hfree : s.publishSerial = none) :
    Act maxPublishAttempts s .acquireUncond
      ({ s with publishSerial := some .reconnect }.goto .reconnect (.sweeping s.generation))
  | discard (hpc : s.threads .reconnect = .installing) :
    Act maxPublishAttempts s .install ({ s with publishSerial := none }.goto .reconnect .idle)
  | install (hpc : s.threads .reconnect = .installing) :
    Act maxPublishAttempts s .install
      (({ s with publishSerial := none, generation := s.generation + 1 }.goto .reconnect
        .idle).goto (.dispatcher (s.generation + 1)) .selecting)
  | environment {l : Label} {isReady closed : Bool} :
    Act maxPublishAttempts s l { s with isReady := isReady, closed := closed }

variable {maxPublishAttempts : ℤ} {s t : State} {l : Label} {c g : ℕ} {th : Thread}

/-- Only the thread that moves is elsewhere. -/
theorem threads_goto (s : State) (th : Thread) (pc : Pc) (th' : Thread) :
    (s.goto th pc).threads th' = s.threads th' ∨
      th' = th ∧ (s.goto th pc).threads th' = pc := by
  change Function.update s.threads th pc th' = _ ∨ _ ∧ Function.update s.threads th pc th' = _
  by_cases h : th' = th
  · exact .inr ⟨h, by rw [h, Function.update_self]⟩
  · exact .inl (Function.update_of_ne h _ _)

@[grind =]
theorem entries_setEntry (s : State) (e : ℕ) (p : Pending) (e' : ℕ) :
    (s.setEntry e p).entries e' = if e' = e then p else s.entries e' :=
  Function.update_apply ..

@[grind =]
theorem calls_setCall (s : State) (c : ℕ) (call : Call) (c' : ℕ) :
    (s.setCall c call).calls c' = if c' = c then call else s.calls c' :=
  Function.update_apply ..

@[grind =]
theorem channels_setChannel (s : State) (g : ℕ) (ch : Channel) (g' : ℕ) :
    (s.setChannel g ch).channels g' = if g' = g then ch else s.channels g' :=
  Function.update_apply ..

@[grind =]
theorem channels_log (s : State) (ev : Event) (g : ℕ) : (s.log ev).channels g = s.channels g :=
  rfl

/-- A publish returns nothing by itself. -/
@[grind =]
theorem returns_publish (ch : Channel) (f : Frame) (r : Sent) :
    (ch.publish f r).returns = ch.returns := by
  rcases r with _ | _ | _ <;> rfl

/-- The start of a call is one of the listed effects. -/
theorem act_of_begin {mandatory : Bool} {messageID minted : String}
    (h : s.begin c mandatory messageID minted = some t) :
    Act maxPublishAttempts s (.begin c mandatory messageID minted) t := by
  rw [State.begin] at h
  split at h
  · next hpc =>
    split at h
    · contradiction
    · next hminted =>
      cases h
      refine .begin hpc rfl ?_
      split
      · exact hminted
      · next hid => exact hid
  · contradiction

theorem act_of_guard {abort : Bool} (h : s.guard c abort = some t) :
    Act maxPublishAttempts s (.guard c abort) t := by
  rw [State.guard] at h
  split at h
  · next hpc =>
    cases abort <;> cases h
    · exact .attempt hpc
    · exact .move hpc .guardAbort
  · contradiction

theorem act_of_acquire {abort : Bool} (h : s.acquire c abort = some t) :
    Act maxPublishAttempts s (.acquire c abort) t := by
  rw [State.acquire] at h
  split at h
  · next hpc =>
    cases abort
    · split at h
      · contradiction
      · split at h
        · next hfree =>
          cases h
          exact .acquire hpc hfree
        · contradiction
    · cases h
      exact .move hpc .acquireAbort
  · contradiction

theorem act_of_snapshot (h : s.snapshot c = some t) :
    Act maxPublishAttempts s (.snapshot c) t := by
  rw [State.snapshot] at h
  split at h
  · next hpc =>
    split at h <;> cases h
    · exact .notReady hpc
    · exact .snapshot hpc rfl rfl
  · contradiction

theorem act_of_index (h : s.index c = some t) : Act maxPublishAttempts s (.index c) t := by
  rw [State.index] at h
  split at h
  · next key e hpc =>
    cases h
    convert Act.index hpc rfl using 2
    split <;> rfl
  · contradiction

/-- So is the send, whatever it returns. -/
theorem act_of_send {r : Sent} (h : s.send c r = some t) :
    Act maxPublishAttempts s (.send c r) t := by
  rw [State.send] at h
  split at h
  · next key e hpc =>
    cases h
    refine .send hpc rfl ?_
    cases r with
    | ok => exact .inl rfl
    | failed drew => exact .inr rfl
  · contradiction

theorem act_of_receive (h : s.receive c = some t) : Act maxPublishAttempts s (.receive c) t := by
  rw [State.receive] at h
  split at h
  · next key e hpc =>
    split at h
    · contradiction
    · next a ha =>
      cases h
      split
      · next hack =>
        split
        · next hreturned => exact .succeed hpc ha hack hreturned
        · next hreturned => exact .unroutable hpc ha hreturned
      · exact .nacked hpc ha
  · contradiction

/-- So is the look at the attempts that are left. -/
theorem act_of_retry {abort : Bool} (h : s.retry maxPublishAttempts c abort = some t) :
    Act maxPublishAttempts s (.retry c abort) t := by
  rw [State.retry] at h
  split at h
  · next cause hpc =>
    cases h
    split
    · exact .retry hpc rfl (.inl rfl)
    · next hnot =>
      refine .retry hpc rfl (.inr ⟨rfl, fun hpos ↦ ?_⟩)
      exact Int.lt_of_not_ge fun hle ↦ hnot (.inl ⟨hpos, hle⟩)
  · contradiction

theorem act_of_unindex (h : s.unindex th = some t) :
    Act maxPublishAttempts s (.unindex th) t := by
  rw [State.unindex] at h
  split at h
  · next key e by' hpc =>
    cases h
    convert Act.unindex hpc rfl using 2
    · split <;> rfl
    · cases by' <;> dsimp only [State.untracked] <;> split <;> rfl
  · contradiction

theorem act_of_answer (h : s.answer th = some t) : Act maxPublishAttempts s (.answer th) t := by
  rw [State.answer] at h
  split at h
  · next key e by' hpc =>
    cases h
    exact .answer hpc rfl
  · contradiction

/-- **Inversion.** Everything a step can do. -/
theorem act_of_step (h : (system maxPublishAttempts).step s l = some t) :
    Act maxPublishAttempts s l t := by
  cases l with
  | begin c mandatory messageID minted => exact act_of_begin h
  | guard c abort => exact act_of_guard h
  | acquire c abort => exact act_of_acquire h
  | snapshot c => exact act_of_snapshot h
  | index c => exact act_of_index h
  | send c r => exact act_of_send h
  | receive c => exact act_of_receive h
  | retry c abort => exact act_of_retry h
  | unindex th => exact act_of_unindex h
  | answer th => exact act_of_answer h
  | giveUp | untrack | teardown | drain | record | stop | rotate | sweep | swept | takeReturn =>
    -- one thread moves, in some cases with an entry or with a return it takes
    simp only [system, State.step, State.giveUp, State.untrack, State.teardown, State.drain,
      State.record, State.stop, State.rotate, State.sweep, State.swept, State.takeReturn] at h
    repeat' split at h
    all_goals cases h
    all_goals first
      | exact .move ‹_› (by constructor <;> assumption)
      | exact .take ‹_› ‹_›
      | exact .takeReturn (.inr ‹_›) ‹_›
      | exact .takeReturn (.inl ⟨‹_›, rfl⟩) ‹_›
  | store | brokerConfirm | brokerReturn | takeConfirm | attach | acquireUncond | install =>
    simp only [system, State.step, State.store, State.brokerConfirm, State.brokerReturn,
      State.takeConfirm, State.attach, State.acquireUncond, State.install] at h
    repeat' split at h
    all_goals cases h
    all_goals constructor
    all_goals first | assumption | rfl
  | ready isReady | close =>
    cases h
    exact .environment

end Amqp
