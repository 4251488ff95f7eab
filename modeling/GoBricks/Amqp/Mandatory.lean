import GoBricks.Amqp.Index

/-!
# Returned Mandatory publishes

The broker returns an unroutable Mandatory message and then ACKs it. The dispatcher records every
return that is buffered before it routes a confirmation, so that the ACK carries the return; the
return is on its way to the entry as long as the entry is stored (`Heard.onWay`), and it has arrived
when a dispatcher takes the entry out for its confirmation (`Heeded`).

* `returned_never_succeeds`: where no two Mandatory publishes in flight carry one message id, an
  attempt whose frame was returned does not make its call return nil; and a call is classified as
  unroutable only if a frame with its message id was returned, which is a frame of its own if no
  other Mandatory call carries that id.
* `equal_ids_swap_outcomes`: with equal ids the earlier publish reports success although its message
  was returned, and the later one is classified as unroutable although its message was not.
-/

namespace Amqp

open List Function Option

variable {maxPublishAttempts : ℤ} {s t u : State} {l : Label} {th : Thread} {pc pc' : Pc}

/-- The broker returns a message before it confirms it. -/
def ReturnsFirst (s : State) : Label → Prop
  | .brokerReturn key _ _ => ∀ ack, .confirmed key ack ∉ s.history
  | _ => True

/-- The dispatcher has a return for the entry in its hands. -/
def Pc.Carrying (id : String) (e : ℕ) : Pc → Prop
  | .recording ret _ => ret.messageID = id
  | .attaching _ e' _ => e' = e
  | _ => False

/-- A return has reached the entry, or is on its way to it. -/
def OnWay (s : State) (g e : ℕ) : Prop :=
  (s.entries e).returned ≠ none ∨
  (∃ ret ∈ (s.channels g).returns, ret.messageID = (s.entries e).messageID) ∨
  (s.threads (.dispatcher g)).Carrying (s.entries e).messageID e

/-- Whoever routes the confirmation of a frame that was returned finds the return on the entry. -/
def Heeded (s : State) : Pc → Prop
  | .untracking key (.route _) => .returned key ∈ s.history →
    ∀ e, s.pendingPublishes key = some e → (s.entries e).returned ≠ none
  | .unindexing key e (.route _) | .answering key e (.route _) =>
    .returned key ∈ s.history → (s.entries e).returned ≠ none
  | _ => True

/-- An ACK without a return does not answer for a frame that was returned. -/
def Truthful (s : State) (key : ConfirmKey) (a : PublishConfirm) : Prop :=
  a.ack = true → a.returned = none → .returned key ∉ s.history

/-- A return comes to the entry of its frame before the frame's confirmation does. -/
structure Heard (s : State) : Prop where
  known : ∀ key, .returned key ∈ s.history → ∃ f, s.frame key = some f ∧ f.mandatory = true
  onWay : ∀ key e, .returned key ∈ s.history → s.pendingPublishes key = some e →
    OnWay s key.generation e
  heeded : ∀ th, Heeded s (s.threads th)
  answers : ∀ e a, (s.entries e).confirm = some a → Truthful s (s.entries e).key a
  events : ∀ c key, .succeeded c key ∈ s.history → .returned key ∉ s.history

/-! ### What keeps it -/

/-- Nothing that returns depend on is undone, and no frame is returned. -/
structure KeepsReturns (s t : State) : Prop where
  frame : ∀ key f, s.frame key = some f → t.frame key = some f
  returned : ∀ key, .returned key ∈ t.history → .returned key ∈ s.history
  succeeded : ∀ c key, .succeeded c key ∈ t.history → .succeeded c key ∈ s.history ∨
    .returned key ∉ s.history
  pending : ∀ key e, .returned key ∈ s.history → t.pendingPublishes key = some e →
    s.pendingPublishes key = some e
  attached : ∀ e < s.nextEntry, (s.entries e).returned ≠ none → (t.entries e).returned ≠ none
  entryID : ∀ e < s.nextEntry, (t.entries e).messageID = (s.entries e).messageID
  confirm : ∀ e a, (t.entries e).confirm = some a → (t.entries e).key = (s.entries e).key ∧
    ((s.entries e).confirm = some a ∨ Truthful s (s.entries e).key a)

variable {e : ℕ}

/-- A thread that took an entry out works on an entry that was made. -/
theorem Tracked.taken_lt (hs : Tracked s) (h : (s.threads th).taken = some e) :
    e < s.nextEntry := by
  refine lt_of_not_ge fun hle ↦ ?_
  have htaker := (hs.taken th e h).1
  rw [hs.fresh e hle] at htaker
  contradiction

/-- What a thread heeds, it goes on heeding. -/
theorem KeepsReturns.heeded (hk : KeepsReturns s t) (htracked : Tracked s)
    (hpc : Heeded s (s.threads th)) : Heeded t (s.threads th) := by
  cases hth : s.threads th with
  | untracking key by' =>
    cases by' with
    | route confirm =>
      rw [hth] at hpc
      intro hret e he
      have hpending := hk.pending key e (hk.returned key hret) he
      exact hk.attached e (htracked.registered (.inl hpending)).2.2 (hpc (hk.returned key hret) e
        hpending)
    | _ => trivial
  | unindexing key e by' | answering key e by' =>
    cases by' with
    | route confirm =>
      rw [hth] at hpc
      exact fun hret ↦ hk.attached e (@Tracked.taken_lt s th e htracked (by rw [hth]; rfl))
        (hpc (hk.returned key hret))
    | _ => trivial
  | _ => trivial

/-- No frame is returned; returns go on their way. -/
theorem Heard.keep (hs : Heard s) (htracked : Tracked s) (hk : KeepsReturns s t)
    (honWay : ∀ key e, .returned key ∈ s.history → s.pendingPublishes key = some e →
      OnWay s key.generation e → OnWay t key.generation e)
    (hheeded : ∀ th, t.threads th = s.threads th ∨ Heeded t (t.threads th)) : Heard t where
  known key hret := (hs.known key (hk.returned key hret)).imp fun f ↦ And.imp_left (hk.frame key f)
  onWay key e hret he := by
    have hpending := hk.pending key e (hk.returned key hret) he
    exact honWay key e (hk.returned key hret) hpending
      (hs.onWay key e (hk.returned key hret) hpending)
  heeded th := by
    rcases hheeded th with heq | hnew
    · rw [heq]
      exact hk.heeded htracked (hs.heeded th)
    · exact hnew
  answers e a ha hack hnone hret := by
    obtain ⟨hkey, hold | hnew⟩ := hk.confirm e a ha
    · exact hs.answers e a hold hack hnone (hkey ▸ hk.returned _ hret)
    · exact hnew hack hnone (hkey ▸ hk.returned _ hret)
  events c key hev hret := by
    rcases hk.succeeded c key hev with hold | hnew
    · exact hs.events c key hold (hk.returned key hret)
    · exact hnew (hk.returned key hret)

/-- A thread moves that is not the dispatcher of a return; or it is, and takes the return on. -/
theorem Heard.same_goto (hs : Heard s) (htracked : Tracked s) (hk : KeepsReturns s u)
    (hthreads : u.threads = s.threads)
    (honWay : ∀ key e, .returned key ∈ s.history → s.pendingPublishes key = some e →
      OnWay s key.generation e → OnWay (u.goto th pc') key.generation e)
    (hheeded : Heeded u pc') : Heard (u.goto th pc') := by
  have hothers := threads_goto u th pc'
  rw [hthreads] at hothers
  refine hs.keep htracked ⟨hk.frame, hk.returned, hk.succeeded, hk.pending, hk.attached, hk.entryID,
    hk.confirm⟩ honWay fun th' ↦ ?_
  rcases hothers th' with heq | ⟨-, heq⟩
  · exact .inl heq
  · right
    rw [heq]
    exact hheeded

variable {key : ConfirmKey}

/-- The returns in the buffers and in the dispatchers' hands stay where they are. -/
theorem onWay_of_same (htracked : Tracked s) (hk : KeepsReturns s u)
    (hreturns : ∀ g, (s.channels g).returns ⊆ (u.channels g).returns)
    (hcarrying : ∀ g id e, (s.threads (.dispatcher g)).Carrying id e →
      (u.threads (.dispatcher g)).Carrying id e) (he : s.pendingPublishes key = some e)
    (h : OnWay s key.generation e) : OnWay u key.generation e := by
  have hlt := (htracked.registered (.inl he)).2.2
  rcases h with h | ⟨ret, hmem, hid⟩ | h
  · exact .inl (hk.attached e hlt h)
  · exact .inr (.inl ⟨ret, hreturns _ hmem, by rw [hk.entryID e hlt, hid]⟩)
  · exact .inr (.inr (hk.entryID e hlt ▸ hcarrying _ _ _ h))

/-- A thread moves that has no return in its hands. -/
theorem Heard.quiet_goto (hs : Heard s) (htracked : Tracked s) (hk : KeepsReturns s u)
    (hthreads : u.threads = s.threads)
    (hreturns : ∀ g, (s.channels g).returns ⊆ (u.channels g).returns)
    (hhands : ∀ g, th = .dispatcher g → ∀ id e, ¬(s.threads th).Carrying id e)
    (hheeded : Heeded u pc') : Heard (u.goto th pc') := by
  refine hs.same_goto htracked hk hthreads
    (fun key e _ he h ↦ onWay_of_same (u := u.goto th pc') htracked ?_ hreturns (fun g id e h ↦ ?_)
      he h) hheeded
  · exact ⟨hk.frame, hk.returned, hk.succeeded, hk.pending, hk.attached, hk.entryID, hk.confirm⟩
  · rcases threads_goto u th pc' (.dispatcher g) with heq | ⟨hth, -⟩
    · rw [heq, hthreads]
      exact h
    · exact absurd (hth ▸ h) (hhands g hth.symm id e)

/-! ### What leaves returns alone -/

/-- A step that touches neither frames nor entries keeps the returns. -/
theorem keepsReturns (hchannels : ∀ key, u.frame key = s.frame key)
    (hhistory : u.history = s.history) (hpending : u.pendingPublishes = s.pendingPublishes)
    (hentries : u.entries = s.entries) : KeepsReturns s u where
  frame key f hf := (hchannels key).trans hf
  returned key h := hhistory ▸ h
  succeeded c key h := .inl (hhistory ▸ h)
  pending key e _ h := hpending ▸ h
  attached e _ h := by rwa [hentries]
  entryID e _ := by rw [hentries]
  confirm e a h := by
    rw [hentries] at h ⊢
    exact ⟨rfl, .inl h⟩

/-- So does one that attaches to an entry. -/
theorem keepsReturns_setEntry {p : Pending} (hid : p.messageID = (s.entries e).messageID)
    (hkey : p.key = (s.entries e).key)
    (hattached : (s.entries e).returned ≠ none → p.returned ≠ none)
    (hconfirm : ∀ a, p.confirm = some a → (s.entries e).confirm = some a ∨
      Truthful s (s.entries e).key a) :
    KeepsReturns s (s.setEntry e p) where
  frame _ _ h := h
  returned _ h := h
  succeeded _ _ h := .inl h
  pending _ _ _ h := h
  attached _ _ := by grind
  entryID _ _ := by grind
  confirm _ _ := by grind

/-- So does an event that is no return. -/
theorem KeepsReturns.log {ev : Event} (hk : KeepsReturns s u) (hret : ∀ key, ev ≠ .returned key)
    (hsucc : ∀ c key, ev = .succeeded c key → .returned key ∉ s.history) :
    KeepsReturns s (u.log ev) where
  frame := hk.frame
  returned key h := by
    rcases mem_cons.1 h with heq | hold
    · exact absurd heq.symm (hret key)
    · exact hk.returned key hold
  succeeded c key h := by
    rcases mem_cons.1 h with heq | hold
    · exact .inr (hsucc c key heq.symm)
    · exact hk.succeeded c key hold
  pending := hk.pending
  attached := hk.attached
  entryID := hk.entryID
  confirm := hk.confirm

theorem keepsReturns_snapshot {p : Pending} (hconfirm : p.confirm = none) :
    KeepsReturns s ({ s with nextEntry := s.nextEntry + 1 }.setEntry s.nextEntry p) where
  frame _ _ h := h
  returned _ h := h
  succeeded _ _ h := .inl h
  pending _ _ _ h := h
  attached _ _ := by grind
  entryID _ _ := by grind
  confirm _ _ := by grind

/-! ### Steps -/

/-- The entry of a Mandatory frame is indexed by the frame's message id. -/
theorem Origins.entryID_eq {f : Frame} (hs : Origins s) (hframed : Framed s)
    (hf : s.frame key = some f) (hmandatory : f.mandatory = true) :
    (s.entries f.entry).messageID = f.messageID := by
  obtain ⟨-, hlt, -, hcall⟩ := hframed.frames key f hf
  obtain ⟨-, hm, hid⟩ := hs.frame key f hf
  rw [(hs.entry f.entry hlt).2, hcall, Call.indexID, if_pos (hm ▸ hmandatory), hid]

variable {g : ℕ} {next : Drained} {ret : PublishReturn}

namespace Heard

/-- The index finds the entry of a frame that was returned. -/
theorem returned_indexed (hs : Heard s) (hframed : Framed s) (horigins : Origins s)
    (hindexed : Indexed s) (hret : .returned key ∈ s.history)
    (he : s.pendingPublishes key = some e) :
    s.pendingMandatory ⟨key.generation, (s.entries e).messageID⟩ = some e := by
  obtain ⟨f, hf, hmandatory⟩ := hs.known key hret
  obtain rfl := hframed.pending key e f he hf
  obtain ⟨hbegun, -, hid⟩ := horigins.frame key f hf
  refine hindexed.index key f.entry (.inl he) ?_
  rw [horigins.entryID_eq hframed hf hmandatory, hid]
  exact horigins.call _ hbegun

/-- The broker returns a frame it has not confirmed. -/
theorem brokerReturn {replyCode : ℕ} {replyText : String} {f : Frame} {ch : Channel}
    (hs : Heard s) (hframed : Framed s) (horigins : Origins s) (hf : s.frame key = some f)
    (hmandatory : f.mandatory = true) (hfirst : ∀ ack, .confirmed key ack ∉ s.history)
    (hch : ch = { s.channels key.generation with
      returns := (s.channels key.generation).returns ++ [⟨replyCode, replyText, f.messageID⟩] }) :
    Heard ((s.setChannel key.generation ch).log (.returned key)) := by
  set t := (s.setChannel key.generation ch).log (.returned key)
  have hframe (key' : ConfirmKey) : t.frame key' = s.frame key' :=
    frame_setChannel (by rw [hch]) key'
  have hself : (t.channels key.generation).returns =
      (s.channels key.generation).returns ++ [⟨replyCode, replyText, f.messageID⟩] := by
    rw [show t.channels key.generation = ch from update_self .., hch]
  have hreturns (g : ℕ) : (s.channels g).returns ⊆ (t.channels g).returns := by grind
  -- A frame that is confirmed was returned before, if at all.
  have hold {key' : ConfirmKey} {ack : Bool} (hconfirmed : Confirmed s key' ack)
      (hret : .returned key' ∈ t.history) : .returned key' ∈ s.history := by
    rcases mem_cons.1 hret with heq | h
    · cases heq
      exact absurd hconfirmed.2 (hfirst ack)
    · exact h
  refine ⟨fun key' hret ↦ ?_, fun key' e hret he ↦ ?_, fun th ↦ ?_,
    fun e a ha hack hnone hret ↦ ?_, fun c key' hev hret ↦ ?_⟩
  · rcases mem_cons.1 hret with heq | h
    · obtain rfl := Event.returned.inj heq
      exact ⟨f, (hframe key').trans hf, hmandatory⟩
    · rw [hframe]
      exact hs.known key' h
  · rcases mem_cons.1 hret with heq | h
    · obtain rfl := Event.returned.inj heq
      obtain rfl := hframed.pending key' e f he hf
      refine .inr (.inl ⟨⟨replyCode, replyText, f.messageID⟩, ?_, ?_⟩)
      · rw [hself]
        exact mem_append_right _ (mem_singleton_self _)
      · exact (horigins.entryID_eq hframed hf hmandatory).symm
    · rcases hs.onWay key' e h he with h | ⟨ret, hmem, hid⟩ | h
      · exact .inl h
      · exact .inr (.inl ⟨ret, hreturns _ hmem, hid⟩)
      · exact .inr (.inr h)
  · have hclaims := hframed.claims th
    have hheeded := hs.heeded th
    change Heeded t (s.threads th)
    cases hth : s.threads th with
    | untracking key' by' =>
      cases by' with
      | route confirm =>
        rw [hth] at hclaims hheeded
        exact fun hret ↦ hheeded (hold hclaims hret)
      | _ => trivial
    | unindexing key' e by' | answering key' e by' =>
      cases by' with
      | route confirm =>
        rw [hth] at hclaims hheeded
        exact fun hret ↦ hheeded (hold hclaims.1 hret)
      | _ => trivial
    | _ => trivial
  · have hconfirmed := ((hframed.answers e a ha).2 hack hnone).1
    exact hs.answers e a ha hack hnone (hold hconfirmed hret)
  · rcases mem_cons.1 hev with heq | hev
    · contradiction
    · exact hs.events c key' hev (hold (hframed.events _ hev).1 hret)

/-- A return that is not in the hands of the dispatcher that moves stays on its way. -/
theorem onWay_goto {g' : ℕ} (hg : g' ≠ g) (h : OnWay s g' e)
    (hchannel : u.channels g' = s.channels g') (hthreads : u.threads = s.threads)
    (hid : (u.entries e).messageID = (s.entries e).messageID)
    (hattached : (s.entries e).returned ≠ none → (u.entries e).returned ≠ none) :
    OnWay (u.goto (.dispatcher g) pc') g' e := by
  refine h.imp hattached (Or.imp (fun h ↦ ?_) fun h ↦ ?_)
  · change ∃ ret ∈ (u.channels g').returns, ret.messageID = (u.entries e).messageID
    rwa [hchannel, hid]
  · have heq : (u.goto (.dispatcher g) pc').threads (.dispatcher g') = u.threads (.dispatcher g') :=
      update_of_ne (fun h ↦ hg (Thread.dispatcher.inj h)) ..
    rw [heq, hthreads]
    change Pc.Carrying (u.entries e).messageID e _
    rwa [hid]

/-- The dispatcher takes a return off the buffer. -/
theorem takeReturn {rest : List PublishReturn} (hs : Heard s) (htracked : Tracked s)
    (hpc : s.threads (.dispatcher g) = .selecting ∧ next = .select ∨
      s.threads (.dispatcher g) = .draining next)
    (hreturns : (s.channels g).returns = ret :: rest) :
    Heard ((s.setChannel g { s.channels g with returns := rest }).goto (.dispatcher g)
      (.recording ret next)) := by
  have hk : KeepsReturns s (s.setChannel g { s.channels g with returns := rest }) :=
    keepsReturns (frame_setChannel rfl) rfl rfl rfl
  refine hs.same_goto htracked hk rfl (fun key e _ he h ↦ ?_) trivial
  by_cases hg : key.generation = g
  · rw [hg] at h ⊢
    set t := (s.setChannel g { s.channels g with returns := rest }).goto (.dispatcher g)
      (.recording ret next)
    have hcarrying : t.threads (.dispatcher g) = .recording ret next := update_self ..
    have hchannel : t.channels g = { s.channels g with returns := rest } :=
      update_self ..
    rcases h with h | ⟨ret', hmem, hid⟩ | h
    · exact .inl h
    · rw [hreturns] at hmem
      rcases mem_cons.1 hmem with rfl | hrest
      · right; right
        rw [hcarrying]
        exact hid
      · right; left
        rw [hchannel]
        exact ⟨ret', hrest, hid⟩
    · rcases hpc with ⟨hpc, -⟩ | hpc <;> rw [hpc] at h <;> exact h.elim
  · exact onWay_goto hg h (update_of_ne hg ..) rfl rfl fun h ↦ h

/-- The dispatcher looks up the entry of a return it has taken, and takes the return on to it; or it
drops the return of a publish that has stopped waiting. -/
theorem recorded (hs : Heard s) (htracked : Tracked s) (hframed : Framed s) (horigins : Origins s)
    (hindexed : Indexed s) (hpc : s.threads (.dispatcher g) = .recording ret next)
    (hfinds : ∀ e, s.pendingMandatory ⟨g, ret.messageID⟩ = some e → pc'.Carrying ret.messageID e)
    (hheeded : Heeded s pc') : Heard (s.goto (.dispatcher g) pc') := by
  refine hs.same_goto htracked (keepsReturns (fun _ ↦ rfl) rfl rfl rfl) rfl
    (fun key e hret he h ↦ ?_) hheeded
  by_cases hg : key.generation = g
  · have hfound := hs.returned_indexed hframed horigins hindexed hret he
    rw [hg] at h hfound ⊢
    refine h.imp_right (Or.imp_right fun h ↦ ?_)
    have hid : ret.messageID = (s.entries e).messageID := by rwa [hpc] at h
    rw [show (s.goto (.dispatcher g) pc').threads (.dispatcher g) = pc' from
      update_self ..]
    exact hid ▸ hfinds e (hid ▸ hfound)
  · exact onWay_goto hg h rfl rfl rfl fun h ↦ h

/-- The return reaches its entry. -/
theorem attach (hs : Heard s) (htracked : Tracked s)
    (hpc : s.threads (.dispatcher g) = .attaching ret e next) :
    Heard ((s.setEntry e { s.entries e with returned := some ret }).goto (.dispatcher g)
      next.again) := by
  have hk : KeepsReturns s (s.setEntry e { s.entries e with returned := some ret }) :=
    keepsReturns_setEntry rfl rfl nofun fun _ h ↦ .inl h
  refine hs.same_goto htracked hk rfl (fun key e' _ he' h ↦ ?_) (by cases next <;> trivial)
  have hlt := (htracked.registered (.inl he')).2.2
  by_cases hg : key.generation = g
  · rw [hg] at h ⊢
    rcases h with h | ⟨ret', hmem, hid⟩ | h
    · exact .inl (hk.attached e' hlt h)
    · exact .inr (.inl ⟨ret', hmem, hid.trans (hk.entryID e' hlt).symm⟩)
    · rw [hpc] at h
      obtain rfl : e = e' := h
      left
      rw [show ((s.setEntry e { s.entries e with returned := some ret }).goto (.dispatcher g)
        next.again).entries e = _ from update_self ..]
      exact nofun
  · exact onWay_goto hg h rfl rfl (hk.entryID e' hlt) (hk.attached e' hlt)

/-- With the buffer empty, a return of the frame that is being confirmed has arrived. -/
theorem drained (hs : Heard s) (hpc : s.threads (.dispatcher g) = .draining next)
    (hempty : (s.channels g).returns = []) : Heeded s (next.done g) := by
  cases next with
  | route confirm =>
    intro hret e he
    rcases hs.onWay _ e hret he with h | ⟨ret, hmem, -⟩ | h
    · exact h
    · rw [hempty] at hmem
      contradiction
    · rw [hpc] at h
      exact h.elim
  | select | exit => trivial

end Heard

/-- What a dispatcher answers does not hide a return; a sweep does not answer with an ACK alone. -/
theorem Heard.truthful_answer {by' : Untracker} (hs : Heard s) (hframed : Framed s)
    (hpc : s.threads th = .answering key e by') :
    Truthful s (s.entries e).key (by'.answer key (s.entries e).returned) := by
  intro hack hnone
  cases by' with
  | route confirm =>
    have hclaims := hframed.claims th
    have hheeded := hs.heeded th
    rw [hpc] at hclaims hheeded
    obtain ⟨f, hf, rfl⟩ := hclaims.2
    rw [(hframed.frames key f hf).2.2.1]
    exact fun hret ↦ hheeded hret hnone
  | _ =>
    change (s.entries e).returned = none at hnone
    rw [hnone] at hack
    contradiction

/-- The new generation's dispatcher starts with nothing in its hands. -/
theorem Heard.install (hs : Heard s) (htracked : Tracked s) (hunstarted : s.Unstarted) :
    Heard ({ s with generation := s.generation + 1 }.goto (.dispatcher (s.generation + 1))
      .selecting) := by
  have hothers := threads_goto { s with generation := s.generation + 1 }
    (.dispatcher (s.generation + 1)) .selecting
  have hk : KeepsReturns s ({ s with generation := s.generation + 1 }.goto
      (.dispatcher (s.generation + 1)) .selecting) :=
    keepsReturns (fun _ ↦ rfl) rfl rfl rfl
  refine hs.keep htracked hk (fun _ _ _ he h ↦ onWay_of_same htracked hk
    (fun _ _ h ↦ h) (fun g id e h ↦ ?_) he h) fun th ↦ ?_
  · rcases hothers (.dispatcher g) with heq | ⟨heq, -⟩
    · rwa [heq]
    · cases heq
      rw [hunstarted _ (Nat.lt_succ_self _)] at h
      exact h.elim
  · rcases hothers th with heq | ⟨-, heq⟩
    · exact .inl heq
    · right
      rw [heq]
      trivial

/-- A move keeps the invariant. -/
theorem Heard.move (hs : Heard s) (htracked : Tracked s) (hframed : Framed s)
    (horigins : Origins s) (hindexed : Indexed s) (hpc : s.threads th = pc)
    (h : Moves s th pc pc') : Heard (s.goto th pc') := by
  have hquiet (hne : ∀ g, th = .dispatcher g → ∀ id e, ¬pc.Carrying id e)
      (hheeded : Heeded s pc') : Heard (s.goto th pc') :=
    hs.quiet_goto htracked (keepsReturns (fun _ ↦ rfl) rfl rfl rfl) rfl (fun _ _ h ↦ h)
      (hpc.symm ▸ hne) hheeded
  cases h with
  | matched hsome =>
    exact hs.recorded htracked hframed horigins hindexed hpc
      (fun _ h ↦ some_inj.1 (hsome.symm.trans h)) trivial
  | @unmatched _ _ next hnone =>
    exact hs.recorded htracked hframed horigins hindexed hpc (fun _ h ↦ nomatch hnone.symm.trans h)
      (by cases next <;> trivial)
  | drained hempty =>
    exact hquiet (fun _ _ _ _ h ↦ h) (hs.drained hpc hempty)
  | @missing _ _ by' hnone =>
    exact hquiet (fun _ _ _ _ h ↦ h) (by cases by' <;> trivial)
  | teardown | stop => exact hquiet (fun _ _ _ _ h ↦ h) trivial
  | _ => exact hquiet nofun trivial

/-- Every step keeps the invariant, if returns come before confirms. -/
theorem Heard.step (hs : Heard s) (htracked : Tracked s) (hslot : Slotted s)
    (hunstarted : s.Unstarted) (hframed : Framed s) (horigins : Origins s) (hindexed : Indexed s)
    (hfirst : ReturnsFirst s l) (h : (system maxPublishAttempts).step s l = some t) : Heard t := by
  -- A step of a call brings no return: it has to keep what is known of them.
  have hcall {c : ℕ} {u : State} {pc' : Pc} (hk : KeepsReturns s u)
      (hthreads : u.threads = s.threads)
      (hreturns : ∀ g, (s.channels g).returns ⊆ (u.channels g).returns) (hheeded : Heeded u pc') :
      Heard (u.goto (.call c) pc') :=
    hs.quiet_goto htracked hk hthreads hreturns nofun hheeded
  have hstay (g : ℕ) : (s.channels g).returns ⊆ (s.channels g).returns := fun _ h ↦ h
  have hkeep {u : State} := @keepsReturns s u
  cases act_of_step h with
  | begin _ _ _ | attempt _ | acquire _ _ | notReady _ | index _ _ =>
    exact hcall (hkeep (fun _ ↦ rfl) rfl rfl rfl) rfl hstay trivial
  | move hpc hmoves => exact hs.move htracked hframed horigins hindexed hpc hmoves
  | snapshot hpc hkey hp => exact hcall (keepsReturns_snapshot (by rw [hp])) rfl hstay trivial
  | @store c e key hpc =>
    -- Nothing was published under the key yet, so that nothing of it was returned.
    have hnone : s.frame key = none :=
      @Framed.frame_eq_none s (.call c) key hframed hslot (by rw [hpc]; rfl)
    have hpending : ∀ key' e', .returned key' ∈ s.history →
        update s.pendingPublishes key (some e) key' = some e' →
          s.pendingPublishes key' = some e' := by
      refine (forall_update_iff _ fun key' (o : Option ℕ) ↦ ∀ e', .returned key' ∈
        s.history →
        o = some e' → s.pendingPublishes key' = some e').2 ⟨fun e' hret _ ↦ ?_, fun _ _ _ _ h ↦ h⟩
      obtain ⟨f, hf, -⟩ := hs.known key hret
      exact nomatch hnone.symm.trans hf
    exact hcall { hkeep (u := s) (fun _ ↦ rfl) rfl rfl rfl with pending := hpending } rfl hstay
      trivial
  | @send c e key r f pc' hpc hf hpc' =>
    have hreturns (g : ℕ) : (s.channels g).returns ⊆ ((s.setChannel key.generation
        ((s.channels key.generation).publish f r)).channels g).returns := by grind
    have hframe : ∀ key' f', s.frame key' = some f' → (s.setChannel key.generation
        ((s.channels key.generation).publish f r)).frame key' = some f' :=
      hframed.frame_sent hslot hpc
    have hk : KeepsReturns s { s.setChannel key.generation
        ((s.channels key.generation).publish f r) with publishSerial := none } :=
      { hkeep (u := s) (fun _ ↦ rfl) rfl rfl rfl with frame := hframe }
    rcases hpc' with rfl | rfl <;> exact hcall hk rfl hreturns trivial
  | @succeed c e key a hpc ha hack hreturned =>
    -- An ACK that came without a return is one of a frame that was not returned.
    obtain ⟨-, hkey, -⟩ := htracked.attempt (.call c) key e (by rw [hpc]; rfl)
    have hk := @keepsReturns_setEntry s e { s.entries e with confirm := none } rfl rfl (fun h ↦ h)
      nofun
    refine hcall (hk.log nofun fun c' key' h ↦ ?_) rfl hstay trivial
    cases h
    exact hkey ▸ hs.answers e a ha hack hreturned
  | @unroutable c e key a hpc ha hreturned =>
    have hk := @keepsReturns_setEntry s e { s.entries e with confirm := none } rfl rfl (fun h ↦ h)
      nofun
    exact hcall (hk.log (fun _ h ↦ nomatch h) fun _ _ h ↦ nomatch h) rfl hstay trivial
  | nacked hpc ha =>
    exact hcall (keepsReturns_setEntry rfl rfl (fun h ↦ h) nofun) rfl hstay
      trivial
  | retry hpc hcall' hpc' =>
    rcases hpc' with rfl | ⟨rfl, -⟩ <;>
      exact hcall (hkeep (fun _ ↦ rfl) rfl rfl rfl) rfl hstay trivial
  | @take th key e by' hpc he =>
    have hentry := @keepsReturns_setEntry s e { s.entries e with taker := some th } rfl rfl
      (fun h ↦ h) fun _ h ↦ .inl h
    have hpending : ∀ key' e', .returned key' ∈ s.history →
        update s.pendingPublishes key none key' = some e' →
          s.pendingPublishes key' = some e' :=
      (forall_update_iff _ fun key' (o : Option ℕ) ↦ ∀ e', .returned key' ∈ s.history →
        o = some e' → s.pendingPublishes key' = some e').2
          ⟨fun _ _ h ↦ absurd h.symm (some_ne_none _), fun _ _ _ _ h ↦ h⟩
    refine hs.quiet_goto htracked { hentry with pending := hpending } rfl hstay
      (fun _ _ ↦ ?_) ?_
    · rw [hpc]
      exact fun _ _ h ↦ h
    · have hheeded := hs.heeded th
      rw [hpc] at hheeded
      cases by' with
      | route confirm =>
        exact fun hret ↦ hentry.attached e (htracked.registered (.inl he)).2.2 (hheeded hret e he)
      | _ => trivial
  | @unindex th key e by' pendingMandatory hpc hindex =>
    refine hs.quiet_goto htracked (hkeep (fun _ ↦ rfl) rfl rfl rfl) rfl hstay (fun _ _ ↦ ?_) ?_
    · rw [hpc]
      exact fun _ _ h ↦ h
    · have hheeded := hs.heeded th
      rw [hpc] at hheeded
      cases by' <;> exact hheeded
  | @answer th key e by' p hpc hp =>
    have hnew : Truthful s (s.entries e).key (by'.answer key (s.entries e).returned) :=
      hs.truthful_answer hframed hpc
    have hk : KeepsReturns s (s.setEntry e p) := by
      subst hp
      refine keepsReturns_setEntry rfl rfl (fun h ↦ h) fun a ha ↦ ?_
      rcases hold : (s.entries e).confirm with _ | a'
      · rw [hold] at ha
        cases ha
        exact .inr hnew
      · rw [hold] at ha
        exact .inl ha
    have hlog := @KeepsReturns.log _ _ (.answered e (by'.source key)) hk nofun
      nofun
    refine hs.quiet_goto htracked hlog rfl hstay (fun _ _ ↦ ?_) (by cases by' <;> trivial)
    rw [hpc]
    exact fun _ _ h ↦ h
  | @brokerConfirm key ack f ch hf hch =>
    have hreturns (g : ℕ) :
        (s.channels g).returns ⊆ ((s.setChannel key.generation ch).channels g).returns := by grind
    have hk : KeepsReturns s (s.setChannel key.generation ch) :=
      hkeep (frame_setChannel (by rw [hch])) rfl rfl rfl
    have hlog := @KeepsReturns.log _ _ (.confirmed key ack) hk nofun
      nofun
    exact hs.keep htracked hlog
      (fun _ _ _ he h ↦ onWay_of_same htracked hlog hreturns (fun _ _ _ h ↦ h) he h)
      fun _ ↦ .inl rfl
  | brokerReturn hf hmandatory hch =>
    exact hs.brokerReturn hframed horigins hf hmandatory hfirst hch
  | takeReturn hpc hreturns => exact hs.takeReturn htracked hpc hreturns
  | @takeConfirm g confirm rest hpc hconfirms =>
    refine hs.quiet_goto htracked (hkeep (frame_setChannel rfl) rfl rfl rfl) rfl ?_
      (fun _ _ ↦ ?_) trivial
    · grind
    · rw [hpc]
      exact fun _ _ h ↦ h
  | attach hpc => exact hs.attach htracked hpc
  | acquireUncond _ _ | discard _ =>
    exact hs.quiet_goto htracked (hkeep (fun _ ↦ rfl) rfl rfl rfl) rfl hstay
      nofun trivial
  | install hpc =>
    have hidle : Heard ({ s with publishSerial := none }.goto .reconnect .idle) :=
      hs.quiet_goto htracked (hkeep (fun _ ↦ rfl) rfl rfl rfl) rfl hstay nofun trivial
    refine hidle.install (htracked.quiet (htracked.sameEntries rfl rfl rfl rfl rfl) ?_ rfl rfl rfl)
      (hunstarted.goto rfl rfl nofun)
    rw [hpc]
    rfl
  | environment =>
    exact hs.keep htracked (hkeep (fun _ ↦ rfl) rfl rfl rfl) (fun _ _ _ _ h ↦ h)
      fun _ ↦ .inl rfl

/-- Returns come before confirmations, and Mandatory publishes in flight carry distinct ids. -/
def Correlatable (s : State) (l : Label) : Prop :=
  ReturnsFirst s l ∧ DistinctIDs s l

/-- The invariant holds along such runs. -/
theorem heard_of_reach (hs : (system maxPublishAttempts).Reach Correlatable s) : Heard s := by
  refine hs.invariant ?_ fun _ _ _ hr hc hheard h ↦ hheard.step (tracked_of_reachable hr.reachable)
    (slotted_of_reachable hr.reachable) (unstarted_of_reachable hr.reachable)
    (framed_of_reachable hr.reachable) (origins_of_reachable hr.reachable)
    (indexed_of_reach (fun _ _ h ↦ h.2) hr) hc.1 h
  rintro s rfl
  exact ⟨nofun, nofun, fun _ ↦ trivial, nofun, nofun⟩

/-! ### The result -/

/-- **A returned publish does not succeed.** In every run in which returns come before confirmations
and no two Mandatory publishes in flight carry one message id: a call does not return nil on an
attempt whose frame was returned; and if an attempt of a call is classified as unroutable, then the
call is Mandatory and the broker returned a frame with its message id. That frame is the call's own
if no other Mandatory call carries the id. -/
theorem returned_never_succeeds (hs : (system maxPublishAttempts).Reach Correlatable s) :
    (∀ c key, s.threads (.call c) = .ended (.ok key) → .returned key ∉ s.history) ∧
    ∀ c, .unroutable c ∈ s.history → (s.calls c).mandatory = true ∧
      (∃ key f, s.frame key = some f ∧ f.messageID = (s.calls c).messageID ∧
        .returned key ∈ s.history) ∧
      ((∀ c', (s.calls c').mandatory = true → (s.calls c').messageID = (s.calls c).messageID →
        c' = c) → ∃ key f, s.frame key = some f ∧ f.call = c ∧ .returned key ∈ s.history) := by
  have hheard := heard_of_reach hs
  have hframed := framed_of_reachable hs.reachable
  have horigins := origins_of_reachable hs.reachable
  refine ⟨fun c key hpc ↦ ?_, fun c hev ↦ ?_⟩
  · have hclaims := hframed.claims (.call c)
    rw [hpc] at hclaims
    exact hheard.events c key (hclaims c rfl)
  · obtain ⟨hbegun, key, f, hf, hmandatory, hid, hret⟩ := horigins.events c hev
    obtain ⟨hbegun', hm, hid'⟩ := horigins.frame key f hf
    have hcall : (s.calls c).mandatory = true ∧ f.messageID = (s.calls c).messageID := by
      rw [Call.indexID] at hid
      split at hid
      · next h => exact ⟨h, hid⟩
      · exact absurd (hid'.symm.trans hid) (horigins.call _ hbegun')
    refine ⟨hcall.1, ⟨key, f, hf, hcall.2, hret⟩, fun honly ↦ ⟨key, f, hf, ?_, hret⟩⟩
    exact honly f.call (hm ▸ hmandatory) (hid'.symm.trans hcall.2)

/-- The labels that ask nothing of the broker or of message ids. -/
def Label.free : Label → Bool
  | .begin _ mandatory _ _ => !mandatory
  | .brokerReturn .. => false
  | _ => true

theorem correlatable_of_free (h : l.free = true) (s : State) : Correlatable s l := by
  cases l with
  | begin c mandatory messageID minted =>
    cases mandatory with
    | true => contradiction
    | false => exact ⟨trivial, trivial⟩
  | brokerReturn => contradiction
  | _ => exact ⟨trivial, trivial⟩

/-- Two Mandatory publishes with ids of their own: the one that is returned is classified as
unroutable, the other returns nil. -/
theorem returned_never_succeeds_two_calls :
    ∃ s, (system 5).Reach Correlatable s ∧ s.threads (.call 1) = .ended (.ok ⟨1, 2⟩) ∧
      .returned ⟨1, 2⟩ ∉ s.history ∧ .unroutable 0 ∈ s.history ∧
      ∃ key f, s.frame key = some f ∧ f.messageID = (s.calls 0).messageID ∧
        .returned key ∈ s.history := by
  obtain ⟨s₁, s₂, s₃, s, hrun₁, hidle, hrun₂, hs₂, hrun₃, hfirst, hrun, hok, hev⟩ :
      ∃ s₁ s₂ s₃ s, (system 5).run {} [.rotate, .acquireUncond, .swept, .install, .ready true] =
          some s₁ ∧ (∀ c, s₁.threads (.call c) = .idle) ∧
        (system 5).run s₁ [.begin 0 true "a" "x"] = some s₂ ∧
        s₂ = (s₁.setCall 0 { mandatory := true, messageID := "a" }).goto (.call 0) .guarding ∧
        (system 5).run s₂ [.begin 1 true "b" "y", .guard 0 false, .acquire 0 false, .snapshot 0,
          .index 0, .store 0, .send 0 .ok, .guard 1 false, .acquire 1 false, .snapshot 1, .index 1,
          .store 1, .send 1 .ok] = some s₃ ∧
        ReturnsFirst s₃ (.brokerReturn ⟨1, 1⟩ 312 "NO_ROUTE") ∧
        (system 5).run s₃ [.brokerReturn ⟨1, 1⟩ 312 "NO_ROUTE", .brokerConfirm ⟨1, 1⟩ true,
          .brokerConfirm ⟨1, 2⟩ true, .takeConfirm 1, .drain 1, .record 1, .attach 1, .drain 1,
          .untrack (.dispatcher 1), .unindex (.dispatcher 1), .answer (.dispatcher 1), .receive 0,
          .takeConfirm 1, .drain 1, .untrack (.dispatcher 1), .unindex (.dispatcher 1),
          .answer (.dispatcher 1), .receive 1] = some s ∧
        s.threads (.call 1) = .ended (.ok ⟨1, 2⟩) ∧ .unroutable 0 ∈ s.history :=
    ⟨_, _, _, _, rfl, fun _ ↦ rfl, rfl, rfl, rfl, nofun, rfl, by decide, by decide⟩
  have hid₁ : DistinctIDs s₁ (.begin 0 true "a" "x") := by
    intro c h
    rw [hidle c] at h
    contradiction
  have hid₂ : DistinctIDs s₂ (.begin 1 true "b" "y") := by
    intro c h _
    by_cases hc : c = 0
    · have hcall : s₂.calls 0 = { mandatory := true, messageID := "a" } := by
        rw [hs₂]
        exact update_self 0 _ s₁.calls
      rw [hc, hcall]
      decide
    · have hother : s₂.threads (.call c) = s₁.threads (.call c) := by
        rw [hs₂]
        exact update_of_ne (fun h ↦ hc (Thread.call.inj h)) _ s₁.threads
      rw [hother, hidle c] at h
      contradiction
  have hfree {ls : List Label} (h : ls.all Label.free = true) : ∀ l ∈ ls, ∀ u, Correlatable u l :=
    fun l hl ↦ correlatable_of_free (all_eq_true.1 h l hl)
  have hs₁ : (system 5).Reach Correlatable s₁ :=
    .run_cons (.init rfl) hrun₁ ⟨trivial, trivial⟩ (hfree rfl)
  have hreach₂ := hs₁.run_cons hrun₂ ⟨trivial, hid₁⟩ (hfree rfl)
  have hreach₃ := hreach₂.run_cons hrun₃ ⟨trivial, hid₂⟩ (hfree rfl)
  have hs := hreach₃.run_cons hrun ⟨hfirst, trivial⟩ (hfree rfl)
  obtain ⟨hnil, hunroutable⟩ := returned_never_succeeds hs
  exact ⟨s, hs, hok, hnil 1 _ hok, hev, (hunroutable 0 hev).2.1⟩

/-- The condition looks at the history only. -/
instance : ∀ s l, Decidable (ReturnsFirst s l)
  | s, .brokerReturn key _ _ => inferInstanceAs (Decidable (∀ ack, .confirmed key ack ∉ s.history))
  | _, .begin .. | _, .guard .. | _, .acquire .. | _, .snapshot _ | _, .index _ | _, .store _
  | _, .send .. | _, .receive _ | _, .giveUp .. | _, .retry .. | _, .untrack _ | _, .unindex _
  | _, .answer _ | _, .brokerConfirm .. | _, .takeReturn _ | _, .takeConfirm _ | _, .teardown _
  | _, .drain _ | _, .record _ | _, .attach _ | _, .stop _ | _, .rotate | _, .acquireUncond
  | _, .sweep _ | _, .swept | _, .install | _, .ready _ | _, .close => isTrue trivial

/-- Two Mandatory publishes in flight with one id. The broker returns the earlier; its ACK reads as
success, and the later one, which was never returned, is classified as unroutable. -/
theorem equal_ids_swap_outcomes :
    ∃ s, (system 5).Reach ReturnsFirst s ∧ s.threads (.call 0) = .ended (.ok ⟨1, 1⟩) ∧
      .returned ⟨1, 1⟩ ∈ s.history ∧ .unroutable 1 ∈ s.history ∧
      ∀ key f, s.frame key = some f → f.call = 1 → .returned key ∉ s.history := by
  obtain ⟨s, hrun, hok, hret, hev, hframe, hothers⟩ :
      ∃ s, ((system 5).restrict ReturnsFirst).run {} [.rotate, .acquireUncond, .swept, .install,
        .ready true,
        .begin 0 true "m" "x", .guard 0 false, .acquire 0 false, .snapshot 0, .index 0, .store 0,
        .send 0 .ok, .begin 1 true "m" "y", .guard 1 false, .acquire 1 false, .snapshot 1, .index 1,
        .store 1, .send 1 .ok,
        .brokerReturn ⟨1, 1⟩ 312 "NO_ROUTE", .brokerConfirm ⟨1, 1⟩ true,
        .brokerConfirm ⟨1, 2⟩ true, .takeConfirm 1, .drain 1, .record 1, .attach 1, .drain 1,
        .untrack (.dispatcher 1), .unindex (.dispatcher 1), .answer (.dispatcher 1), .receive 0,
        .takeConfirm 1, .drain 1, .untrack (.dispatcher 1), .unindex (.dispatcher 1),
        .answer (.dispatcher 1), .receive 1] = some s ∧
      s.threads (.call 0) = .ended (.ok ⟨1, 1⟩) ∧ .returned ⟨1, 1⟩ ∈ s.history ∧
      .unroutable 1 ∈ s.history ∧ (s.frame ⟨1, 1⟩).map Frame.call = some 0 ∧
      s.history.filter (· matches .returned _) = [.returned ⟨1, 1⟩] :=
    ⟨_, rfl, by decide, by decide, by decide, rfl, by decide⟩
  have hs := StepSystem.reach_of_run (M := (system 5).restrict ReturnsFirst) (.init rfl) hrun
  refine ⟨s, .of_restrict hs, hok, hret, hev, fun key f hf hcall hreturned ↦ ?_⟩
  have hmem : .returned key ∈ s.history.filter (· matches .returned _) :=
    mem_filter.2 ⟨hreturned, rfl⟩
  rw [hothers, mem_singleton] at hmem
  cases hmem
  rw [hf] at hframe
  simp [hcall] at hframe

end Amqp
