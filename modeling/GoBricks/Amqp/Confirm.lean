import GoBricks.Amqp.Pairing

/-!
# Confirmations reach the publish that drew their tag

Delivery tags start over with every channel, and a dispatcher outlives the channel it serves. What
keeps a confirmation from the wrong publish is that an entry is stored under its generation as well,
in the same handshake that sends the frame: from then on no other entry can come under the key of a
frame (`Framed.pending`).

* `confirm_correlation`: a call returns nil only on an ACK of a frame of its own; a confirmation
  answers only the entry of the frame it confirms; no entry is answered twice; an entry is stored
  only as long as its attempt runs; and the attempts of a call are bounded.
* `failed_publish_untracks_next`: the index of the Mandatory entries keeps the entry of a publish
  that failed without a tag, if the next publish was stored under its key before it was untracked.
-/

namespace Amqp

open List Function Option

variable {maxPublishAttempts : ℤ} {s t u : State} {l : Label} {th : Thread} {pc pc' : Pc}

/-! ### Frames -/

/-- The frame the broker got under the key. -/
def State.frame (s : State) (key : ConfirmKey) : Option Frame :=
  (s.channels key.generation).frames key.tag

/-- The broker has confirmed the frame of the key. -/
def Confirmed (s : State) (key : ConfirmKey) (ack : Bool) : Prop :=
  (∃ f, s.frame key = some f) ∧ .confirmed key ack ∈ s.history

/-- The frame of the key was sent with the entry. -/
def Sends (s : State) (key : ConfirmKey) (e : ℕ) : Prop :=
  ∃ f, s.frame key = some f ∧ f.entry = e

/-- What is known of a confirmation on its way to an entry. -/
def Claims (s : State) (th : Thread) : Pc → Prop
  | .draining (.route confirm) | .recording _ (.route confirm) | .attaching _ _ (.route confirm) =>
    ∀ g, th = .dispatcher g → Confirmed s ⟨g, confirm.tag⟩ confirm.ack
  | .untracking key (.route confirm) => Confirmed s key confirm.ack
  | .unindexing key e (.route confirm) | .answering key e (.route confirm) =>
    Confirmed s key confirm.ack ∧ Sends s key e
  | .ended (.ok key) => ∀ c, th = .call c → .succeeded c key ∈ s.history
  | _ => True

/-- An ACK that no return preceded is the broker's, of the frame of the entry. -/
def AnswerOk (s : State) (e : ℕ) (a : PublishConfirm) : Prop :=
  a.ack = true → a.returned = none →
    Confirmed s (s.entries e).key true ∧ Sends s (s.entries e).key e

/-- A recorded success was confirmed, and a recorded answer reached the frame's own entry. -/
def EventOk (s : State) : Event → Prop
  | .succeeded c key => Confirmed s key true ∧ ∃ f, s.frame key = some f ∧ f.call = c
  | .answered e (some key) => Sends s key e
  | _ => True

/-- Entries, frames and confirmations on their way belong together. -/
structure Framed (s : State) : Prop where
  claims : ∀ th, Claims s th (s.threads th)
  frames : ∀ key f, s.frame key = some f → key.tag ≤ (s.channels key.generation).published ∧
    f.entry < s.nextEntry ∧ (s.entries f.entry).key = key ∧ (s.entries f.entry).call = f.call
  /-- No other entry comes under the key of a frame. -/
  pending : ∀ key e f, s.pendingPublishes key = some e → s.frame key = some f → f.entry = e
  sending : ∀ th key e, s.threads th = .sending key e →
    s.pendingPublishes key = none ∨ s.pendingPublishes key = some e
  confirms : ∀ g, ∀ confirm ∈ (s.channels g).confirms, Confirmed s ⟨g, confirm.tag⟩ confirm.ack
  answers : ∀ e a, (s.entries e).confirm = some a → e < s.nextEntry ∧ AnswerOk s e a
  events : ∀ ev ∈ s.history, EventOk s ev

/-! ### What only grows -/

/-- Frames and events stay, and so does what an entry was made for. -/
structure Extends (s t : State) : Prop where
  frame : ∀ key f, s.frame key = some f → t.frame key = some f
  history : ∀ ev ∈ s.history, ev ∈ t.history
  nextEntry : s.nextEntry ≤ t.nextEntry
  key : ∀ e < s.nextEntry, (t.entries e).key = (s.entries e).key
  call : ∀ e < s.nextEntry, (t.entries e).call = (s.entries e).call

variable {key : ConfirmKey} {e : ℕ}

namespace Extends

variable (hx : Extends s t)
include hx

/-- A confirmation that was made stays made. -/
theorem confirmed {ack : Bool} (h : Confirmed s key ack) : Confirmed t key ack :=
  ⟨h.1.imp fun f ↦ hx.frame key f, hx.history _ h.2⟩

theorem sends (h : Sends s key e) : Sends t key e :=
  h.imp fun f ↦ And.imp_left (hx.frame key f)

theorem claims (h : Claims s th pc) : Claims t th pc := by
  cases pc with
  | draining next | recording ret next | attaching ret e next =>
    cases next with
    | route confirm => exact fun g hg ↦ hx.confirmed (h g hg)
    | select | exit => trivial
  | untracking key by' =>
    cases by' with
    | route confirm => exact hx.confirmed h
    | _ => trivial
  | unindexing key e by' | answering key e by' =>
    cases by' with
    | route confirm => exact ⟨hx.confirmed h.1, hx.sends h.2⟩
    | _ => trivial
  | ended r =>
    cases r with
    | ok key => exact fun c hc ↦ hx.history _ (h c hc)
    | _ => trivial
  | _ => trivial

theorem eventOk {ev : Event} (h : EventOk s ev) : EventOk t ev := by
  cases ev with
  | succeeded c key => exact ⟨hx.confirmed h.1, h.2.imp fun f ↦ And.imp_left (hx.frame key f)⟩
  | answered e b =>
    cases b with
    | some key => exact hx.sends h
    | none => trivial
  | _ => trivial

end Extends

/-- A step that sends no frame and stores no entry: whatever is new about a confirmation has to be
shown. -/
theorem Framed.next (hs : Framed s) (hx : Extends s t) (hframe : ∀ key, t.frame key = s.frame key)
    (hpublished : ∀ g, (s.channels g).published ≤ (t.channels g).published)
    (hpending : ∀ key, t.pendingPublishes key = s.pendingPublishes key ∨
      t.pendingPublishes key = none)
    (hsending : ∀ th key e, t.threads th = .sending key e → s.threads th = .sending key e)
    (hclaims : ∀ th, t.threads th = s.threads th ∨ Claims t th (t.threads th))
    (hconfirms : ∀ g, ∀ confirm ∈ (t.channels g).confirms, confirm ∈ (s.channels g).confirms ∨
      Confirmed t ⟨g, confirm.tag⟩ confirm.ack)
    (hanswers : ∀ e a, (t.entries e).confirm = some a → (s.entries e).confirm = some a ∨
      e < t.nextEntry ∧ AnswerOk t e a)
    (hevents : ∀ ev ∈ t.history, ev ∈ s.history ∨ EventOk t ev) : Framed t where
  claims th := by
    rcases hclaims th with h | h
    · rw [h]
      exact hx.claims (hs.claims th)
    · exact h
  frames key f hf := by
    rw [hframe] at hf
    obtain ⟨htag, hentry, hkey, hcall⟩ := hs.frames key f hf
    refine ⟨?_, lt_of_lt_of_le hentry hx.nextEntry, ?_, ?_⟩
    · exact le_trans htag (hpublished _)
    · rw [hx.key _ hentry, hkey]
    · rw [hx.call _ hentry, hcall]
  pending key e f he hf := by
    rw [hframe] at hf
    rcases hpending key with h | h
    · exact hs.pending key e f (h ▸ he) hf
    · simp [h] at he
  sending th key e h := by
    rcases hpending key with heq | hnone
    · rw [heq]
      exact hs.sending th key e (hsending th key e h)
    · exact .inl hnone
  confirms g confirm h := by
    rcases hconfirms g confirm h with hold | hnew
    · exact hx.confirmed (hs.confirms g confirm hold)
    · exact hnew
  answers e a ha := by
    rcases hanswers e a ha with hold | hnew
    · obtain ⟨hlt, hok⟩ := hs.answers e a hold
      refine ⟨lt_of_lt_of_le hlt hx.nextEntry, fun hack hreturned ↦ ?_⟩
      obtain ⟨hconfirmed, hsends⟩ := hok hack hreturned
      rw [hx.key e hlt]
      exact ⟨hx.confirmed hconfirmed, hx.sends hsends⟩
    · exact hnew
  events ev hev := by
    rcases hevents ev hev with hold | hnew
    · exact hx.eventOk (hs.events ev hold)
    · exact hnew

variable {f : Frame}

/-- A publish puts its frame at the next tag. -/
theorem frame_publish (htag : key.tag = (s.channels key.generation).published + 1)
    (key' : ConfirmKey) :
    (s.setChannel key.generation ((s.channels key.generation).publish f .ok)).frame key' =
      if key' = key then some f else s.frame key' := by
  change (update s.channels key.generation _ key'.generation).frames key'.tag = _
  by_cases hg : key'.generation = key.generation
  · rw [hg, update_self]
    change update _ _ _ _ = _
    rw [← htag]
    by_cases hkey : key' = key
    · rw [if_pos hkey, hkey, update_self]
    · rw [if_neg hkey, update_of_ne fun h ↦ hkey (ConfirmKey.ext hg h), State.frame, hg]
  · rw [update_of_ne hg, if_neg fun h ↦ hg (congrArg _ h)]
    rfl

/-- No frame has the key of a handshake yet. -/
theorem Framed.frame_eq_none (hs : Framed s) (hslot : Slotted s)
    (hpc : (s.threads th).handshake = some key) : s.frame key = none := by
  rw [eq_none_iff_forall_ne_some]
  intro f hf
  have htag := (hs.frames key f hf).1
  rw [hslot.current th key hpc] at htag
  exact Nat.not_succ_le_self _ htag

/-- The part of the state that confirmations depend on does not change, threads apart. -/
structure SameFrames (s u : State) : Prop where
  threads : u.threads = s.threads
  frame : ∀ key, u.frame key = s.frame key
  published : ∀ g, (s.channels g).published ≤ (u.channels g).published
  confirms : ∀ g, (u.channels g).confirms ⊆ (s.channels g).confirms
  pending : u.pendingPublishes = s.pendingPublishes
  history : u.history = s.history
  nextEntry : s.nextEntry ≤ u.nextEntry
  key : ∀ e < s.nextEntry, (u.entries e).key = (s.entries e).key
  call : ∀ e < s.nextEntry, (u.entries e).call = (s.entries e).call
  confirm : ∀ e a, (u.entries e).confirm = some a → (s.entries e).confirm = some a

/-- Only calls, the index, the slot or the client's flags change. -/
theorem sameFrames (hthreads : u.threads = s.threads) (hchannels : u.channels = s.channels)
    (hpending : u.pendingPublishes = s.pendingPublishes) (hhistory : u.history = s.history)
    (hnext : u.nextEntry = s.nextEntry) (hentries : u.entries = s.entries) : SameFrames s u where
  threads := hthreads
  frame key := by rw [State.frame, State.frame, hchannels]
  published g := by rw [hchannels]
  confirms g := by rw [hchannels]; exact fun _ h ↦ h
  pending := hpending
  history := hhistory
  nextEntry := le_of_eq hnext.symm
  key e _ := by rw [hentries]
  call e _ := by rw [hentries]
  confirm e a h := by rwa [hentries] at h

theorem frame_setChannel {g : ℕ} {ch : Channel} (h : ch.frames = (s.channels g).frames)
    (key : ConfirmKey) : (s.setChannel g ch).frame key = s.frame key := by
  rw [State.frame, State.frame]
  grind

/-- One channel's buffers change; no confirmation is added. -/
theorem sameFrames_setChannel {g : ℕ} {ch : Channel} (hframes : ch.frames = (s.channels g).frames)
    (hpublished : (s.channels g).published ≤ ch.published)
    (hconfirms : ch.confirms ⊆ (s.channels g).confirms) : SameFrames s (s.setChannel g ch) where
  threads := rfl
  frame := frame_setChannel hframes
  published _ := by grind
  confirms _ := by grind
  pending := rfl
  history := rfl
  nextEntry := le_rfl
  key _ _ := rfl
  call _ _ := rfl
  confirm _ _ h := h

/-- One entry changes; no answer is added. -/
theorem sameFrames_setEntry {p : Pending} (hkey : p.key = (s.entries e).key)
    (hcall : p.call = (s.entries e).call)
    (hconfirm : ∀ a, p.confirm = some a → (s.entries e).confirm = some a) :
    SameFrames s (s.setEntry e p) where
  threads := rfl
  frame _ := rfl
  published _ := le_rfl
  confirms _ _ h := h
  pending := rfl
  history := rfl
  nextEntry := le_rfl
  key _ _ := by grind
  call _ _ := by grind
  confirm _ _ := by grind

/-- A step that publishes nothing extends the frames. -/
theorem SameFrames.extends (h : SameFrames s u) : Extends s u where
  frame key f hf := by rw [h.frame, hf]
  history ev hev := by rwa [h.history]
  nextEntry := h.nextEntry
  key := h.key
  call := h.call

variable {c : ℕ}

namespace Framed

/-- A step that publishes nothing keeps the invariant. -/
theorem of_same (hs : Framed s) (h : SameFrames s u) : Framed u := by
  refine hs.next h.extends h.frame h.published (fun key ↦ .inl (congrFun h.pending key))
    (fun th key e hpc ↦ ?_) (fun th ↦ .inl (congrFun h.threads th))
    (fun g _ hmem ↦ .inl (h.confirms g hmem)) (fun e a ha ↦ .inl (h.confirm e a ha))
    fun ev hev ↦ .inl (h.history ▸ hev)
  rw [h.threads] at hpc
  exact hpc

/-- A thread moves. -/
theorem goto (hs : Framed s) (hsending : ∀ key e, pc' ≠ .sending key e)
    (hclaims : Claims s th pc') : Framed (s.goto th pc') := by
  refine ⟨?_, hs.frames, hs.pending, ?_, hs.confirms, hs.answers, hs.events⟩
  · exact (forall_update_iff _ fun th' (pc : Pc) ↦ Claims s th' pc).2
      ⟨hclaims, fun th' _ ↦ hs.claims th'⟩
  · exact (forall_update_iff _ fun th' (pc : Pc) ↦ ∀ key e, pc = .sending key e →
      s.pendingPublishes key = none ∨ s.pendingPublishes key = some e).2
        ⟨fun key e h ↦ absurd h (hsending key e), fun th' _ ↦ hs.sending th'⟩

/-- A thread moves, and nothing that confirmations depend on changes. -/
theorem same_goto (hs : Framed s) (h : SameFrames s u) (hsending : ∀ key e, pc' ≠ .sending key e)
    (hclaims : Claims u th pc') : Framed (u.goto th pc') :=
  (hs.of_same h).goto hsending hclaims

/-- An event is recorded. -/
theorem log {ev : Event} (hs : Framed s) (hev : EventOk (s.log ev) ev) : Framed (s.log ev) := by
  have hx : Extends s (s.log ev) :=
    ⟨fun _ _ h ↦ h, fun _ h ↦ mem_cons_of_mem _ h, le_rfl, fun _ _ ↦ rfl, fun _ _ ↦ rfl⟩
  refine hs.next hx (fun _ ↦ rfl) (fun _ ↦ le_rfl) (fun _ ↦ .inl rfl) (fun _ _ _ h ↦ h)
    (fun _ ↦ .inl rfl) (fun _ _ h ↦ .inl h) (fun _ _ h ↦ .inl h) fun ev' h ↦ ?_
  rcases mem_cons.1 h with rfl | hold
  · exact .inr hev
  · exact .inl hold

/-- The entry is stored under a key that no frame has yet. -/
theorem store (hs : Framed s) (hslot : Slotted s) (hpc : s.threads (.call c) = .storing key e) :
    Framed ({ s with pendingPublishes := update s.pendingPublishes key (some e) }.goto
      (.call c) (.sending key e)) where
  claims := (forall_update_iff _ fun th' (pc : Pc) ↦ Claims s th' pc).2
    ⟨trivial, fun th' _ ↦ hs.claims th'⟩
  frames := hs.frames
  pending := by
    refine (forall_update_iff _ fun key' (o : Option ℕ) ↦ ∀ e' f, o = some e' →
      s.frame key' = some f → f.entry = e').2 ⟨fun e' f _ hf ↦ ?_, fun key' _ ↦ hs.pending key'⟩
    have hnone := @frame_eq_none s (.call c) key hs hslot (by rw [hpc]; rfl)
    exact nomatch hnone.symm.trans hf
  sending := by
    refine (forall_update_iff _ fun th' (pc : Pc) ↦ ∀ key' e', pc = .sending key' e' →
      update s.pendingPublishes key (some e) key' = none ∨
        update s.pendingPublishes key (some e) key' = some e').2
          ⟨fun key' e' h ↦ .inr ?_, fun th' hne key' e' h ↦ ?_⟩
    · cases h
      exact update_self ..
    · -- Two threads would be in the slot.
      have h₁ := hslot.slot th' (by rw [h]; rfl)
      have h₂ := hslot.slot (.call c) (by rw [hpc]; rfl)
      exact absurd (some_inj.1 (h₁.symm.trans h₂)) hne
  confirms := hs.confirms
  answers := hs.answers
  events := hs.events

/-- The broker gets the frame of the handshake. -/
theorem sent (hs : Framed s) (htracked : Tracked s) (hslot : Slotted s)
    (hpc : s.threads (.call c) = .sending key e) (hentry : f.entry = e) (hcall : f.call = c) :
    Framed { s.setChannel key.generation ((s.channels key.generation).publish f .ok) with
      publishSerial := none } := by
  obtain ⟨hth, hown, hlt⟩ := htracked.attempt (.call c) key e (by rw [hpc]; rfl)
  have htag : key.tag = (s.channels key.generation).published + 1 := by
    rw [hslot.current (.call c) key (by rw [hpc]; rfl)]
    rfl
  set u : State := { s.setChannel key.generation ((s.channels key.generation).publish f .ok) with
    publishSerial := none }
  have hframe : u.frame key = some f := (frame_publish htag key).trans (if_pos rfl)
  have hother {key' : ConfirmKey} (hne : key' ≠ key) : u.frame key' = s.frame key' :=
    (frame_publish htag key').trans (if_neg hne)
  have hnone : s.frame key = none :=
    @frame_eq_none s (.call c) key hs hslot (by rw [hpc]; rfl)
  have hpublished (g : ℕ) : (s.channels g).published ≤ (u.channels g).published := by
    grind [Channel.publish]
  have hx : Extends s u := by
    refine ⟨fun key' f' hf' ↦ (hother ?_).trans hf', fun _ h ↦ h, le_rfl, fun _ _ ↦ rfl,
      fun _ _ ↦ rfl⟩
    rintro rfl
    exact nomatch hnone.symm.trans hf'
  refine ⟨fun th' ↦ hx.claims (hs.claims th'), fun key' f' hf' ↦ ?_, fun key' e' f' he' hf' ↦ ?_,
    hs.sending, ?_, fun e' a ha ↦ ?_, fun ev hev ↦ hx.eventOk (hs.events ev hev)⟩
  · by_cases hne : key' = key
    · subst hne
      obtain rfl : f = f' := some_inj.1 (hframe.symm.trans hf')
      subst hentry hcall
      refine ⟨?_, hlt, hown, (Thread.call.inj hth).symm⟩
      change key'.tag ≤ (update s.channels key'.generation _ key'.generation).published
      rw [update_self, htag]
      exact le_rfl
    · rw [hother hne] at hf'
      exact (hs.frames key' f' hf').imp_left fun h ↦ le_trans h (hpublished _)
  · by_cases hne : key' = key
    · subst hne
      obtain rfl : f = f' := some_inj.1 (hframe.symm.trans hf')
      rcases hs.sending (.call c) key' e hpc with h | h
      · exact nomatch h.symm.trans he'
      · exact hentry.trans (some_inj.1 (h.symm.trans he'))
    · exact hs.pending key' e' f' he' ((hother hne).symm.trans hf')
  · refine fun g confirm h ↦ hx.confirmed (hs.confirms g confirm ?_)
    grind [Channel.publish]
  · obtain ⟨hlt', hok⟩ := hs.answers e' a ha
    exact ⟨hlt', fun hack hreturned ↦
      (hok hack hreturned).imp hx.confirmed hx.sends⟩

/-- Untracking forgets an entry, not a frame. -/
theorem untrack (hs : Framed s) (key : ConfirmKey) :
    Framed { s with pendingPublishes := update s.pendingPublishes key none } := by
  have hupdate := update_apply s.pendingPublishes key none
  refine ⟨hs.claims, hs.frames, fun key' e f he ↦ hs.pending key' e f ?_, fun th key' e h ↦ ?_,
    hs.confirms, hs.answers, hs.events⟩
  · grind
  · have hold := hs.sending th key' e h
    grind

/-- A thread takes an entry out; a dispatcher takes that of the frame it has the confirmation of. -/
theorem take {by' : Untracker} (hs : Framed s) (hpc : s.threads th = .untracking key by')
    (he : s.pendingPublishes key = some e) :
    Framed ({ s.setEntry e { s.entries e with taker := some th } with
      pendingPublishes := update s.pendingPublishes key none }.goto th
        (.unindexing key e by')) := by
  have hsame : SameFrames s (s.setEntry e { s.entries e with taker := some th }) :=
    sameFrames_setEntry rfl rfl fun _ h ↦ h
  have hclaims := hs.claims th
  rw [hpc] at hclaims
  refine ((hs.of_same hsame).untrack key).goto nofun ?_
  cases by' with
  | route confirm =>
    obtain ⟨f, hf⟩ := hclaims.1
    exact ⟨hclaims, f, hf, hs.pending key e f he hf⟩
  | _ => trivial

/-- One entry changes; an answer that is added is the broker's. -/
theorem setEntry {p : Pending} (hs : Framed s) (hlt : e < s.nextEntry)
    (hkey : p.key = (s.entries e).key) (hcall : p.call = (s.entries e).call)
    (hconfirm : ∀ a, p.confirm = some a → (s.entries e).confirm = some a ∨ AnswerOk s e a) :
    Framed (s.setEntry e p) := by
  have hkeys (e' : ℕ) : ((s.setEntry e p).entries e').key = (s.entries e').key := by grind
  have hcalls (e' : ℕ) : ((s.setEntry e p).entries e').call = (s.entries e').call := by grind
  refine ⟨hs.claims, fun key f hf ↦ ?_, hs.pending, hs.sending, hs.confirms, fun e' a ha ↦ ?_,
    hs.events⟩
  · rw [hkeys, hcalls]
    exact hs.frames key f hf
  · have hanswers : e' < s.nextEntry ∧ AnswerOk s e' a := by
      have hold := hs.answers e'
      grind
    refine hanswers.imp_right fun hok hack hreturned ↦ ?_
    rw [hkeys]
    exact hok hack hreturned

/-- The answer of a dispatcher is the broker's; the ACK of a sweep comes with a return. -/
theorem answer {by' : Untracker} {p : Pending} (hs : Framed s) (htracked : Tracked s)
    (hpc : s.threads th = .answering key e by')
    (hp : p = { s.entries e with
      confirm := some ((s.entries e).confirm.getD (by'.answer key (s.entries e).returned)) }) :
    Framed (((s.setEntry e p).log (.answered e (by'.source key))).goto th
      (s.resume th key by')) := by
  have hlt : e < s.nextEntry := by
    refine lt_of_not_ge fun hle ↦ ?_
    have htaker := (htracked.taken th e (by rw [hpc]; rfl)).1
    simp [htracked.fresh e hle] at htaker
  have hclaims := hs.claims th
  rw [hpc] at hclaims
  have hnew : AnswerOk s e (by'.answer key (s.entries e).returned) := by
    intro hack hreturned
    cases by' with
    | route confirm =>
      obtain ⟨hconfirmed, f, hf, hentry⟩ := hclaims
      rw [← hentry, (hs.frames key f hf).2.2.1]
      exact ⟨(show confirm.ack = true from hack) ▸ hconfirmed, f, hf, rfl⟩
    | _ =>
      change (s.entries e).returned = none at hreturned
      change (s.entries e).returned.isSome = true at hack
      simp [hreturned] at hack
  refine ((hs.setEntry hlt (by rw [hp]) (by rw [hp]) fun a ha ↦ ?_).log ?_).goto ?_ ?_
  · subst hp
    rcases hold : (s.entries e).confirm with _ | a'
    · rw [hold] at ha
      cases ha
      exact .inr hnew
    · rw [hold] at ha
      exact .inl ha
  · cases by' with
    | route confirm => exact hclaims.2
    | _ => trivial
  · cases by' <;> exact nofun
  · cases by' <;> trivial

/-- A call returns nil on an answer that is the broker's ACK of its frame. -/
theorem succeed {a : PublishConfirm} (hs : Framed s) (htracked : Tracked s)
    (hpc : s.threads (.call c) = .waiting key e) (ha : (s.entries e).confirm = some a)
    (hack : a.ack = true) (hreturned : a.returned = none) :
    Framed (((s.setEntry e { s.entries e with confirm := none }).log (.succeeded c key)).goto
      (.call c) (.ended (.ok key))) := by
  obtain ⟨hth, hkey, -⟩ := htracked.attempt (.call c) key e (by rw [hpc]; rfl)
  obtain ⟨hconfirmed, f, hf, hentry⟩ := (hs.answers e a ha).2 hack hreturned
  rw [hkey] at hconfirmed hf
  have hcall : f.call = c := by
    rw [← (hs.frames key f hf).2.2.2, hentry]
    exact (Thread.call.inj hth).symm
  have hlog : Framed (s.log (.succeeded c key)) :=
    hs.log ⟨hconfirmed.imp_right (mem_cons_of_mem _), f, hf, hcall⟩
  refine (hlog.of_same (sameFrames_setEntry (e := e) (p := { s.entries e with confirm := none })
    rfl rfl nofun)).goto nofun fun c' hc' ↦ ?_
  cases hc'
  exact mem_cons_self

/-- The broker confirms frames only. -/
theorem brokerConfirm {ack : Bool} {ch : Channel} (hs : Framed s)
    (hf : (s.channels key.generation).frames key.tag = some f)
    (hch : ch = { s.channels key.generation with
      confirms := (s.channels key.generation).confirms ++ [⟨key.tag, ack⟩] }) :
    Framed ((s.setChannel key.generation ch).log (.confirmed key ack)) := by
  have hframe (key' : ConfirmKey) :
      ((s.setChannel key.generation ch).log (.confirmed key ack)).frame key' = s.frame key' :=
    frame_setChannel (by rw [hch]) key'
  set t := (s.setChannel key.generation ch).log (.confirmed key ack)
  have hx : Extends s t := by
    refine ⟨fun key' f' hf' ↦ (hframe key').trans hf', fun _ h ↦ mem_cons_of_mem _ h, le_rfl,
      fun _ _ ↦ rfl, fun _ _ ↦ rfl⟩
  have hconfirmed : Confirmed t key ack := ⟨⟨f, (hframe key).trans hf⟩, mem_cons_self⟩
  refine hs.next hx hframe ?_ (fun _ ↦ .inl rfl) (fun _ _ _ h ↦ h) (fun _ ↦ .inl rfl) ?_
    (fun _ _ h ↦ .inl h) fun ev hev ↦ ?_
  · grind
  · refine (forall_update_iff _ fun g (ch : Channel) ↦ ∀ confirm ∈ ch.confirms,
      confirm ∈ (s.channels g).confirms ∨ Confirmed t ⟨g, confirm.tag⟩ confirm.ack).2
        ⟨fun confirm hmem ↦ ?_, fun _ _ _ h ↦ .inl h⟩
    rw [hch] at hmem
    rcases mem_append.1 hmem with hold | hnew
    · exact .inl hold
    · rw [mem_singleton.1 hnew]
      exact .inr hconfirmed
  · rcases mem_cons.1 hev with rfl | hold
    · exact .inr trivial
    · exact .inl hold

end Framed

/-- A thread that resumes claims nothing new. -/
theorem resume_claims (s : State) (th : Thread) (key : ConfirmKey) (by' : Untracker) :
    Claims s th (s.resume th key by') := by
  cases by' <;> trivial

theorem Moves.claims (h : Moves s th pc pc') (hclaims : Claims s th pc) : Claims s th pc' := by
  cases h with
  | missing hnone => exact resume_claims ..
  | @drained g next hempty =>
    cases next with
    | route confirm => exact hclaims g rfl
    | select | exit => trivial
  | @unmatched g ret next hnone | @matched g e ret next hsome => cases next <;> exact hclaims
  | _ => trivial

theorem Moves.not_sending (h : Moves s th pc pc') (key : ConfirmKey) (e : ℕ) :
    pc' ≠ .sending key e := by
  rintro rfl
  simpa [Pc.handshake] using h.handshake

theorem untracked_claims {by' : Untracker} (s : State) (h : Claims s th (.unindexing key e by')) :
    Claims s th (s.untracked th key e by') := by
  cases by' <;> exact h

theorem recording_claims {next : Drained} {ret : PublishReturn}
    (h : Claims s th (.draining next)) : Claims s th (.recording ret next) := by
  cases next <;> exact h

theorem again_claims {next : Drained} {ret : PublishReturn}
    (h : Claims s th (.attaching ret e next)) : Claims s th next.again := by
  cases next <;> exact h

/-- A fresh entry is made. -/
theorem sameFrames_snapshot {p : Pending} (hconfirm : p.confirm = none) :
    SameFrames s ({ s with nextEntry := s.nextEntry + 1 }.setEntry s.nextEntry p) where
  threads := rfl
  frame _ := rfl
  published _ := le_rfl
  confirms _ _ h := h
  pending := rfl
  history := rfl
  nextEntry := Nat.le_succ _
  key _ _ := by grind
  call _ _ := by grind
  confirm _ _ := by grind

/-- A publish fails; it may have drawn its tag. -/
theorem sameFrames_failed {drew : Bool} :
    SameFrames s { s.setChannel key.generation
      ((s.channels key.generation).publish f (.failed drew)) with publishSerial := none } := by
  have h : SameFrames s (s.setChannel key.generation
      ((s.channels key.generation).publish f (.failed drew))) := by
    cases drew with
    | true => exact sameFrames_setChannel rfl (Nat.le_succ _) fun _ h ↦ h
    | false => exact sameFrames_setChannel rfl le_rfl fun _ h ↦ h
  exact ⟨h.threads, h.frame, h.published, h.confirms, h.pending, h.history, h.nextEntry, h.key,
    h.call, h.confirm⟩

/-- Whatever a publish does, the frames that are there stay. -/
theorem Framed.frame_sent {r : Sent} (hs : Framed s) (hslot : Slotted s)
    (hpc : s.threads (.call c) = .sending key e) (key' : ConfirmKey) (f' : Frame)
    (hf' : s.frame key' = some f') :
    (s.setChannel key.generation ((s.channels key.generation).publish f r)).frame key' =
      some f' := by
  have hhandshake : (s.threads (.call c)).handshake = some key := by rw [hpc]; rfl
  cases r with
  | ok =>
    have htag : key.tag = (s.channels key.generation).published + 1 := by
      rw [hslot.current _ key hhandshake]
      rfl
    rw [frame_publish htag, if_neg, hf']
    rintro rfl
    exact nomatch (hs.frame_eq_none hslot hhandshake).symm.trans hf'
  | failed drew => exact (sameFrames_failed.frame key').trans hf'

/-- Every step keeps the invariant. -/
theorem Framed.step (hs : Framed s) (htracked : Tracked s) (hslot : Slotted s)
    (h : (system maxPublishAttempts).step s l = some t) : Framed t := by
  have hsame {u : State} := @sameFrames s u
  cases act_of_step h with
  | begin hpc _ _ | attempt hpc | acquire hpc _ | notReady hpc | index hpc _ | acquireUncond hpc _
  | discard hpc =>
    exact hs.same_goto (hsame rfl rfl rfl rfl rfl rfl) nofun trivial
  | move hpc hmoves =>
    refine hs.goto hmoves.not_sending (hmoves.claims ?_)
    rw [← hpc]
    exact hs.claims _
  | snapshot hpc hkey hp =>
    exact hs.same_goto (sameFrames_snapshot (by rw [hp])) nofun trivial
  | store hpc => exact hs.store hslot hpc
  | @send c e key r f pc' hpc hf hpc' =>
    have hsent : Framed { s.setChannel key.generation ((s.channels key.generation).publish f r) with
        publishSerial := none } := by
      cases r with
      | ok => exact hs.sent htracked hslot hpc (by rw [hf]) (by rw [hf])
      | failed drew => exact hs.of_same sameFrames_failed
    rcases hpc' with rfl | rfl <;> exact hsent.goto nofun trivial
  | succeed hpc ha hack hreturned => exact hs.succeed htracked hpc ha hack hreturned
  | @unroutable c e key a hpc ha _ =>
    have hlog : Framed (s.log (.unroutable c)) := hs.log trivial
    exact @same_goto (s.log (.unroutable c)) _ _ _ hlog
      (sameFrames_setEntry rfl rfl nofun) nofun trivial
  | nacked hpc ha =>
    exact hs.same_goto (sameFrames_setEntry rfl rfl nofun) nofun
      trivial
  | retry hpc hcall hpc' =>
    rcases hpc' with rfl | ⟨rfl, -⟩ <;>
      exact hs.same_goto (hsame rfl rfl rfl rfl rfl rfl) nofun trivial
  | take hpc he => exact hs.take hpc he
  | @unindex th key e by' pendingMandatory hpc hindex =>
    refine hs.same_goto (hsame rfl rfl rfl rfl rfl rfl) (fun _ _ h ↦ ?_) (untracked_claims _ ?_)
    · cases by' <;> contradiction
    · rw [← hpc]
      exact hs.claims th
  | answer hpc hp => exact hs.answer htracked hpc hp
  | brokerConfirm hf hch => exact hs.brokerConfirm hf hch
  | @brokerReturn key replyCode replyText f ch hf _ hch =>
    have hlog : Framed (s.log (.returned key)) := hs.log trivial
    subst hch
    exact hlog.of_same (sameFrames_setChannel rfl le_rfl fun _ h ↦ h)
  | @takeReturn _ g next ret rest hpc hreturns =>
    have hreturn : SameFrames s (s.setChannel g { s.channels g with returns := rest }) :=
      sameFrames_setChannel rfl le_rfl fun _ h ↦ h
    refine hs.same_goto hreturn nofun (hreturn.extends.claims ?_)
    have hclaims := hs.claims (.dispatcher g)
    rcases hpc with ⟨-, rfl⟩ | hpc
    · trivial
    · rw [hpc] at hclaims
      exact recording_claims hclaims
  | @takeConfirm g confirm rest hpc hconfirms =>
    have hconfirm : SameFrames s (s.setChannel g { s.channels g with confirms := rest }) := by
      refine sameFrames_setChannel rfl le_rfl ?_
      rw [hconfirms]
      exact subset_cons_self ..
    refine hs.same_goto hconfirm nofun (hconfirm.extends.claims fun g' hg' ↦ ?_)
    cases hg'
    exact hs.confirms g confirm (by rw [hconfirms]; exact mem_cons_self)
  | @attach g e ret next hpc =>
    have hentry : SameFrames s (s.setEntry e { s.entries e with returned := some ret }) :=
      sameFrames_setEntry rfl rfl fun _ h ↦ h
    have hclaims := hs.claims (.dispatcher g)
    rw [hpc] at hclaims
    refine hs.same_goto hentry (fun _ _ h ↦ ?_) (hentry.extends.claims (again_claims hclaims))
    cases next <;> contradiction
  | install hpc =>
    refine .goto ?_ nofun trivial
    exact hs.same_goto (hsame rfl rfl rfl rfl rfl rfl) nofun trivial
  | environment => exact hs.of_same (hsame rfl rfl rfl rfl rfl rfl)

/-- The invariant holds along every run. -/
theorem framed_of_reachable (hs : (system maxPublishAttempts).Reachable s) : Framed s := by
  refine hs.invariant ?_ fun _ _ _ hr _ hframed h ↦
    hframed.step (tracked_of_reachable hr) (slotted_of_reachable hr) h
  rintro s rfl
  exact ⟨fun _ ↦ trivial, nofun, nofun,
    nofun, nofun, nofun,
    nofun⟩

/-! ### Attempts -/

/-- The attempts of a call against its retries, by where the call stands. -/
def Counted (maxPublishAttempts : ℤ) (call : Call) : Pc → Prop
  | .idle => call.attempts = 0
  | .guarding => call.attempts = call.retryCount ∧ (call.retryCount : ℤ) < maxPublishAttempts
  | .ended _ => (call.attempts : ℤ) ≤ maxPublishAttempts
  | _ => call.attempts = call.retryCount + 1 ∧ (call.retryCount : ℤ) < maxPublishAttempts

/-- No call publishes more often than it may. -/
theorem Counted.attempts_le {call : Call} (hpos : 0 < maxPublishAttempts)
    (h : Counted maxPublishAttempts call pc) : (call.attempts : ℤ) ≤ maxPublishAttempts := by
  cases pc with
  | idle =>
    rw [show call.attempts = 0 from h]
    omega
  | guarding =>
    obtain ⟨heq, hlt⟩ := h
    omega
  | ended r => exact h
  | _ =>
    obtain ⟨heq, hlt⟩ := h
    omega

theorem Moves.counted {call : Call} (h : Moves s (.call c) pc pc') (hpos : 0 < maxPublishAttempts)
    (hcounted : Counted maxPublishAttempts call pc) : Counted maxPublishAttempts call pc' := by
  cases h with
  | guardAbort | acquireAbort => exact hcounted.attempts_le hpos
  | timeout | cancel => exact hcounted
  | @missing _ key by' hnone =>
    cases by' with
    | abort e => exact hcounted.attempts_le hpos
    | _ => exact hcounted

/-- Every call is within its attempts. -/
def State.Counted (maxPublishAttempts : ℤ) (s : State) : Prop :=
  ∀ c, Amqp.Counted maxPublishAttempts (s.calls c) (s.threads (.call c))

theorem State.Counted.goto (hs : s.Counted maxPublishAttempts) (hcalls : u.calls = s.calls)
    (hthreads : u.threads = s.threads)
    (h : ∀ c, th = .call c → Amqp.Counted maxPublishAttempts (s.calls c) pc') :
    (u.goto th pc').Counted maxPublishAttempts := by
  intro c
  change Amqp.Counted _ (u.calls c) _
  rw [hcalls]
  rcases threads_goto u th pc' (.call c) with heq | ⟨hc, heq⟩
  · rw [heq, hthreads]
    exact hs c
  · rw [heq]
    exact h c hc.symm

/-- A call goes on inside an attempt. -/
theorem State.Counted.goto_call (hs : s.Counted maxPublishAttempts) (hcalls : u.calls = s.calls)
    (hthreads : u.threads = s.threads)
    (h : Amqp.Counted maxPublishAttempts (s.calls c) (s.threads (.call c)) →
      Amqp.Counted maxPublishAttempts (s.calls c) pc') :
    (u.goto (.call c) pc').Counted maxPublishAttempts := by
  refine hs.goto hcalls hthreads fun c' hc' ↦ ?_
  cases hc'
  exact h (hs c)

/-- A call moves and its own record changes. -/
theorem State.Counted.setCall {call : Call} (hs : s.Counted maxPublishAttempts)
    (h : Amqp.Counted maxPublishAttempts call pc') :
    ((s.setCall c call).goto (.call c) pc').Counted maxPublishAttempts := by
  intro c'
  change Amqp.Counted _ (update s.calls c call c')
    (update s.threads (.call c) pc' (.call c'))
  by_cases heq : c' = c
  · subst heq
    rw [update_self, update_self]
    exact h
  · rw [update_of_ne heq, update_of_ne fun h ↦ heq (Thread.call.inj h)]
    exact hs c'

/-- Every step keeps the count. -/
theorem State.Counted.step (hs : s.Counted maxPublishAttempts) (hpos : 0 < maxPublishAttempts)
    (h : (system maxPublishAttempts).step s l = some t) : t.Counted maxPublishAttempts := by
  cases act_of_step h with
  | begin hpc _ _ => exact hs.setCall ⟨rfl, hpos⟩
  | move hpc hmoves =>
    refine hs.goto rfl rfl fun c hc ↦ ?_
    subst hc
    exact hmoves.counted hpos (hpc ▸ hs c)
  | @attempt c hpc =>
    have hc := hs c
    rw [hpc] at hc
    exact hs.setCall ⟨congrArg (· + 1) hc.1, hc.2⟩
  | acquire hpc _ | snapshot hpc _ _ | index hpc _ | store hpc | unroutable hpc _ _
  | nacked hpc _ =>
    exact hs.goto_call rfl rfl fun h ↦ by rwa [hpc] at h
  | notReady hpc | succeed hpc _ _ _ => exact hs.goto_call rfl rfl fun h ↦ h.attempts_le hpos
  | send hpc _ hpc' =>
    rcases hpc' with rfl | rfl <;> exact hs.goto_call rfl rfl fun h ↦ by rwa [hpc] at h
  | @retry c cause call abort pc' hpc hcall hpc' =>
    have hc := hs c
    rw [hpc] at hc
    rcases hpc' with rfl | ⟨rfl, hlt⟩
    · have hle : ((s.calls c).attempts : ℤ) ≤ maxPublishAttempts := hc.attempts_le hpos
      exact hs.setCall (by rw [hcall]; exact hle)
    · refine hs.setCall ⟨?_, hlt hpos⟩
      rw [hcall]
      exact hc.1
  | take hpc _ =>
    refine hs.goto rfl rfl fun c hc ↦ ?_
    subst hc
    have := hs c
    rwa [hpc] at this
  | @unindex th key e by' _ hpc _ | @answer th key e by' _ hpc _ =>
    refine hs.goto rfl rfl fun c hc ↦ ?_
    subst hc
    have hc := hs c
    rw [hpc] at hc
    cases by' with
    | abort e => exact hc.attempts_le hpos
    | _ => exact hc
  | brokerConfirm _ _ | brokerReturn _ _ _ | environment => exact hs
  | takeReturn _ _ | takeConfirm _ _ | attach _ | acquireUncond _ _ | discard _ =>
    exact hs.goto rfl rfl nofun
  | install hpc =>
    refine .goto ?_ rfl rfl nofun
    exact hs.goto rfl rfl nofun

/-- The count is kept along every run. -/
theorem counted_of_reachable (hpos : 0 < maxPublishAttempts)
    (hs : (system maxPublishAttempts).Reachable s) : s.Counted maxPublishAttempts := by
  refine hs.invariant ?_ fun _ _ _ _ _ hcounted h ↦ hcounted.step hpos h
  rintro s rfl
  exact fun _ ↦ rfl

/-! ### The result -/

/-- **Confirmations are correlated.** In every run: a call returns nil only on the broker's ACK of a
frame that the call itself sent; a confirmation answers only the publish whose frame it confirms; an
entry is answered at most once; an entry is among the pending publishes only while its own attempt
is running, and the same holds of the index of the Mandatory entries, up to the step that takes an
entry out of it, if no publish was stored under a key that another one still held; and a call makes
no more attempts than it may. -/
theorem confirm_correlation (hs : (system maxPublishAttempts).Reachable s) :
    (∀ c key, s.threads (.call c) = .ended (.ok key) →
      ∃ f, s.frame key = some f ∧ f.call = c ∧ .confirmed key true ∈ s.history) ∧
    (∀ e key, .answered e (some key) ∈ s.history → ∃ f, s.frame key = some f ∧ f.entry = e) ∧
    s.answered.Nodup ∧
    ((∀ key e, s.pendingPublishes key = some e →
      (s.threads (.call (s.entries e).call)).attempt = some (key, e)) ∧
    ((system maxPublishAttempts).Reach (fun s l ↦ s.untangled l = true) s →
      ∀ mkey e, s.pendingMandatory mkey = some e → s.Running e ∨ s.Unindexing e)) ∧
    (0 < maxPublishAttempts → ∀ c, ((s.calls c).attempts : ℤ) ≤ maxPublishAttempts) := by
  have htracked := tracked_of_reachable hs
  have hframed := framed_of_reachable hs
  refine ⟨fun c key hpc ↦ ?_, fun e key hev ↦ hframed.events _ hev, htracked.once,
    ⟨fun key e he ↦ (htracked.pending key e he).1, fun huntangled mkey e he ↦ ?_⟩,
    fun hpos c ↦ ?_⟩
  · have hclaims := hframed.claims (.call c)
    rw [hpc] at hclaims
    obtain ⟨hconfirmed, f, hf, hcall⟩ := hframed.events _ (hclaims c rfl)
    exact ⟨f, hf, hcall, hconfirmed.2⟩
  · exact ((paired_of_reach huntangled).index mkey e he).imp_left And.right
  · exact (counted_of_reachable hpos hs c).attempts_le hpos

/-- Two Mandatory calls share a generation; one is confirmed, the other is swept by a rotation and
publishes again, and the confirmation of its first frame comes late. -/
theorem confirm_correlation_after_rotation :
    ∃ s, (system 3).Reachable s ∧ s.threads (.call 1) = .ended (.ok ⟨1, 2⟩) ∧
      s.pendingPublishes ⟨2, 1⟩ = some 2 ∧ s.pendingMandatory ⟨2, "a"⟩ = some 2 ∧
      .confirmed ⟨1, 1⟩ true ∈ s.history ∧
      (∃ f, s.frame ⟨1, 2⟩ = some f ∧ f.call = 1 ∧ .confirmed ⟨1, 2⟩ true ∈ s.history) ∧
      (s.threads (.call (s.entries 2).call)).attempt = some (⟨2, 1⟩, 2) ∧
      (s.Running 2 ∨ s.Unindexing 2) ∧ ((s.calls 0).attempts : ℤ) ≤ 3 := by
  obtain ⟨s, hrun, hended, hpending, hmandatory, hlate⟩ :
      ∃ s, ((system 3).restrict fun s l ↦ s.untangled l = true).run {}
        [.rotate, .acquireUncond, .swept, .install, .ready true,
        .begin 0 true "a" "x", .guard 0 false, .acquire 0 false, .snapshot 0, .index 0, .store 0,
        .send 0 .ok, .begin 1 true "b" "y", .guard 1 false, .acquire 1 false, .snapshot 1, .index 1,
        .store 1, .send 1 .ok,
        .brokerConfirm ⟨1, 2⟩ true, .takeConfirm 1, .drain 1, .untrack (.dispatcher 1),
        .unindex (.dispatcher 1), .answer (.dispatcher 1), .receive 1,
        .rotate, .acquireUncond, .sweep 1, .untrack .reconnect, .unindex .reconnect,
        .answer .reconnect, .swept, .install, .receive 0, .retry 0 false,
        .brokerConfirm ⟨1, 1⟩ true, .guard 0 false, .acquire 0 false, .snapshot 0, .index 0,
        .store 0, .send 0 .ok, .takeConfirm 1, .drain 1, .untrack (.dispatcher 1)] = some s ∧
      s.threads (.call 1) = .ended (.ok ⟨1, 2⟩) ∧ s.pendingPublishes ⟨2, 1⟩ = some 2 ∧
      s.pendingMandatory ⟨2, "a"⟩ = some 2 ∧ .confirmed ⟨1, 1⟩ true ∈ s.history :=
    ⟨_, rfl, by decide, by decide, by decide, by decide⟩
  have huntangled : (system 3).Reach (fun s l ↦ s.untangled l = true) s :=
    .of_restrict (StepSystem.reach_of_run (.init rfl) hrun)
  obtain ⟨hnil, -, -, ⟨hstored, hindexed⟩, hattempts⟩ := confirm_correlation huntangled.reachable
  exact ⟨s, huntangled.reachable, hended, hpending, hmandatory, hlate, hnil 1 _ hended,
    hstored _ _ hpending, hindexed huntangled _ _ hmandatory, hattempts (by decide) 0⟩

/-- A Mandatory publish fails without a tag, and another one is stored under its key before it is
untracked. It then removes the other's registration: the ACK of the other is dropped, both calls end
without success, and the first stays in the index. -/
theorem failed_publish_untracks_next :
    ∃ s, (system 1).Reachable s ∧ s.pendingMandatory ⟨1, "a"⟩ = some 0 ∧ (s.entries 0).call = 0 ∧
      s.threads (.call 0) = .ended (.failed (some .publishError)) ∧
      s.threads (.call 1) = .ended (.failed (some .confirmTimeout)) ∧
      ¬s.Running 0 ∧ ¬s.Unindexing 0 ∧
      .confirmed ⟨1, 1⟩ true ∈ s.history ∧ s.answered = [] := by
  obtain ⟨s, hrun, hindex, hcall, h₀, h₁, hothers, hconfirmed, hanswered⟩ :
      ∃ s, (system 1).run {} [.rotate, .acquireUncond, .swept, .install, .ready true,
        .begin 0 true "a" "x", .guard 0 false, .acquire 0 false, .snapshot 0, .index 0, .store 0,
        .send 0 (.failed false), .begin 1 true "b" "y", .guard 1 false, .acquire 1 false,
        .snapshot 1, .index 1, .store 1, .untrack (.call 0), .unindex (.call 0), .retry 0 true,
        .send 1 .ok, .brokerConfirm ⟨1, 1⟩ true, .takeConfirm 1, .drain 1, .untrack (.dispatcher 1),
        .giveUp 1 true, .untrack (.call 1), .retry 1 true] = some s ∧
      s.pendingMandatory ⟨1, "a"⟩ = some 0 ∧ (s.entries 0).call = 0 ∧
      s.threads (.call 0) = .ended (.failed (some .publishError)) ∧
      s.threads (.call 1) = .ended (.failed (some .confirmTimeout)) ∧
      (∀ th, th ≠ .call 0 → th ≠ .call 1 → s.threads th = .idle ∨ s.threads th = .selecting) ∧
      .confirmed ⟨1, 1⟩ true ∈ s.history ∧ s.answered = [] := by
    refine ⟨_, rfl, by decide, by decide, by decide, by decide, ?_, by decide, by decide⟩
    rintro ((_ | _ | c) | (_ | _ | g) | _) h₀ h₁
    · exact absurd rfl h₀
    · exact absurd rfl h₁
    · exact .inl rfl
    · exact .inl rfl
    · exact .inr rfl
    · exact .inl rfl
    · exact .inl rfl
  refine ⟨s, StepSystem.reach_of_run (.init rfl) hrun, hindex, hcall, h₀, h₁, ?_, ?_, hconfirmed,
    hanswered⟩
  · rw [State.Running, hcall, h₀]
    intro h
    cases h
  · rintro ⟨th, by', h⟩
    by_cases hth₀ : th = .call 0
    · cases (hth₀ ▸ h₀).symm.trans h
    by_cases hth₁ : th = .call 1
    · cases (hth₁ ▸ h₁).symm.trans h
    rcases hothers th hth₀ hth₁ with hidle | hselecting
    · cases hidle.symm.trans h
    · cases hselecting.symm.trans h

end Amqp
