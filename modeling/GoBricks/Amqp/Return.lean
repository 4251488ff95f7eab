import GoBricks.Amqp.Confirm

/-!
# Where a recorded return comes from

A return carries a message id and no delivery tag. Whatever ends up as a return on an entry, in an
answer or in a classification began as a return of the broker of some frame with the entry's message
id (`Origins`). Nothing is assumed of the message ids here; the call the frame belongs to need not
be the call that made the entry.
-/

namespace Amqp

variable {maxPublishAttempts : ℤ} {s t u : State} {l : Label} {th : Thread} {pc pc' : Pc}

/-- The message id the entries of a call are indexed by; empty unless the call is Mandatory. -/
def Call.indexID (call : Call) : String :=
  if call.mandatory then call.messageID else ""

/-- The broker has returned a frame with the message id. -/
def Returned (s : State) (id : String) : Prop :=
  ∃ key f, s.frame key = some f ∧ f.mandatory = true ∧ f.messageID = id ∧
    .returned key ∈ s.history

/-- What is known of the return a dispatcher is recording. -/
def Carries (s : State) : Pc → Prop
  | .recording ret _ => Returned s ret.messageID
  | .attaching ret e _ =>
    Returned s ret.messageID ∧ e < s.nextEntry ∧ (s.entries e).messageID = ret.messageID
  | _ => True

/-- Calls, entries and frames carry the ids of the calls they come from. -/
structure Origins (s : State) : Prop where
  call : ∀ c, s.threads (.call c) ≠ .idle → (s.calls c).messageID ≠ ""
  entry : ∀ e < s.nextEntry, s.threads (.call (s.entries e).call) ≠ .idle ∧
    (s.entries e).messageID = (s.calls (s.entries e).call).indexID
  frame : ∀ key f, s.frame key = some f → s.threads (.call f.call) ≠ .idle ∧
    f.mandatory = (s.calls f.call).mandatory ∧ f.messageID = (s.calls f.call).messageID
  index : ∀ mkey e, s.pendingMandatory mkey = some e →
    e < s.nextEntry ∧ (s.entries e).messageID = mkey.messageID
  carries : ∀ th, Carries s (s.threads th)
  returns : ∀ g, ∀ ret ∈ (s.channels g).returns, Returned s ret.messageID
  attached : ∀ e, (s.entries e).returned ≠ none → Returned s (s.entries e).messageID
  answers : ∀ e a, (s.entries e).confirm = some a → a.returned ≠ none →
    Returned s (s.entries e).messageID
  events : ∀ c, .unroutable c ∈ s.history →
    s.threads (.call c) ≠ .idle ∧ Returned s (s.calls c).indexID

theorem Returned.mono {id : String} (h : Returned s id)
    (hframe : ∀ key f, s.frame key = some f → t.frame key = some f)
    (hhistory : ∀ ev ∈ s.history, ev ∈ t.history) : Returned t id := by
  obtain ⟨key, f, hf, hmandatory, hid, hev⟩ := h
  exact ⟨key, f, hframe key f hf, hmandatory, hid, hhistory _ hev⟩

theorem Carries.mono (h : Carries s pc) (hreturned : ∀ {id}, Returned s id → Returned t id)
    (hentry : ∀ e < s.nextEntry, e < t.nextEntry ∧
      (t.entries e).messageID = (s.entries e).messageID) : Carries t pc := by
  cases pc with
  | recording ret next => exact hreturned h
  | attaching ret e next =>
    obtain ⟨hlt, hid⟩ := hentry e h.2.1
    exact ⟨hreturned h.1, hlt, hid.trans h.2.2⟩
  | _ => trivial

/-- The part of the state that the origin of returns depends on does not change, or shrinks. -/
structure SameOrigins (s u : State) : Prop where
  threads : u.threads = s.threads
  frame : ∀ key, u.frame key = s.frame key
  history : u.history = s.history
  nextEntry : u.nextEntry = s.nextEntry
  mandatory : ∀ c, (u.calls c).mandatory = (s.calls c).mandatory
  callID : ∀ c, (u.calls c).messageID = (s.calls c).messageID
  call : ∀ e, (u.entries e).call = (s.entries e).call
  entryID : ∀ e, (u.entries e).messageID = (s.entries e).messageID
  returned : ∀ e, (u.entries e).returned = (s.entries e).returned
  confirm : ∀ e a, (u.entries e).confirm = some a → (s.entries e).confirm = some a
  index : ∀ mkey e, u.pendingMandatory mkey = some e → s.pendingMandatory mkey = some e
  returns : ∀ g, (u.channels g).returns ⊆ (s.channels g).returns

/-- Only the slot, the pending publishes, the generation or the client's flags change. -/
theorem sameOrigins (hthreads : u.threads = s.threads) (hchannels : u.channels = s.channels)
    (hhistory : u.history = s.history) (hnext : u.nextEntry = s.nextEntry)
    (hcalls : u.calls = s.calls) (hentries : u.entries = s.entries)
    (hindex : u.pendingMandatory = s.pendingMandatory) : SameOrigins s u where
  threads := hthreads
  frame key := by rw [State.frame, State.frame, hchannels]
  history := hhistory
  nextEntry := hnext
  mandatory _ := by rw [hcalls]
  callID _ := by rw [hcalls]
  call _ := by rw [hentries]
  entryID _ := by rw [hentries]
  returned _ := by rw [hentries]
  confirm _ _ h := by rwa [hentries] at h
  index _ _ h := by rwa [hindex] at h
  returns _ _ h := by rwa [hchannels] at h

/-- A change of an entry that keeps its ids. -/
theorem sameOrigins_setEntry {e : ℕ} {p : Pending} (hcall : p.call = (s.entries e).call)
    (hid : p.messageID = (s.entries e).messageID) (hreturned : p.returned = (s.entries e).returned)
    (hconfirm : ∀ a, p.confirm = some a → (s.entries e).confirm = some a) :
    SameOrigins s (s.setEntry e p) where
  threads := rfl
  frame _ := rfl
  history := rfl
  nextEntry := rfl
  mandatory _ := rfl
  callID _ := rfl
  call _ := by grind
  entryID _ := by grind
  returned _ := by grind
  confirm _ _ := by grind
  index _ _ h := h
  returns _ _ h := h

/-- A change of a channel that adds no return. -/
theorem sameOrigins_setChannel {g : ℕ} {ch : Channel} (hframes : ch.frames = (s.channels g).frames)
    (hreturns : ch.returns ⊆ (s.channels g).returns) : SameOrigins s (s.setChannel g ch) where
  threads := rfl
  frame := frame_setChannel hframes
  history := rfl
  nextEntry := rfl
  mandatory _ := rfl
  callID _ := rfl
  call _ := rfl
  entryID _ := rfl
  returned _ := rfl
  confirm _ _ h := h
  index _ _ h := h
  returns _ := by grind

/-- A change of a call that keeps its ids. -/
theorem sameOrigins_setCall {c : ℕ} {call : Call}
    (hmandatory : call.mandatory = (s.calls c).mandatory)
    (hid : call.messageID = (s.calls c).messageID) : SameOrigins s (s.setCall c call) where
  threads := rfl
  frame _ := rfl
  history := rfl
  nextEntry := rfl
  mandatory _ := by grind
  callID _ := by grind
  call _ := rfl
  entryID _ := rfl
  returned _ := rfl
  confirm _ _ h := h
  index _ _ h := h
  returns _ _ h := h

theorem SameOrigins.mono {id : String} (h : SameOrigins s u) (hid : Returned s id) :
    Returned u id :=
  hid.mono (fun key f hf ↦ (h.frame key).trans hf) fun ev hev ↦ by rwa [h.history]

theorem SameOrigins.indexID (h : SameOrigins s u) (c : ℕ) :
    (u.calls c).indexID = (s.calls c).indexID := by
  rw [Call.indexID, Call.indexID, h.mandatory, h.callID]

theorem SameOrigins.carries (h : SameOrigins s u) (hpc : Carries s pc) : Carries u pc :=
  hpc.mono h.mono fun e he ↦ ⟨h.nextEntry ▸ he, h.entryID e⟩

namespace Origins

/-- A step of this kind keeps the invariant. -/
theorem of_same (hs : Origins s) (h : SameOrigins s u) : Origins u where
  call c hc := by
    rw [h.threads] at hc
    rw [h.callID]
    exact hs.call c hc
  entry e he := by
    rw [h.nextEntry] at he
    rw [h.threads, h.call, h.entryID, h.indexID]
    exact hs.entry e he
  frame key f hf := by
    rw [h.frame] at hf
    rw [h.threads, h.mandatory, h.callID]
    exact hs.frame key f hf
  index mkey e he := by
    rw [h.nextEntry, h.entryID]
    exact hs.index mkey e (h.index mkey e he)
  carries th := by
    rw [h.threads]
    exact h.carries (hs.carries th)
  returns g ret hret := h.mono (hs.returns g ret (h.returns g hret))
  attached e he := by
    rw [h.returned] at he
    rw [h.entryID]
    exact h.mono (hs.attached e he)
  answers e a ha hreturned := by
    rw [h.entryID]
    exact h.mono (hs.answers e a (h.confirm e a ha) hreturned)
  events c hc := by
    rw [h.history] at hc
    rw [h.threads, h.indexID]
    exact (hs.events c hc).imp_right h.mono

/-- A thread moves; a call does not become idle. -/
theorem goto (hs : Origins s) (hbegun : s.threads th ≠ .idle ∧ pc' ≠ .idle ∨ ∀ c, th ≠ .call c)
    (hcarries : Carries s pc') : Origins (s.goto th pc') := by
  have hidle (c : ℕ) : (s.goto th pc').threads (.call c) = .idle ↔ s.threads (.call c) = .idle := by
    rcases threads_goto s th pc' (.call c) with heq | ⟨rfl, heq⟩
    · rw [heq]
    · rw [heq]
      rcases hbegun with ⟨hne, hne'⟩ | hother
      · exact iff_of_false hne' hne
      · exact absurd rfl (hother c)
  exact {
    call := fun c hc ↦ hs.call c fun h ↦ hc ((hidle c).2 h)
    entry := fun e he ↦ (hs.entry e he).imp_left fun h h' ↦ h ((hidle _).1 h')
    frame := fun key f hf ↦ (hs.frame key f hf).imp_left fun h h' ↦ h ((hidle _).1 h')
    index := hs.index
    carries := (Function.forall_update_iff _ fun _ (pc : Pc) ↦ Carries s pc).2
      ⟨hcarries, fun th' _ ↦ hs.carries th'⟩
    returns := hs.returns
    attached := hs.attached
    answers := hs.answers
    events := fun c hc ↦ (hs.events c hc).imp_left fun h h' ↦ h ((hidle _).1 h') }

theorem same_goto (hs : Origins s) (h : SameOrigins s u)
    (hbegun : u.threads th ≠ .idle ∧ pc' ≠ .idle ∨ ∀ c, th ≠ .call c) (hcarries : Carries u pc') :
    Origins (u.goto th pc') :=
  (hs.of_same h).goto hbegun hcarries

/-- An event other than a classification is recorded. -/
theorem log {ev : Event} (hs : Origins s) (hev : ∀ c, ev = .unroutable c →
    s.threads (.call c) ≠ .idle ∧ Returned s (s.calls c).indexID) : Origins (s.log ev) := by
  have hmono {id : String} (h : Returned s id) : Returned (s.log ev) id :=
    h.mono (fun _ _ h ↦ h) fun _ h ↦ List.mem_cons_of_mem _ h
  exact {
    call := hs.call
    entry := hs.entry
    frame := hs.frame
    index := hs.index
    carries := fun th ↦ (hs.carries th).mono hmono fun _ he ↦ ⟨he, rfl⟩
    returns := fun g ret hret ↦ hmono (hs.returns g ret hret)
    attached := fun e he ↦ hmono (hs.attached e he)
    answers := fun e a ha h ↦ hmono (hs.answers e a ha h)
    events := fun c hc ↦ by
      rcases List.mem_cons.1 hc with heq | hold
      · exact (hev c heq.symm).imp_right hmono
      · exact (hs.events c hold).imp_right hmono }

/-- A call begins. It has no entries and no frames yet. -/
theorem begin {c : ℕ} {call : Call} (hs : Origins s) (hpc : s.threads (.call c) = .idle)
    (hid : call.messageID ≠ "") : Origins ((s.setCall c call).goto (.call c) .guarding) := by
  set t := (s.setCall c call).goto (.call c) .guarding
  have hcalls (c' : ℕ) : t.calls c' = if c' = c then call else s.calls c' := calls_setCall ..
  have hthreads := threads_goto (s.setCall c call) (.call c) .guarding
  have hbegun {c' : ℕ} (h : s.threads (.call c') ≠ .idle) :
      t.threads (.call c') ≠ .idle ∧ t.calls c' = s.calls c' := by
    rcases hthreads (.call c') with heq | ⟨hc, -⟩
    · exact ⟨heq ▸ h, (hcalls c').trans (if_neg (by rintro rfl; exact h hpc))⟩
    · exact absurd (hc ▸ hpc) h
  refine ⟨fun c' hc' ↦ ?_, fun e he ↦ ?_, fun key f hf ↦ ?_, hs.index, ?_, hs.returns, hs.attached,
    hs.answers, fun c' hc' ↦ ?_⟩
  · rw [hcalls]
    split
    · exact hid
    · next hne =>
      refine hs.call c' fun hidle ↦ hc' ?_
      exact ((hthreads (.call c')).resolve_right fun h ↦ hne (Thread.call.inj h.1)).trans hidle
  · obtain ⟨hnot, hentry⟩ := hs.entry e he
    exact ⟨(hbegun hnot).1, hentry.trans (congrArg Call.indexID (hbegun hnot).2.symm)⟩
  · obtain ⟨hnot, hframe⟩ := hs.frame key f hf
    rw [(hbegun hnot).2]
    exact ⟨(hbegun hnot).1, hframe⟩
  · exact (Function.forall_update_iff _ fun _ (pc : Pc) ↦ Carries t pc).2
      ⟨trivial, fun th' _ ↦ hs.carries th'⟩
  · obtain ⟨hnot, hreturned⟩ := hs.events c' hc'
    rw [(hbegun hnot).2]
    exact ⟨(hbegun hnot).1, hreturned⟩

/-- A fresh entry is made. -/
theorem snapshot {c : ℕ} {p : Pending} (hs : Origins s) (hpc : s.threads (.call c) ≠ .idle)
    (hid : p.messageID = (s.calls c).indexID) (hcall : p.call = c) (hconfirm : p.confirm = none)
    (hreturned : p.returned = none) :
    Origins ({ s with nextEntry := s.nextEntry + 1 }.setEntry s.nextEntry p) := by
  set t := { s with nextEntry := s.nextEntry + 1 }.setEntry s.nextEntry p
  have hself : t.entries s.nextEntry = p := Function.update_self ..
  have hlt {e : ℕ} (he : e < s.nextEntry) : e < t.nextEntry ∧ t.entries e = s.entries e :=
    ⟨Nat.lt_succ_of_lt he, by grind⟩
  refine ⟨hs.call, fun e he ↦ ?_, hs.frame, fun mkey e he ↦ ?_,
    fun th ↦ (hs.carries th).mono (fun h ↦ h) fun e he ↦ (hlt he).imp_right (congrArg _),
    hs.returns, fun e he ↦ ?_, fun e a ha h ↦ ?_, hs.events⟩
  · rcases Nat.lt_succ_iff_lt_or_eq.1 he with hold | rfl
    · rw [(hlt hold).2]
      exact hs.entry e hold
    · rw [hself, hcall]
      exact ⟨hpc, hid⟩
  · obtain ⟨hold, hmkey⟩ := hs.index mkey e he
    exact ⟨(hlt hold).1, (congrArg _ (hlt hold).2).trans hmkey⟩
  · have hattached : Returned s (t.entries e).messageID := by
      have hold := hs.attached e
      grind
    exact hattached
  · have hanswers : Returned s (t.entries e).messageID := by
      have hold := hs.answers e a
      grind
    exact hanswers

/-- The entry of an attempt is indexed by its message id. -/
theorem index_entry {c e : ℕ} {key : ConfirmKey} {pendingMandatory : MandatoryKey → Option ℕ}
    (hs : Origins s) (htracked : Tracked s) (hpc : s.threads (.call c) = .indexing key e)
    (hindex : pendingMandatory = if (s.entries e).messageID ≠ "" then
      Function.update s.pendingMandatory ⟨key.generation, (s.entries e).messageID⟩ (some e)
      else s.pendingMandatory) : Origins { s with pendingMandatory := pendingMandatory } := by
  obtain ⟨-, -, hlt⟩ := htracked.attempt (.call c) key e (by rw [hpc]; rfl)
  refine ⟨hs.call, hs.entry, hs.frame, ?_, hs.carries, hs.returns, hs.attached, hs.answers,
    hs.events⟩
  rw [hindex]
  split
  · refine (Function.forall_update_iff _ fun (mkey : MandatoryKey) (o : Option ℕ) ↦ ∀ e',
      o = some e' → e' < s.nextEntry ∧ (s.entries e').messageID = mkey.messageID).2
        ⟨fun e' he' ↦ ?_, fun mkey _ ↦ hs.index mkey⟩
    cases he'
    exact ⟨hlt, rfl⟩
  · exact hs.index

/-- The broker gets the frame of a call. -/
theorem sent {c : ℕ} {key : ConfirmKey} {f : Frame} (hs : Origins s)
    (hpc : s.threads (.call c) ≠ .idle) (htag : key.tag = (s.channels key.generation).published + 1)
    (hnone : s.frame key = none)
    (hf : f.call = c ∧ f.mandatory = (s.calls c).mandatory ∧ f.messageID = (s.calls c).messageID) :
    Origins (s.setChannel key.generation ((s.channels key.generation).publish f .ok)) := by
  set t := s.setChannel key.generation ((s.channels key.generation).publish f .ok)
  have hframe (key' : ConfirmKey) : t.frame key' = if key' = key then some f else s.frame key' :=
    frame_publish htag key'
  have hmono {id : String} (h : Returned s id) : Returned t id := by
    refine h.mono (fun key' f' hf' ↦ ?_) fun _ h ↦ h
    rw [hframe, if_neg, hf']
    rintro rfl
    exact nomatch hnone.symm.trans hf'
  have hreturns (g : ℕ) : ∀ ret ∈ (t.channels g).returns, ret ∈ (s.channels g).returns := by
    grind
  refine ⟨hs.call, hs.entry, fun key' f' hf' ↦ ?_, hs.index,
    fun th ↦ (hs.carries th).mono hmono fun _ he ↦ ⟨he, rfl⟩,
    fun g ret hret ↦ hmono (hs.returns g ret (hreturns g ret hret)),
    fun e he ↦ hmono (hs.attached e he), fun e a ha h ↦ hmono (hs.answers e a ha h),
    fun c' hc' ↦ (hs.events c' hc').imp_right hmono⟩
  · rw [hframe] at hf'
    split at hf'
    · cases hf'
      rw [hf.1]
      exact ⟨hpc, hf.2⟩
    · exact hs.frame key' f' hf'

/-- The broker returns a frame. -/
theorem brokerReturn {key : ConfirmKey} {replyCode : ℕ} {replyText : String} {f : Frame}
    {ch : Channel} (hs : Origins s) (hf : s.frame key = some f) (hmandatory : f.mandatory = true)
    (hch : ch = { s.channels key.generation with
      returns := (s.channels key.generation).returns ++ [⟨replyCode, replyText, f.messageID⟩] }) :
    Origins ((s.setChannel key.generation ch).log (.returned key)) := by
  have hlog : Origins (s.log (.returned key)) := hs.log nofun
  set t := (s.setChannel key.generation ch).log (.returned key)
  have hframe (key' : ConfirmKey) : t.frame key' = s.frame key' :=
    frame_setChannel (by rw [hch]) key'
  have hreturned : Returned t f.messageID :=
    ⟨key, f, (hframe key).trans hf, hmandatory, rfl, List.mem_cons_self⟩
  have hmono {id : String} (h : Returned (s.log (.returned key)) id) : Returned t id :=
    h.mono (fun key' f' hf' ↦ (hframe key').trans hf') fun _ h ↦ h
  refine ⟨hlog.call, hlog.entry, fun key' f' hf' ↦ hlog.frame key' f' ?_, hlog.index,
    fun th ↦ (hlog.carries th).mono hmono fun _ he ↦ ⟨he, rfl⟩, ?_, fun e he ↦ hmono (hlog.attached
    e he), fun e a ha h ↦ hmono (hlog.answers e a ha h),
    fun c' hc' ↦ (hlog.events c' hc').imp_right hmono⟩
  · exact (hframe key').symm.trans hf'
  · refine (Function.forall_update_iff _ fun g (ch : Channel) ↦ ∀ ret ∈ ch.returns,
      Returned t ret.messageID).2 ⟨fun ret hret ↦ ?_, fun g _ ret hret ↦ hmono (hlog.returns g ret
      hret)⟩
    rw [hch] at hret
    rcases List.mem_append.1 hret with hold | hnew
    · exact hmono (hlog.returns _ ret hold)
    · rw [List.mem_singleton.1 hnew]
      exact hreturned

/-- An entry's return or answer is set to one whose origin is known. -/
theorem setEntry {e : ℕ} {p : Pending} (hs : Origins s) (hcall : p.call = (s.entries e).call)
    (hid : p.messageID = (s.entries e).messageID)
    (hreturned : p.returned ≠ none → Returned s (s.entries e).messageID)
    (hconfirm : ∀ a, p.confirm = some a → a.returned ≠ none →
      Returned s (s.entries e).messageID) : Origins (s.setEntry e p) := by
  have hcalls (e' : ℕ) : ((s.setEntry e p).entries e').call = (s.entries e').call := by grind
  have hids (e' : ℕ) : ((s.setEntry e p).entries e').messageID = (s.entries e').messageID := by
    grind
  refine ⟨hs.call, fun e' he' ↦ ?_, hs.frame, fun mkey e' he' ↦ ?_,
    fun th ↦ (hs.carries th).mono (fun h ↦ h) fun e' he' ↦ ⟨he', hids e'⟩, hs.returns, fun e' ↦ ?_,
    fun e' ↦ ?_, hs.events⟩
  · rw [hcalls, hids]
    exact hs.entry e' he'
  · rw [hids]
    exact hs.index mkey e' he'
  · change _ → Returned s _
    have hattached := hs.attached e'
    grind
  · change ∀ a, _ → _ → Returned s _
    have hanswers := hs.answers e'
    grind

end Origins

/-- A thread that is not idle does not become idle, unless it is the reconnect. -/
theorem resume_ne_idle (s : State) (th : Thread) (key : ConfirmKey) (by' : Untracker) :
    s.resume th key by' ≠ .idle := by
  cases by' <;> exact nofun

theorem untracked_ne_idle {e : ℕ} (s : State) (th : Thread) (key : ConfirmKey) (by' : Untracker) :
    s.untracked th key e by' ≠ .idle := by
  cases by' <;> exact nofun

/-- A move is one of a call that has begun. -/
theorem Moves.begun (h : Moves s th pc pc') : pc ≠ .idle ∧ pc' ≠ .idle ∨ ∀ c, th ≠ .call c := by
  cases h with
  | missing hnone => exact .inl ⟨nofun, resume_ne_idle _ _ _ _⟩
  | teardown | drained | unmatched | matched | stop | rotate | sweep | swept =>
    exact .inr nofun
  | _ => exact .inl ⟨nofun, nofun⟩

theorem Moves.carries (h : Moves s th pc pc') (hs : Origins s) (hpc : Carries s pc) :
    Carries s pc' := by
  cases h with
  | @missing _ _ by' hnone => cases by' <;> trivial
  | @drained _ next hempty | @unmatched _ _ next hnone => cases next <;> trivial
  | matched hsome => exact ⟨hpc, hs.index _ _ hsome⟩
  | _ => trivial

/-- Every step keeps the invariant. -/
theorem Origins.step (hs : Origins s) (htracked : Tracked s) (hslot : Slotted s)
    (hframed : Framed s) (h : (system maxPublishAttempts).step s l = some t) : Origins t := by
  have hsame {u : State} := @sameOrigins s u
  have hnot {th : Thread} {pc : Pc} (hpc : s.threads th = pc) (hne : pc ≠ .idle) :
      s.threads th ≠ .idle := hpc ▸ hne
  have hother {g : ℕ} (c : ℕ) : Thread.dispatcher g ≠ .call c := nofun
  cases act_of_step h with
  | begin hpc _ hne => exact hs.begin hpc hne
  | move hpc hmoves =>
    refine hs.goto (hpc ▸ hmoves.begun) (hmoves.carries hs ?_)
    rw [← hpc]
    exact hs.carries _
  | attempt hpc =>
    exact hs.same_goto (sameOrigins_setCall rfl rfl)
      (.inl ⟨hnot hpc nofun, nofun⟩) trivial
  | acquire hpc _ | notReady hpc | store hpc =>
    exact hs.same_goto (hsame rfl rfl rfl rfl rfl rfl rfl)
      (.inl ⟨hnot hpc nofun, nofun⟩) trivial
  | snapshot hpc hkey hp =>
    have hbegun := hnot hpc nofun
    exact (hs.snapshot hbegun (by rw [hp]; rfl) (by rw [hp]) (by rw [hp]) (by rw [hp])).goto
      (.inl ⟨hbegun, nofun⟩) trivial
  | index hpc hindex =>
    exact (hs.index_entry htracked hpc hindex).goto
      (.inl ⟨hnot hpc nofun, nofun⟩) trivial
  | @send c e key r f pc' hpc hf hpc' =>
    have hbegun := hnot hpc nofun
    have hsent : Origins (s.setChannel key.generation
        ((s.channels key.generation).publish f r)) := by
      have hhandshake : (s.threads (.call c)).handshake = some key := by rw [hpc]; rfl
      cases r with
      | ok =>
        -- In the slot the key is that of the next frame.
        refine hs.sent hbegun ?_ (hframed.frame_eq_none hslot hhandshake) (by rw [hf]; exact ⟨rfl,
          rfl, rfl⟩)
        rw [hslot.current _ key hhandshake]
        rfl
      | failed drew =>
        cases drew <;> exact hs.of_same (sameOrigins_setChannel rfl fun _ h ↦ h)
    refine hsent.same_goto (sameOrigins rfl rfl rfl rfl rfl rfl rfl) ?_ ?_
    all_goals rcases hpc' with rfl | rfl
    · exact .inl ⟨hbegun, nofun⟩
    · exact .inl ⟨hbegun, nofun⟩
    · trivial
    · trivial
  | @succeed c e key a hpc ha hack hreturned =>
    have hentry : Origins (s.setEntry e { s.entries e with confirm := none }) :=
      hs.of_same (sameOrigins_setEntry rfl rfl rfl nofun)
    have hlog := @log _ (.succeeded c key) hentry nofun
    exact hlog.goto (.inl ⟨hnot hpc nofun, nofun⟩) trivial
  | @unroutable c e key a hpc ha hreturned =>
    have hbegun := hnot hpc nofun
    obtain ⟨hth, -, hlt⟩ := htracked.attempt (.call c) key e (by rw [hpc]; rfl)
    have hid : (s.entries e).messageID = (s.calls c).indexID := by
      rw [(hs.entry e hlt).2, ← Thread.call.inj hth]
    have hentry : SameOrigins s (s.setEntry e { s.entries e with confirm := none }) :=
      sameOrigins_setEntry rfl rfl rfl nofun
    have hlog := @log _ (.unroutable c) (hs.of_same hentry) fun c' hc' ↦ by
      cases hc'
      exact ⟨hbegun, hentry.mono (hid ▸ hs.answers e a ha hreturned)⟩
    exact hlog.goto (.inl ⟨hbegun, nofun⟩) trivial
  | nacked hpc ha =>
    exact hs.same_goto (sameOrigins_setEntry rfl rfl rfl nofun)
      (.inl ⟨hnot hpc nofun, nofun⟩) trivial
  | retry hpc hcall hpc' =>
    refine hs.same_goto (sameOrigins_setCall (by rw [hcall]) (by rw [hcall])) ?_ ?_
    all_goals rcases hpc' with rfl | ⟨rfl, -⟩
    · exact .inl ⟨hnot hpc nofun, nofun⟩
    · exact .inl ⟨hnot hpc nofun, nofun⟩
    · trivial
    · trivial
  | @take th key e by' hpc he =>
    have hentry : Origins (s.setEntry e { s.entries e with taker := some th }) :=
      hs.of_same (sameOrigins_setEntry rfl rfl rfl fun _ h ↦ h)
    exact hentry.same_goto (sameOrigins rfl rfl rfl rfl rfl rfl rfl)
      (.inl ⟨hnot hpc nofun, nofun⟩) trivial
  | @unindex th key e by' pendingMandatory hpc hindex =>
    have hsub (mkey : MandatoryKey) (e' : ℕ) (h : pendingMandatory mkey = some e') :
        s.pendingMandatory mkey = some e' := by
      rw [hindex] at h
      split at h
      · by_cases heq : mkey = ⟨key.generation, (s.entries e).messageID⟩
        · rw [heq, Function.update_self] at h
          contradiction
        · rwa [Function.update_of_ne heq] at h
      · exact h
    have hindexed : SameOrigins s { s with pendingMandatory := pendingMandatory } :=
      { hsame rfl rfl rfl rfl rfl rfl rfl with index := hsub }
    refine hs.same_goto hindexed
      (.inl ⟨hnot hpc nofun, untracked_ne_idle _ _ _ _⟩) ?_
    cases by' <;> trivial
  | @answer th key e by' p hpc hp =>
    have hentry : Origins (s.setEntry e p) := by
      subst hp
      refine hs.setEntry rfl rfl (hs.attached e) fun a ha hreturned ↦ ?_
      rcases hold : (s.entries e).confirm with _ | a'
      · rw [hold] at ha
        cases ha
        refine hs.attached e ?_
        cases by' <;> exact hreturned
      · rw [hold] at ha
        exact hs.answers e a (hold.trans ha) hreturned
    have hlog := @log _ (.answered e (by'.source key)) hentry nofun
    refine hlog.goto (.inl ⟨hnot hpc nofun, resume_ne_idle _ _ _ _⟩) ?_
    cases by' <;> trivial
  | @brokerConfirm key ack f ch hf hch =>
    have hchannel : Origins (s.setChannel key.generation ch) :=
      hs.of_same (sameOrigins_setChannel (by rw [hch]) (by rw [hch]; exact fun _ h ↦ h))
    exact hchannel.log nofun
  | brokerReturn hf hmandatory hch => exact hs.brokerReturn hf hmandatory hch
  | @takeReturn _ g next ret rest hpc hreturns =>
    have hchannel : SameOrigins s (s.setChannel g { s.channels g with returns := rest }) := by
      refine sameOrigins_setChannel rfl ?_
      rw [hreturns]
      exact List.subset_cons_self ..
    refine hs.same_goto hchannel (.inr hother) (hchannel.mono (hs.returns g ret ?_))
    rw [hreturns]
    exact List.mem_cons_self
  | takeConfirm hpc hconfirms =>
    exact hs.same_goto (sameOrigins_setChannel rfl fun _ h ↦ h) (.inr hother) trivial
  | @attach g e ret next hpc =>
    have hcarries := hs.carries (.dispatcher g)
    rw [hpc] at hcarries
    obtain ⟨hreturned, -, hid⟩ := hcarries
    have hentry : Origins (s.setEntry e { s.entries e with returned := some ret }) :=
      hs.setEntry rfl rfl (fun _ ↦ hid ▸ hreturned) (hs.answers e)
    refine hentry.goto (.inr hother) ?_
    cases next <;> trivial
  | acquireUncond hpc _ | discard hpc =>
    exact hs.same_goto (hsame rfl rfl rfl rfl rfl rfl rfl) (.inr nofun) trivial
  | install hpc =>
    refine .goto ?_ (.inr hother) trivial
    exact hs.same_goto (hsame rfl rfl rfl rfl rfl rfl rfl) (.inr nofun) trivial
  | environment => exact hs.of_same (hsame rfl rfl rfl rfl rfl rfl rfl)

/-- The invariant holds along every run. -/
theorem origins_of_reachable (hs : (system maxPublishAttempts).Reachable s) : Origins s := by
  refine hs.invariant ?_ fun _ _ _ hr _ horigins h ↦
    horigins.step (tracked_of_reachable hr) (slotted_of_reachable hr) (framed_of_reachable hr) h
  rintro s rfl
  exact ⟨fun _ h ↦ absurd rfl h, nofun, nofun,
    nofun, fun _ ↦ trivial, nofun, fun _ h ↦ absurd rfl h,
    nofun, nofun⟩

end Amqp
