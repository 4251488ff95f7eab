import GoBricks.Streams.Commit

/-!
# A commit passes no unsettled message

A stream never redelivers what lies before the committed offset, so that a commit must not pass a
message that is neither handled nor in the hold ledger. The callback keeps this by working on one
message at a time: until the present one is settled, everything the tracker can commit lies before
it (`Invariant`).

* `commit_passes_no_unsettled`: no commit passes an unsettled message, provided that the client
  delivers nothing once the base context is cancelled.
* `commit_passes_abandoned_park`: the proviso is needed. A delivery does not look at the base
  context before it starts: one whose park was abandoned by the cancelled context may be followed by
  another, which commits past it.
-/

namespace Streams.Commit

/-! ### Messages that may be passed -/

/-- The message was handled without an error, is in the ledger, or is poison. -/
def State.Settled (s : State) (m : Message) : Prop :=
  .handled m ∈ s.history ∨ m ∈ s.ledger ∨ .poison m ∈ s.history

/-- The ways to be settled are memberships. -/
instance (s : State) (m : Message) : Decidable (s.Settled m) :=
  inferInstanceAs (Decidable (_ ∨ _ ∨ _))

/-- The message that an event delivers. -/
def Event.delivery : Event → Option Message
  | .delivered m => some m
  | _ => none

/-- The messages the client has delivered. -/
def State.delivered (s : State) : List Message :=
  s.history.filterMap Event.delivery

/-- The message of the running delivery. -/
def Pc.message : Pc → Option Message
  | .idle => none
  | .awaiting m | .attempting m | .handling m | .parking m _ | .writing m _ | .finished m _
  | .recording m _ => some m

/-- The message of the running delivery, until it may be recorded or skipped. -/
def Pc.unsettled : Pc → Option Message
  | .awaiting m | .attempting m | .handling m | .parking m _ | .writing m _ | .finished m .failed =>
    some m
  | _ => none

variable {m : Message}

/-- An unsettled message is the one at hand. -/
theorem message_of_unsettled {pc : Pc} (h : pc.unsettled = some m) : pc.message = some m := by
  cases pc with
  | finished m' res => cases res <;> first | exact h | contradiction
  | idle | recording => contradiction
  | _ => exact h

/-- What is left of the message `m` of the running delivery: it is settled, or the delivery still
has it, or the consumer has stopped with it. -/
def State.Accounts (s : State) (m : Message) : Prop :=
  s.Settled m ∨ s.pc.unsettled = some m ∨ (s.cancelled = true ∧ s.pc = .idle)

/-! ### What one step can do -/

/-- A step in the middle of a delivery, which leaves the tracker alone. -/
structure Advances (s t : State) : Prop where
  tracker : t.tracker = s.tracker
  cancelled : t.cancelled = s.cancelled
  delivered : t.delivered = s.delivered
  committed : ∀ o, t.history ≠ .committed o :: s.history
  settled : ∀ m, s.Settled m → t.Settled m
  busy : s.pc ≠ .idle
  message : ∀ m, t.pc.message = some m → s.pc.message = some m
  unsettled : ∀ m, s.pc.unsettled = some m → m.tenant ≠ "" → t.Accounts m

/-- What a step does. -/
inductive Act (s : State) : Label → State → Prop
  | deliver {m : Message} (hpc : s.pc = .idle) :
    Act s (.deliver m) ((s.log (.delivered m)).goto (.awaiting m))
  | cancel : Act s .cancel { s with cancelled := true }
  | advance {l : Label} {t : State} (h : Advances s t) : Act s l t
  /-- `parkFailed` panics, and the message is left as it is. -/
  | abandon {m : Message} (hpc : s.pc = .writing m .settling) : Act s .parkPanics (s.goto .idle)
  | record {m : Message} {handleErr : Bool} {w : DbWrite} {now storedAt : ℤ}
    (hpc : s.pc = .recording m handleErr) :
    Act s (.record w now storedAt)
      ((s.track (s.tracker.record m.offset handleErr w now storedAt)).goto .idle)
  | flush {w : DbWrite} {now : ℤ} (hcancelled : s.cancelled = true) :
    Act s (.flush w now) (s.track (s.tracker.flush w now))
  | drained {m : Message} {w : DbWrite} {ledger : List Message}
    (hledger : ∀ m' ∈ s.ledger, m' ≠ m → m' ∈ ledger) :
    Act s (.drained m w) { s.log (.handled m) with ledger := ledger }

variable {s t : State}

/-- A step of the delivery of `m` that keeps the tracker, and accounts for `m`. -/
theorem advances_of_message (hpc : s.pc.message = some m)
    (hdelivered : t.delivered = s.delivered)
    (hcommitted : ∀ o, t.history ≠ .committed o :: s.history)
    (hsettled : ∀ m, s.Settled m → t.Settled m)
    (hmessage : ∀ m', t.pc.message = some m' → m = m')
    (haccounts : s.pc.unsettled = some m → m.tenant ≠ "" → t.Accounts m)
    (htracker : t.tracker = s.tracker := by rfl)
    (hcancelled : t.cancelled = s.cancelled := by rfl) : Advances s t := by
  refine ⟨htracker, hcancelled, hdelivered, hcommitted, hsettled, fun hidle ↦ ?_, fun m' hm' ↦ ?_,
    fun m' hm' ↦ ?_⟩
  · simp [hidle, Pc.message] at hpc
  · rw [hpc, hmessage m' hm']
  · obtain rfl : m = m' := Option.some_inj.1 (hpc.symm.trans (message_of_unsettled hm'))
    exact haccounts hm'

/-- A move of the delivery that records nothing. -/
theorem advances_goto {pc : Pc} (hpc : s.pc.message = some m)
    (hmessage : ∀ m', pc.message = some m' → m = m')
    (haccounts : s.pc.unsettled = some m → m.tenant ≠ "" → (s.goto pc).Accounts m) :
    Advances s (s.goto pc) :=
  advances_of_message hpc rfl (fun _ h ↦ by simp [State.goto] at h) (fun _ h ↦ h) hmessage haccounts

/-- The delivery goes on with its message. -/
theorem advances_keeping {pc : Pc} (hpc : s.pc.message = some m) (hkeeps : pc.unsettled = some m) :
    Advances s (s.goto pc) :=
  advances_goto hpc
    (fun _ hm' ↦ Option.some_inj.1 ((message_of_unsettled hkeeps).symm.trans hm'))
    fun _ _ ↦ .inr (.inl hkeeps)

/-- The delivery ends because the consumer stops. -/
theorem advances_stopping (hpc : s.pc.message = some m) (hcancelled : s.cancelled = true) :
    Advances s (s.goto .idle) :=
  advances_goto hpc nofun fun _ _ ↦ .inr (.inr ⟨hcancelled, rfl⟩)

/-- What is settled stays so. -/
theorem Settled.log (e : Event) (h : s.Settled m) : (s.log e).Settled m :=
  h.imp (List.mem_cons_of_mem e) (Or.imp_right (List.mem_cons_of_mem e))

/-- The delivery learns the fate of its message. -/
theorem advances_settled {e : Event} {pc : Pc} (hpc : s.pc.message = some m)
    (hdelivery : e.delivery = none) (hcommitted : ∀ o, e ≠ .committed o)
    (hmessage : pc.message = some m) (hsettled : (s.log e).Settled m) :
    Advances s ((s.log e).goto pc) :=
  advances_of_message hpc (by simp [State.delivered, State.log, State.goto, hdelivery])
    (fun o h ↦ hcommitted o (List.cons.inj h).1) (fun _ ↦ Settled.log e)
    (fun _ hm' ↦ Option.some_inj.1 (hmessage.symm.trans hm')) fun _ _ ↦ .inl hsettled

variable {l : Label}

/-- A write of the ledger, and where the delivery goes on after it. -/
theorem advances_park {pc : Pc} {w : DbWrite} (hpc : s.pc.message = some m)
    (hmessage : pc.message = some m) (hkeeps : w.takesEffect = true ∨ pc.unsettled = some m) :
    Advances s ((if w.takesEffect then { s with ledger := m :: s.ledger } else s).goto pc) := by
  split
  · exact advances_of_message hpc rfl (fun _ h ↦ by simp [State.goto] at h)
      (fun _ hm' ↦ hm'.imp_right (Or.imp_left (List.mem_cons_of_mem m)))
      (fun _ hm' ↦ Option.some_inj.1 (hmessage.symm.trans hm'))
      fun _ _ ↦ .inl (.inr (.inl List.mem_cons_self))
  · next hw => exact advances_keeping hpc (hkeeps.resolve_left hw)

theorem act_of_park {w : DbWrite} (h : s.park w = some t) : Act s l t := by
  rw [State.park] at h
  split at h
  · next m by' hpc =>
    have hmessage : s.pc.message = some m := by rw [hpc]; rfl
    dsimp only at h
    split at h
    · cases h
      exact .advance (advances_park hmessage rfl (.inr rfl))
    · next hw =>
      have heffect : w.takesEffect = true := by
        cases w with
        | done => rfl
        | refused | unconfirmed => exact absurd rfl hw
      cases by' <;> cases h <;>
        exact .advance (advances_park hmessage rfl (.inl heffect))
  · contradiction

/-- The delivery is about to be recorded: its message is settled, or has no tenant. -/
theorem advances_recording {handleErr : Bool} (hpc : s.pc.message = some m)
    (h : s.pc.unsettled = none ∨ m.tenant = "") : Advances s (s.goto (.recording m handleErr)) := by
  refine advances_goto hpc (fun _ ↦ Option.some_inj.1) fun hm' htenant ↦ ?_
  rcases h with hnone | hempty
  · exact nomatch hnone.symm.trans hm'
  · exact absurd hempty htenant

theorem act_of_settle {panics : Bool} (h : s.settle panics = some t) : Act s l t := by
  rw [State.settle] at h
  split at h
  · next m res hpc =>
    have hmessage : s.pc.message = some m := by rw [hpc]; rfl
    have hnone (hres : res ≠ .failed) : s.pc.unsettled = none := by
      rw [hpc]
      cases res with
      | failed => contradiction
      | succeeded | payload => rfl
    split at h <;> cases h
    · next hres =>
      exact .advance (advances_recording hmessage (.inl (hnone (by rintro rfl; simp at hres))))
    · next hres =>
      exact .advance (advances_recording hmessage (.inl (hnone (by rintro rfl; simp at hres))))
    · split
      · next hempty => exact .advance (advances_recording hmessage (.inr hempty))
      · exact .advance (advances_keeping hmessage rfl)
  · contradiction

/-- **Inversion.** Everything a step can do. -/
theorem act_of_step (h : system.step s l = some t) : Act s l t := by
  cases l with
  | cancel =>
    cases h
    exact .cancel
  | opened | dropped | attempt | handled | loop | parkPanics =>
    simp only [system, State.step, State.opened, State.dropped, State.attempt, State.handled,
      State.loop, State.parkPanics] at h
    repeat' split at h
    all_goals cases h
    all_goals have hmessage := congrArg Pc.message ‹s.pc = _›
    all_goals first
      | exact .advance (advances_keeping hmessage rfl)
      | exact .advance (advances_settled hmessage rfl (by simp) rfl
          (by simp [State.Settled, State.log]))
      | exact .abandon ‹_›
      | exact .advance (advances_stopping hmessage (by simp_all))
  | park w => exact act_of_park h
  | settle panics => exact act_of_settle h
  | deliver | record | flush =>
    simp only [system, State.step, State.deliver, State.record, State.flush] at h
    split at h
    · cases h
      first | exact .deliver ‹_› | exact .record ‹_› | exact .flush ‹_›
    · contradiction
  | drained m w =>
    simp only [system, State.step, State.drained] at h
    split at h
    · split at h <;> cases h
      · exact .drained fun m' hm' hne ↦ List.mem_filter.2 ⟨hm', by simpa using hne⟩
      · exact @Act.drained s m w s.ledger fun m' hm' _ ↦ hm'
    · contradiction

/-! ### What the tracker's calls leave alone -/

section track

variable (r : OffsetTracker × Option ℤ)

@[simp] theorem track_tracker : (s.track r).tracker = r.1 := by
  obtain ⟨t, _ | o⟩ := r <;> rfl

@[simp] theorem track_pc : (s.track r).pc = s.pc := by
  obtain ⟨t, _ | o⟩ := r <;> rfl

@[simp] theorem track_cancelled : (s.track r).cancelled = s.cancelled := by
  obtain ⟨t, _ | o⟩ := r <;> rfl

@[simp] theorem track_delivered : (s.track r).delivered = s.delivered := by
  obtain ⟨t, _ | o⟩ := r <;> rfl

@[simp] theorem track_settled : (s.track r).Settled m ↔ s.Settled m := by
  obtain ⟨t, _ | o⟩ := r
  · rfl
  · simp [State.track, State.Settled, State.log]

end track

/-- A commit that is noted is one that the tracker made. -/
theorem track_commits {r : OffsetTracker × Option ℤ} {o : ℤ}
    (h : (s.track r).history = .committed o :: s.history) : r.2 = some o := by
  obtain ⟨t, _ | o'⟩ := r
  · simp [State.track] at h
  · obtain rfl : o' = o := by simpa [State.track, State.log] using h
    rfl

/-! ### The order of commits -/

/-- The client delivers the stream in order, and nothing once the base context is cancelled; a park
made while settling does not panic. -/
def State.Orderly (s : State) : Label → Prop
  | .deliver m => s.cancelled = false ∧
      (m ∈ s.delivered ∨ ∀ m' ∈ s.delivered, m'.offset < m.offset)
  | .parkPanics => ∀ m ∈ s.pc.message, s.pc ≠ .writing m .settling
  | _ => True

/-- Each step has a decidable condition. -/
instance (s : State) (l : Label) : Decidable (s.Orderly l) := by
  cases l <;> unfold State.Orderly <;> infer_instance

/-- Every delivered message is accounted for, and one that may still be lost lies beyond anything
the tracker can commit. -/
structure Invariant (s : State) : Prop where
  accounts : ∀ m ∈ s.delivered, m.tenant ≠ "" → s.Accounts m
  ahead : 0 < s.tracker.pending → ∀ m ∈ s.delivered, m.tenant ≠ "" → ¬s.Settled m →
    s.tracker.lastHandledOK < m.offset
  pending : 0 < s.tracker.pending → ∃ m ∈ s.delivered, m.offset = s.tracker.lastHandledOK
  message : ∀ m, s.pc.message = some m → m ∈ s.delivered

namespace Invariant

/-- A message arrives behind those before it. -/
theorem deliver (hi : Invariant s) (hpc : s.pc = .idle) (hc : s.Orderly (.deliver m)) :
    Invariant ((s.log (.delivered m)).goto (.awaiting m)) := by
  obtain ⟨hcancelled, horder⟩ := hc
  -- Nothing is running and the consumer is not stopping, so that all there is has been settled.
  have hall : ∀ m' ∈ s.delivered, m'.tenant ≠ "" → s.Settled m' := fun m' hm' htenant ↦ by
    rcases hi.accounts m' hm' htenant with h | h | h
    · exact h
    · simp [hpc, Pc.unsettled] at h
    · simp [hcancelled] at h
  have hcons : ((s.log (.delivered m)).goto (.awaiting m)).delivered = m :: s.delivered := rfl
  refine ⟨fun m' hm' htenant ↦ ?_, fun hpending m' hm' htenant hnot ↦ ?_, fun hpending ↦ ?_, ?_⟩
  · rw [hcons, List.mem_cons] at hm'
    rcases hm' with rfl | hm'
    · exact .inr (.inl rfl)
    · exact .inl (Settled.log _ (hall m' hm' htenant))
  · rw [hcons, List.mem_cons] at hm'
    have hold : m' ∉ s.delivered := fun hm' ↦ hnot (Settled.log _ (hall m' hm' htenant))
    obtain rfl := hm'.resolve_right hold
    obtain ⟨m₀, hm₀, hoffset⟩ := hi.pending hpending
    rw [show ((s.log (.delivered m')).goto (.awaiting m')).tracker = s.tracker from rfl, ← hoffset]
    exact horder.resolve_left hold m₀ hm₀
  · obtain ⟨m₀, hm₀, hoffset⟩ := hi.pending hpending
    exact ⟨m₀, List.mem_cons_of_mem m hm₀, hoffset⟩
  · rintro m' hm'
    cases hm'
    exact List.mem_cons_self

/-- Steps that leave the tracker alone. -/
theorem advance (hi : Invariant s) (h : Advances s t) : Invariant t := by
  refine ⟨fun m hm htenant ↦ ?_, fun hpending m hm htenant hnot ↦ ?_, fun hpending ↦ ?_, ?_⟩
  · rw [h.delivered] at hm
    rcases hi.accounts m hm htenant with hsettled | hopen | ⟨-, hidle⟩
    · exact .inl (h.settled m hsettled)
    · exact h.unsettled m hopen htenant
    · exact absurd hidle h.busy
  · rw [h.tracker] at hpending ⊢
    rw [h.delivered] at hm
    exact hi.ahead hpending m hm htenant fun hsettled ↦ hnot (h.settled m hsettled)
  · rw [h.tracker] at hpending ⊢
    rw [h.delivered]
    exact hi.pending hpending
  · rw [h.delivered]
    exact fun m hm ↦ hi.message m (h.message m hm)

/-- When nothing is open, whatever the tracker does next is safe. -/
theorem track_idle (hi : Invariant s) {r : OffsetTracker × Option ℤ} (hbusy : s.pc ≠ .idle)
    (hnone : s.pc.unsettled = none)
    (hpending : 0 < r.1.pending → ∃ m ∈ s.delivered, m.offset = r.1.lastHandledOK) :
    Invariant ((s.track r).goto .idle) := by
  have hall : ∀ m ∈ s.delivered, m.tenant ≠ "" → s.Settled m := fun m hm htenant ↦ by
    rcases hi.accounts m hm htenant with h | h | ⟨-, h⟩
    · exact h
    · simp [hnone] at h
    · exact absurd h hbusy
  have hall' : ∀ m ∈ ((s.track r).goto .idle).delivered, m.tenant ≠ "" →
      ((s.track r).goto .idle).Settled m := fun m hm htenant ↦
    (track_settled r).2 (hall m (track_delivered r ▸ hm) htenant)
  refine ⟨fun m hm htenant ↦ .inl (hall' m hm htenant), fun _ m hm htenant hnot ↦ ?_, ?_, ?_⟩
  · exact absurd (hall' m hm htenant) hnot
  · rintro h
    change 0 < (s.track r).tracker.pending at h
    change ∃ m ∈ (s.track r).delivered, m.offset = (s.track r).tracker.lastHandledOK
    rw [track_tracker] at h ⊢
    rw [track_delivered]
    exact hpending h
  · exact nofun

/-- The tracker takes a message that is settled. -/
theorem record {handleErr : Bool} {w : DbWrite} {now storedAt : ℤ} (hi : Invariant s)
    (hpc : s.pc = .recording m handleErr) :
    Invariant ((s.track (s.tracker.record m.offset handleErr w now storedAt)).goto .idle) := by
  refine hi.track_idle (by simp [hpc]) (by rw [hpc]; rfl) fun hpending ↦ ?_
  cases handleErr with
  | true => exact hi.pending hpending
  | false =>
    rw [OffsetTracker.record_lastHandledOK]
    exact ⟨m, hi.message m (by rw [hpc]; rfl), rfl⟩

/-- A flush commits what is settled. -/
theorem flush {w : DbWrite} {now : ℤ} (hi : Invariant s) :
    Invariant (s.track (s.tracker.flush w now)) := by
  have hpending (h : 0 < (s.track (s.tracker.flush w now)).tracker.pending) :
      0 < s.tracker.pending := by
    rw [track_tracker] at h
    exact h.trans_le OffsetTracker.flush_pending_le
  refine ⟨fun m hm htenant ↦ ?_, fun h m hm htenant hnot ↦ ?_, fun h ↦ ?_, fun m hm ↦ ?_⟩
  · rw [track_delivered] at hm
    rw [State.Accounts, track_settled, track_pc, track_cancelled]
    exact hi.accounts m hm htenant
  · rw [track_delivered] at hm
    rw [track_settled] at hnot
    rw [track_tracker, OffsetTracker.flush_lastHandledOK]
    exact hi.ahead (hpending h) m hm htenant hnot
  · rw [track_delivered, track_tracker, OffsetTracker.flush_lastHandledOK]
    exact hi.pending (hpending h)
  · rw [track_pc] at hm
    rw [track_delivered]
    exact hi.message m hm

/-- The drainer handles a held message. -/
theorem drained {ledger : List Message} (hi : Invariant s)
    (hledger : ∀ m' ∈ s.ledger, m' ≠ m → m' ∈ ledger) :
    Invariant { s.log (.handled m) with ledger := ledger } := by
  have hsettled {m' : Message} (h : s.Settled m') :
      State.Settled { s.log (.handled m) with ledger := ledger } m' := by
    by_cases heq : m' = m
    · exact .inl (heq ▸ List.mem_cons_self)
    · exact h.imp (List.mem_cons_of_mem _)
        (Or.imp (fun hmem ↦ hledger m' hmem heq) (List.mem_cons_of_mem _))
  exact {
    accounts := fun m' hm' htenant ↦ (hi.accounts m' hm' htenant).imp_left hsettled
    ahead := fun hpending m' hm' htenant hnot ↦
      hi.ahead hpending m' hm' htenant fun h ↦ hnot (hsettled h)
    pending := hi.pending
    message := hi.message }

/-- A cancellation excuses the message at hand. -/
theorem cancel (hi : Invariant s) : Invariant { s with cancelled := true } where
  accounts m hm htenant :=
    (hi.accounts m hm htenant).imp_right (Or.imp_right fun h ↦ ⟨rfl, h.2⟩)
  ahead := hi.ahead
  pending := hi.pending
  message := hi.message

/-- Every orderly step keeps the invariant. -/
theorem step (hi : Invariant s) (hc : s.Orderly l) (h : system.step s l = some t) :
    Invariant t := by
  cases act_of_step h with
  | deliver hpc => exact hi.deliver hpc hc
  | cancel => exact hi.cancel
  | advance hadvance => exact hi.advance hadvance
  | abandon hpc => exact absurd hpc (hc _ (by rw [hpc]; rfl))
  | record hpc => exact hi.record hpc
  | flush _ => exact hi.flush
  | drained hledger => exact hi.drained hledger

end Invariant

/-- The invariant holds along every orderly run. -/
theorem invariant_of_reach (hs : system.Reach State.Orderly s) : Invariant s := by
  refine hs.invariant ?_ fun s l t _ hc hi h ↦ hi.step hc h
  rintro s ⟨count, interval, now, rfl⟩
  exact {
    accounts := fun _ h ↦ absurd h List.not_mem_nil
    ahead := fun h ↦ absurd h (lt_irrefl 0)
    pending := fun h ↦ absurd h (lt_irrefl 0)
    message := nofun }

/-- **No commit passes an unsettled message.** In every run in which the client keeps the order of
the stream and delivers nothing once the base context is cancelled, and in which no park made while
settling panics: when an offset is committed, each delivered message up to it that carries a tenant
was handled, is in the ledger, or is poison. -/
theorem commit_passes_no_unsettled {l : Label} {o : ℤ} {m : Message}
    (hs : system.Reach State.Orderly s) (h : system.step s l = some t)
    (hcommit : t.history = .committed o :: s.history) (hm : m ∈ s.delivered)
    (htenant : m.tenant ≠ "") (hle : m.offset ≤ o) : t.Settled m := by
  have hi := invariant_of_reach hs
  cases act_of_step h with
  | deliver _ | cancel | abandon _ | drained _ => simp [State.log, State.goto] at hcommit
  | advance hadvance => exact absurd hcommit (hadvance.committed o)
  | @record m' handleErr w now storedAt hpc =>
    rw [show ((s.track (s.tracker.record m'.offset handleErr w now storedAt)).goto
      .idle).Settled m ↔ s.Settled m from track_settled _]
    rcases hi.accounts m hm htenant with hsettled | hopen | ⟨-, hidle⟩
    · exact hsettled
    · simp [hpc, Pc.unsettled] at hopen
    · simp [hpc] at hidle
  | @flush w now _ =>
    rw [track_settled]
    obtain ⟨hpending, ho⟩ := OffsetTracker.flush_stores (track_commits hcommit)
    by_contra hnot
    exact absurd hle (not_le_of_gt (ho ▸ hi.ahead hpending m hm htenant hnot))

/-- A client that has not yet been told to stop delivers the message behind one whose park the
cancelled context has abandoned: its commit passes a message that is lost. -/
theorem commit_passes_abandoned_park :
    ∃ s t l o m, system.Reachable s ∧ system.step s l = some t ∧
      t.history = .committed o :: s.history ∧ m ∈ s.delivered ∧ m.tenant ≠ "" ∧ m.offset ≤ o ∧
        ¬t.Settled m := by
  have hrun : system.run
      { tracker := { countBeforeStorage := 1, flushInterval := 5, lastStoreAt := 0 } }
      [.deliver ⟨1, "acme"⟩, .opened, .attempt false false, .handled .failed, .cancel,
        .settle false, .loop, .deliver ⟨2, "acme"⟩, .opened, .attempt false false,
        .handled .succeeded, .settle false] = some _ := rfl
  exact ⟨_, _, .record .done 1 1, 2, ⟨1, "acme"⟩,
    StepSystem.reach_of_run (.init ⟨1, 5, 0, rfl⟩) hrun, rfl, rfl, by decide, by decide, by decide,
    by decide⟩

/-- A message whose park was abandoned does not stop the flush of those before it. -/
theorem commit_passes_no_unsettled_at_flush :
    ∃ s t : State, ∃ m, system.Reach State.Orderly s ∧
      system.step s (.flush .done 9) = some t ∧ t.history = .committed 1 :: s.history ∧
        m ∈ s.delivered ∧ t.Settled m := by
  obtain ⟨s, t, hrun, hstep, hhistory, hm⟩ : ∃ s t, (system.restrict State.Orderly).run
      { tracker := { countBeforeStorage := 3, flushInterval := 5, lastStoreAt := 0 } }
      [.deliver ⟨1, "acme"⟩, .opened, .attempt true false, .loop, .park .done, .settle false,
        .record .done 1 1, .deliver ⟨2, "acme"⟩, .opened, .attempt false false, .handled .failed,
        .cancel, .settle false, .loop] = some s ∧
      system.step s (.flush .done 9) = some t ∧ t.history = .committed 1 :: s.history ∧
        ⟨1, "acme"⟩ ∈ s.delivered := ⟨_, _, rfl, rfl, rfl, by decide⟩
  have hreach := StepSystem.Reach.of_restrict (StepSystem.reach_of_run
    (M := system.restrict State.Orderly) (.init ⟨3, 5, 0, rfl⟩) hrun)
  exact ⟨s, t, ⟨1, "acme"⟩, hreach, hstep, hhistory, hm,
    commit_passes_no_unsettled hreach hstep hhistory hm (by decide) le_rfl⟩

end Streams.Commit
