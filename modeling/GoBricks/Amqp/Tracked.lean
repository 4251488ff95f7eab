import GoBricks.Amqp.Effect

/-!
# The life of a pending entry

A call makes an entry for each attempt, stores it under the attempt's key, and one thread at most
takes it out again. Only a dispatcher and the sweep answer what they took, so an entry is answered
at most once (`Tracked.once`); and an entry that is still stored belongs to an attempt that is still
running (`Tracked.pending`).
-/

namespace Amqp

open List Function Option

/-- The registration a call is responsible for. -/
def Pc.attempt : Pc → Option (ConfirmKey × ℕ)
  | .indexing key e | .storing key e | .sending key e | .waiting key e
  | .untracking key (.abort e) | .untracking key (.retry e _) => some (key, e)
  | _ => none

/-- The entry a call has made and not stored yet. -/
def Pc.unstored : Pc → Option ℕ
  | .indexing _ e | .storing _ e => some e
  | _ => none

/-- The entry a thread has taken out of the pending publishes and is not done with. -/
def Pc.taken : Pc → Option ℕ
  | .unindexing _ e _ | .answering _ e _ => some e
  | _ => none

/-- The entry that an event says was answered. -/
def Event.answeredEntry : Event → Option ℕ
  | .answered e _ => some e
  | _ => none

/-- The entries that were answered. -/
def State.answered (s : State) : List ℕ :=
  s.history.filterMap Event.answeredEntry

/-- Attempts, entries and those who have taken them belong together. -/
structure Tracked (s : State) : Prop where
  /-- A running attempt is the attempt of the call that made its entry. -/
  attempt : ∀ th key e, (s.threads th).attempt = some (key, e) →
    th = .call (s.entries e).call ∧ (s.entries e).key = key ∧ e < s.nextEntry
  /-- A stored entry belongs to a running attempt, and nobody has taken it. -/
  pending : ∀ key e, s.pendingPublishes key = some e →
    (s.threads (.call (s.entries e).call)).attempt = some (key, e) ∧ (s.entries e).taker = none
  unstored : ∀ th e, (s.threads th).unstored = some e →
    (s.entries e).taker = none ∧ ∀ key, s.pendingPublishes key ≠ some e
  taken : ∀ th e, (s.threads th).taken = some e →
    (s.entries e).taker = some th ∧ e ∉ s.answered
  answered : ∀ e ∈ s.answered, (s.entries e).taker ≠ none
  buffered : ∀ e, (s.entries e).confirm ≠ none → (s.entries e).taker ≠ none
  fresh : ∀ e, s.nextEntry ≤ e → (s.entries e).taker = none
  once : s.answered.Nodup

variable {maxPublishAttempts : ℤ} {s t : State} {l : Label} {th : Thread} {pc pc' : Pc}

/-! ### What keeps it -/

/-- The part of the state the life of entries depends on, threads apart. -/
structure SameEntries (s t : State) : Prop where
  threads : t.threads = s.threads
  pending : t.pendingPublishes = s.pendingPublishes
  nextEntry : t.nextEntry = s.nextEntry
  answered : t.answered = s.answered
  call : ∀ e, (t.entries e).call = (s.entries e).call
  key : ∀ e, (t.entries e).key = (s.entries e).key
  taker : ∀ e, (t.entries e).taker = (s.entries e).taker
  buffered : ∀ e, (t.entries e).confirm ≠ none → (s.entries e).taker ≠ none

/-- A step that touches no entry keeps the invariant. -/
theorem Tracked.of_same (hs : Tracked s) (h : SameEntries s t) : Tracked t where
  attempt th key e he := by
    rw [h.threads] at he
    rw [h.call, h.key, h.nextEntry]
    exact hs.attempt th key e he
  pending key e he := by
    rw [h.pending] at he
    rw [h.threads, h.call, h.taker]
    exact hs.pending key e he
  unstored th e he := by
    rw [h.threads] at he
    rw [h.taker, h.pending]
    exact hs.unstored th e he
  taken th e he := by
    rw [h.threads] at he
    rw [h.taker, h.answered]
    exact hs.taken th e he
  answered e he := by
    rw [h.answered] at he
    rw [h.taker]
    exact hs.answered e he
  buffered e he := by
    rw [h.taker]
    exact h.buffered e he
  fresh e he := by
    rw [h.nextEntry] at he
    rw [h.taker]
    exact hs.fresh e he
  once := h.answered ▸ hs.once

/-- An entry's answer and return may change. -/
theorem Tracked.setEntry {e : ℕ} {p : Pending} (hs : Tracked s)
    (hcall : p.call = (s.entries e).call) (hkey : p.key = (s.entries e).key)
    (htaker : p.taker = (s.entries e).taker)
    (hconfirm : p.confirm ≠ none → (s.entries e).taker ≠ none) : Tracked (s.setEntry e p) := by
  have hbuffered := hs.buffered
  exact hs.of_same ⟨rfl, rfl, rfl, rfl, by grind, by grind, by grind, by grind⟩

/-- A thread moves on. An attempt ends only when its entry is out. -/
theorem Tracked.goto (hs : Tracked s)
    (hattempt : ∀ key e, pc'.attempt = some (key, e) →
      th = .call (s.entries e).call ∧ (s.entries e).key = key ∧ e < s.nextEntry)
    (hleaves : ∀ key e, (s.threads th).attempt = some (key, e) →
      pc'.attempt = some (key, e) ∨ s.pendingPublishes key ≠ some e)
    (hunstored : ∀ e, pc'.unstored = some e →
      (s.entries e).taker = none ∧ ∀ key, s.pendingPublishes key ≠ some e)
    (htaken : ∀ e, pc'.taken = some e → (s.entries e).taker = some th ∧ e ∉ s.answered) :
    Tracked (s.goto th pc') where
  attempt := by
    refine (forall_update_iff _ fun (th' : Thread) (pc : Pc) ↦ ∀ key e,
      pc.attempt = some (key, e) →
        th' = .call (s.entries e).call ∧ (s.entries e).key = key ∧ e < s.nextEntry).2 ⟨?_, ?_⟩
    · exact hattempt
    · exact fun th' _ key e he ↦ hs.attempt th' key e he
  pending key e he := by
    obtain ⟨hrunning, htaker⟩ := hs.pending key e he
    refine ⟨?_, htaker⟩
    by_cases hth : Thread.call (s.entries e).call = th
    · rw [hth] at hrunning
      change (update s.threads th pc' (.call (s.entries e).call)).attempt = _
      rw [hth, update_self]
      exact (hleaves key e hrunning).resolve_right fun hne ↦ hne he
    · change (update s.threads th pc' (.call (s.entries e).call)).attempt = _
      rw [update_of_ne hth]
      exact hrunning
  unstored := by
    refine (forall_update_iff _ fun (th' : Thread) (pc : Pc) ↦ ∀ e,
      pc.unstored = some e →
        (s.entries e).taker = none ∧ ∀ key, s.pendingPublishes key ≠ some e).2 ⟨hunstored, ?_⟩
    exact fun th' _ ↦ hs.unstored th'
  taken := by
    refine (forall_update_iff _ fun (th' : Thread) (pc : Pc) ↦ ∀ e, pc.taken = some e →
      (s.entries e).taker = some th' ∧ e ∉ s.answered).2 ⟨htaken, ?_⟩
    exact fun th' _ ↦ hs.taken th'
  answered := hs.answered
  buffered := hs.buffered
  fresh := hs.fresh
  once := hs.once

theorem resume_attempt (s : State) (th : Thread) (key : ConfirmKey) (by' : Untracker) :
    (s.resume th key by').attempt = none := by
  cases by' <;> rfl

theorem resume_taken (s : State) (th : Thread) (key : ConfirmKey) (by' : Untracker) :
    (s.resume th key by').taken = none := by
  cases by' <;> rfl

theorem resume_unstored (s : State) (th : Thread) (key : ConfirmKey) (by' : Untracker) :
    (s.resume th key by').unstored = none := by
  cases by' <;> rfl

namespace Moves

/-- A move ends an attempt only if its entry is gone. -/
theorem attempt (h : Moves s th pc pc') : pc'.attempt = pc.attempt ∨
    pc'.attempt = none ∧ ∀ key e, pc.attempt = some (key, e) → s.pendingPublishes key = none := by
  cases h with
  | @missing th key by' hnone =>
    refine .inr ⟨resume_attempt s th key by', ?_⟩
    cases by' with
    | abort e | retry e cause =>
      rintro key' e' he
      cases he
      exact hnone
    | route confirm | sweep => exact nofun
  | @drained g next hempty | @unmatched g ret next hnone => cases next <;> exact .inl rfl
  | _ => exact .inl rfl

theorem unstored (h : Moves s th pc pc') : pc'.unstored = none := by
  cases h with
  | @missing th key by' hnone => exact resume_unstored s th key by'
  | @drained g next hempty | @unmatched g ret next hnone => cases next <;> rfl
  | _ => rfl

theorem taken (h : Moves s th pc pc') : pc'.taken = none := by
  cases h with
  | @missing th key by' hnone => exact resume_taken s th key by'
  | @drained g next hempty | @unmatched g ret next hnone => cases next <;> rfl
  | _ => rfl

end Moves

namespace Tracked

/-- A thread that is in no attempt moves on, and makes none. -/
theorem goto_quiet (hs : Tracked s) (hpc : (s.threads th).attempt = none)
    (hattempt : pc'.attempt = none) (hunstored : pc'.unstored = none)
    (htaken : pc'.taken = none) : Tracked (s.goto th pc') := by
  refine hs.goto (fun key e he ↦ ?_) (fun key e he ↦ ?_) (fun e he ↦ ?_) fun e he ↦ ?_
  · simp [hattempt] at he
  · simp [hpc] at he
  · simp [hunstored] at he
  · simp [htaken] at he

/-- A move keeps the invariant. -/
theorem move (hs : Tracked s) (hpc : s.threads th = pc) (h : Moves s th pc pc') :
    Tracked (s.goto th pc') := by
  subst hpc
  refine hs.goto (fun key e he ↦ ?_) (fun key e he ↦ ?_) (fun e he ↦ ?_) fun e he ↦ ?_
  · rcases h.attempt with heq | ⟨hnone, -⟩
    · exact hs.attempt th key e (heq ▸ he)
    · simp [hnone] at he
  · rcases h.attempt with heq | ⟨-, hout⟩
    · exact .inl (heq ▸ he)
    · exact .inr fun hsome ↦ by simp [hout key e he] at hsome
  · simp [h.unstored] at he
  · simp [h.taken] at he

/-- An entry to store is that of an attempt. -/
theorem unstored_attempt {e : ℕ} (h : pc.unstored = some e) :
    ∃ key, pc.attempt = some (key, e) := by
  cases pc with
  | indexing key e' | storing key e' => exact ⟨key, by rw [← some_inj.1 h]; rfl⟩
  | _ => contradiction

/-- An entry that is made where none was. -/
theorem setEntry_fresh {p : Pending} (hs : Tracked s) (htaker : p.taker = none)
    (hconfirm : p.confirm = none) :
    Tracked ({ s with nextEntry := s.nextEntry + 1 }.setEntry s.nextEntry p) := by
  set t := { s with nextEntry := s.nextEntry + 1 }.setEntry s.nextEntry p
  have hfresh := hs.fresh s.nextEntry le_rfl
  have hold {e : ℕ} (he : e < s.nextEntry) : t.entries e = s.entries e := by grind
  have htakers (e : ℕ) : (t.entries e).taker = (s.entries e).taker := by grind
  have hconfirms (e : ℕ) : (t.entries e).confirm ≠ none → (s.entries e).confirm ≠ none := by grind
  refine ⟨fun th key e he ↦ ?_, fun key e he ↦ ?_, fun th e he ↦ ?_, fun th e he ↦ ?_,
    fun e he ↦ ?_, fun e he ↦ ?_, fun e he ↦ ?_, hs.once⟩
  · obtain ⟨hth, hkey, hnext⟩ := hs.attempt th key e he
    rw [hold hnext]
    exact ⟨hth, hkey, Nat.lt_succ_of_lt hnext⟩
  · rw [hold (hs.attempt _ _ _ (hs.pending key e he).1).2.2]
    exact hs.pending key e he
  all_goals rw [htakers]
  · exact hs.unstored th e he
  · exact hs.taken th e he
  · exact hs.answered e he
  · exact hs.buffered e (hconfirms e he)
  · exact hs.fresh e (Nat.le_of_succ_le he)

/-- A call makes the entry of its next attempt. -/
theorem snapshot {c : ℕ} {key : ConfirmKey} {p : Pending} (hs : Tracked s)
    (hpc : s.threads (.call c) = .snapshotting) (hcall : p.call = c) (hkey : p.key = key)
    (htaker : p.taker = none) (hconfirm : p.confirm = none) :
    Tracked (({ s with nextEntry := s.nextEntry + 1 }.setEntry s.nextEntry p).goto (.call c)
      (.indexing key s.nextEntry)) := by
  have hfresh := hs.setEntry_fresh htaker hconfirm
  set t := { s with nextEntry := s.nextEntry + 1 }.setEntry s.nextEntry p
  have hself : t.entries s.nextEntry = p := update_self ..
  refine hfresh.goto (fun key' e he ↦ ?_) (fun key' e he ↦ ?_) (fun e he ↦ ?_) nofun
  · cases he
    rw [hself, hcall, hkey]
    exact ⟨rfl, rfl, Nat.lt_succ_self _⟩
  · change (s.threads (.call c)).attempt = some (key', e) at he
    simp [hpc, Pc.attempt] at he
  · cases he
    rw [hself]
    refine ⟨htaker, fun key' hkey' ↦ ?_⟩
    exact absurd (hs.attempt _ _ _ (hs.pending key' _ hkey').1).2.2 (lt_irrefl _)

/-- The entry is stored. -/
theorem store {c e : ℕ} {key : ConfirmKey} (hs : Tracked s)
    (hpc : s.threads (.call c) = .storing key e) :
    Tracked ({ s with pendingPublishes := update s.pendingPublishes key (some e) }.goto
      (.call c) (.sending key e)) := by
  have hown := hs.attempt (.call c) key e (by rw [hpc]; rfl)
  have hfree := hs.unstored (.call c) e (by rw [hpc]; rfl)
  have hgoto : Tracked (s.goto (.call c) (.sending key e)) := by
    refine hs.goto (fun key' e' he ↦ ?_) (fun key' e' he ↦ .inl ?_) nofun
      nofun
    · cases he
      exact hown
    · rw [hpc] at he
      exact he
  have hrunning :
      ((s.goto (.call c) (.sending key e)).threads (.call c)).attempt = some (key, e) := by
    change (update s.threads (.call c) (.sending key e) (.call c)).attempt = _
    rw [update_self]
    rfl
  refine ⟨hgoto.attempt, ?_, fun th' e' he' ↦ ?_, hgoto.taken, hgoto.answered, hgoto.buffered,
    hgoto.fresh, hgoto.once⟩
  · refine (forall_update_iff _ fun key' (o : Option ℕ) ↦ ∀ e', o = some e' →
      ((s.goto (.call c) (.sending key e)).threads (.call (s.entries e').call)).attempt =
        some (key', e') ∧ (s.entries e').taker = none).2 ⟨?_, fun key' _ ↦ hgoto.pending key'⟩
    rintro e' he'
    cases he'
    rw [← hown.1]
    exact ⟨hrunning, hfree.1⟩
  · obtain ⟨htaker, hnot⟩ := hgoto.unstored th' e' he'
    refine ⟨htaker, ?_⟩
    refine (forall_update_iff _ fun _ (o : Option ℕ) ↦ o ≠ some e').2
      ⟨fun heq ↦ ?_, fun key' _ ↦ hnot key'⟩
    -- The thread that is about to store the entry would be the call that has just done so.
    cases heq
    obtain ⟨key', hattempt⟩ := unstored_attempt he'
    have hth := (hgoto.attempt th' key' e hattempt).1
    rw [show th' = .call c from hth.trans hown.1.symm] at he'
    change (update s.threads (.call c) (.sending key e) (.call c)).unstored = _ at he'
    rw [update_self] at he'
    contradiction

theorem untrack (hs : Tracked s) (key : ConfirmKey) :
    Tracked { s with pendingPublishes := update s.pendingPublishes key none } := by
  have hupdate := update_apply s.pendingPublishes key none
  refine ⟨hs.attempt, fun key' e he ↦ hs.pending key' e ?_, fun th e he ↦ ?_, hs.taken,
    hs.answered, hs.buffered, hs.fresh, hs.once⟩
  · grind
  · have hold := hs.unstored th e he
    grind

/-- An entry that is not stored, and that no call is about to store, gets its taker. -/
theorem mark {e : ℕ} (hs : Tracked s) (hlt : e < s.nextEntry) (htaker : (s.entries e).taker = none)
    (hpending : ∀ key, s.pendingPublishes key ≠ some e)
    (hunstored : ∀ th, (s.threads th).unstored ≠ some e) :
    Tracked (s.setEntry e { s.entries e with taker := some th }) := by
  set t := s.setEntry e { s.entries e with taker := some th }
  have hcall (e' : ℕ) : (t.entries e').call = (s.entries e').call := by grind
  have hkey (e' : ℕ) : (t.entries e').key = (s.entries e').key := by grind
  have hconfirm (e' : ℕ) : (t.entries e').confirm = (s.entries e').confirm := by grind
  have htakers (e' : ℕ) :
      (t.entries e').taker = if e' = e then some th else (s.entries e').taker := by grind
  refine ⟨fun th' key e' h ↦ ?_, fun key e' h ↦ ?_, fun th' e' h ↦ ?_, fun th' e' h ↦ ?_,
    fun e' h ↦ ?_, fun e' h ↦ ?_, fun e' h ↦ ?_, hs.once⟩
  · rw [hcall, hkey]
    exact hs.attempt th' key e' h
  · rw [hcall, htakers, if_neg (by rintro rfl; exact hpending key h)]
    exact hs.pending key e' h
  · rw [htakers, if_neg (by rintro rfl; exact hunstored th' h)]
    exact hs.unstored th' e' h
  · have hold := hs.taken th' e' h
    rw [htakers, if_neg (by rintro rfl; exact nomatch htaker.symm.trans hold.1)]
    exact hold
  · have hold := hs.answered e' h
    grind
  · have hold := hs.buffered e' (hconfirm e' ▸ h)
    grind
  · rw [htakers, if_neg (ne_of_gt (lt_of_lt_of_le hlt h))]
    exact hs.fresh e' h

/-- An entry is taken out of the pending publishes, by whoever found it there. -/
theorem take {key : ConfirmKey} {e : ℕ} {by' : Untracker} (hs : Tracked s)
    (hpc : s.threads th = .untracking key by') (he : s.pendingPublishes key = some e) :
    Tracked ({ s.setEntry e { s.entries e with taker := some th } with
      pendingPublishes := update s.pendingPublishes key none }.goto th
        (.unindexing key e by')) := by
  obtain ⟨hrunning, htaker⟩ := hs.pending key e he
  have hupdate := update_apply s.pendingPublishes key none
  have hout (key' : ConfirmKey) : update s.pendingPublishes key none key' ≠ some e := by
    intro h
    have hold := (hs.pending key' e (by grind)).1
    grind
  have hmarked : Tracked { s.setEntry e { s.entries e with taker := some th } with
      pendingPublishes := update s.pendingPublishes key none } :=
    (hs.untrack key).mark (hs.attempt _ _ _ hrunning).2.2 htaker hout
      fun th' h ↦ (hs.unstored th' e h).2 key he
  refine hmarked.goto nofun (fun key' e' h ↦ .inr ?_) nofun fun e' h ↦ ?_
  · change (s.threads th).attempt = some (key', e') at h
    have : key' = key := by
      rw [hpc] at h
      cases by' with
      | abort e'' | retry e'' cause => exact (Prod.mk.inj (some_inj.1 h)).1.symm
      | route confirm | sweep => contradiction
    change update s.pendingPublishes key none key' ≠ some e'
    rw [this, update_self]
    exact nofun
  · cases h
    change (update s.entries e _ e).taker = some th ∧ e ∉ s.answered
    rw [update_self]
    exact ⟨rfl, fun h ↦ hs.answered e h htaker⟩

/-- A call takes the answer off its confirm channel: the entry is out already. -/
theorem receive {c e : ℕ} {key : ConfirmKey} {a : PublishConfirm} (hs : Tracked s)
    (hpc : s.threads (.call c) = .waiting key e) (ha : (s.entries e).confirm = some a)
    (hattempt : pc'.attempt = none) (hunstored : pc'.unstored = none) (htaken : pc'.taken = none) :
    Tracked ((s.setEntry e { s.entries e with confirm := none }).goto (.call c) pc') := by
  have htaker : (s.entries e).taker ≠ none := by
    refine hs.buffered e ?_
    rw [ha]
    exact some_ne_none a
  have hset : Tracked (s.setEntry e { s.entries e with confirm := none }) :=
    hs.setEntry rfl rfl rfl fun h ↦ absurd rfl h
  refine hset.goto (fun key' e' h ↦ ?_) (fun key' e' h ↦ .inr ?_) (fun e' h ↦ ?_)
    fun e' h ↦ ?_
  · simp [hattempt] at h
  · change (s.threads (.call c)).attempt = some (key', e') at h
    rw [hpc] at h
    cases h
    exact fun hsome ↦ htaker (hs.pending _ _ hsome).2
  · simp [hunstored] at h
  · simp [htaken] at h

/-- The entry a thread has taken is answered. -/
theorem answer {key : ConfirmKey} {e : ℕ} {by' : Untracker} {p : Pending} {b : Option ConfirmKey}
    (hs : Tracked s) (hpc : s.threads th = .answering key e by')
    (hcall : p.call = (s.entries e).call) (hkey : p.key = (s.entries e).key)
    (htaker : p.taker = (s.entries e).taker) (hattempt : pc'.attempt = none)
    (hunstored : pc'.unstored = none) (htaken : pc'.taken = none) :
    Tracked (((s.setEntry e p).log (.answered e b)).goto th pc') := by
  obtain ⟨hth, hnew⟩ := hs.taken th e (by rw [hpc]; rfl)
  have hout : (s.entries e).taker ≠ none := by
    rw [hth]
    exact some_ne_none th
  have hset : Tracked ((s.setEntry e p).goto th pc') :=
    (hs.setEntry hcall hkey htaker fun _ ↦ hout).goto_quiet
      (show (s.threads th).attempt = none by rw [hpc]; rfl) hattempt hunstored htaken
  have hset_taker : (update s.entries e p e).taker = some th := by
    rw [update_self, htaker, hth]
  refine ⟨hset.attempt, hset.pending, hset.unstored, fun th' e' h ↦ ?_, fun e' h ↦ ?_,
    hset.buffered, hset.fresh, nodup_cons.2 ⟨hnew, hset.once⟩⟩
  · obtain ⟨hth', hnot⟩ := hset.taken th' e' h
    refine ⟨hth', fun hmem ↦ ?_⟩
    rcases mem_cons.1 hmem with rfl | hmem
    · -- Whoever had taken the entry is the thread that has just answered it.
      obtain rfl : th' = th := some_inj.1 (hth'.symm.trans hset_taker)
      change (update s.threads th' pc' th').taken = _ at h
      simp [htaken] at h
    · exact hnot hmem
  · rcases mem_cons.1 h with rfl | hmem
    · change (update s.entries e' p e').taker ≠ none
      rw [hset_taker]
      exact some_ne_none th
    · exact hset.answered e' hmem

/-- The index and everything else that entries do not depend on. -/
theorem unindex {key : ConfirmKey} {e : ℕ} {by' : Untracker}
    {pendingMandatory : MandatoryKey → Option ℕ} (hs : Tracked s)
    (hpc : s.threads th = .unindexing key e by') :
    Tracked ({ s with pendingMandatory := pendingMandatory }.goto th
      (s.untracked th key e by')) := by
  have hsame : Tracked { s with pendingMandatory := pendingMandatory } :=
    hs.of_same ⟨rfl, rfl, rfl, rfl, fun _ ↦ rfl, fun _ ↦ rfl, fun _ ↦ rfl, hs.buffered⟩
  have hattempt : (s.untracked th key e by').attempt = none := by cases by' <;> rfl
  have hunstored : (s.untracked th key e by').unstored = none := by cases by' <;> rfl
  refine hsame.goto (fun _ _ h ↦ ?_) (fun key' e' h ↦ ?_) (fun _ h ↦ ?_) fun e' h ↦ ?_
  · simp [hattempt] at h
  · simp [hpc, Pc.attempt] at h
  · simp [hunstored] at h
  · have : e' = e := by
      cases by' with
      | route confirm | sweep => exact (some_inj.1 h).symm
      | abort | retry => contradiction
    subst this
    exact hs.taken th e' (by rw [hpc]; rfl)

/-- Only calls make attempts. -/
theorem attempt_dispatcher (hs : Tracked s) (g : ℕ) :
    (s.threads (.dispatcher g)).attempt = none := by
  refine eq_none_iff_forall_not_mem.2 fun ⟨key, e⟩ h ↦ ?_
  have := (hs.attempt _ key e h).1
  contradiction

/-- The state changes where entries do not depend on it, and a thread outside of attempts moves. -/
theorem quiet {u : State} (hs : Tracked s) (hsame : SameEntries s u)
    (hpc : (s.threads th).attempt = none) (hattempt : pc'.attempt = none)
    (hunstored : pc'.unstored = none) (htaken : pc'.taken = none) : Tracked (u.goto th pc') :=
  (hs.of_same hsame).goto_quiet (by rw [hsame.threads]; exact hpc) hattempt hunstored htaken

/-- The state changes where entries do not depend on it, and a call goes on with its attempt. -/
theorem going {u : State} {key : ConfirmKey} {e : ℕ} (hs : Tracked s) (hsame : SameEntries s u)
    (hpc : (s.threads th).attempt = some (key, e)) (hattempt : pc'.attempt = some (key, e))
    (hunstored : ∀ e', pc'.unstored = some e' → (s.threads th).unstored = some e')
    (htaken : pc'.taken = none) : Tracked (u.goto th pc') := by
  have hu := hs.of_same hsame
  rw [← hsame.threads] at hpc hunstored
  refine hu.goto (fun key' e' h ↦ ?_) (fun key' e' h ↦ .inl ?_)
    (fun e' h ↦ hu.unstored th e' (hunstored e' h)) fun e' h ↦ ?_
  · exact hu.attempt th key' e' (hpc.trans (hattempt.symm.trans h))
  · exact hattempt.trans (hpc.symm.trans h)
  · simp [htaken] at h

/-- Only channels, calls, the slot, the index or the client's flags change. -/
theorem sameEntries {u : State} (hs : Tracked s) (hthreads : u.threads = s.threads)
    (hpending : u.pendingPublishes = s.pendingPublishes) (hnext : u.nextEntry = s.nextEntry)
    (hhistory : u.answered = s.answered) (hentries : u.entries = s.entries) : SameEntries s u :=
  ⟨hthreads, hpending, hnext, hhistory, by simp [hentries], by simp [hentries],
    by simp [hentries], hentries ▸ hs.buffered⟩

/-- Every step keeps the invariant. -/
theorem step (hs : Tracked s) (h : (system maxPublishAttempts).step s l = some t) : Tracked t := by
  cases act_of_step h with
  | begin hpc _ _ | attempt hpc | acquire hpc _ | notReady hpc | takeConfirm hpc _
  | acquireUncond hpc _ | discard hpc =>
    refine hs.quiet (hs.sameEntries rfl rfl rfl rfl rfl) ?_ ?_ ?_ ?_
    · rw [hpc]
      rfl
    all_goals rfl
  | move hpc hmoves => exact hs.move hpc hmoves
  | snapshot hpc hkey hp =>
    exact hs.snapshot hpc (by rw [hp]) (by rw [hp]) (by rw [hp]) (by rw [hp])
  | index hpc hindex =>
    refine hs.going (hs.sameEntries rfl rfl rfl rfl rfl) ?_ rfl (fun e' h ↦ ?_) rfl
    · rw [hpc]
      rfl
    · rw [hpc]
      exact h
  | store hpc => exact hs.store hpc
  | send hpc hf hpc' =>
    rcases hpc' with rfl | rfl
    all_goals
      refine hs.going (hs.sameEntries rfl rfl rfl rfl rfl) ?_ rfl nofun rfl
      rw [hpc]
      rfl
  | @succeed c e key a hpc ha _ _ =>
    have := @receive s (.ended (.ok key)) c e key a hs hpc ha rfl rfl rfl
    exact this.of_same (this.sameEntries rfl rfl rfl rfl rfl)
  | @unroutable c e key a hpc ha _ =>
    have := @receive s (.retrying .unroutable) c e key a hs hpc ha rfl rfl rfl
    exact this.of_same (this.sameEntries rfl rfl rfl rfl rfl)
  | nacked hpc ha => exact hs.receive hpc ha rfl rfl rfl
  | retry hpc hcall hpc' =>
    rcases hpc' with rfl | ⟨rfl, -⟩
    all_goals
      refine hs.quiet (hs.sameEntries rfl rfl rfl rfl rfl) ?_ rfl rfl rfl
      rw [hpc]
      rfl
  | take hpc he => exact hs.take hpc he
  | unindex hpc hindex => exact hs.unindex hpc
  | answer hpc hp =>
    exact hs.answer hpc (by rw [hp]) (by rw [hp]) (by rw [hp]) (resume_attempt ..)
      (resume_unstored ..) (resume_taken ..)
  | brokerConfirm hf hch | brokerReturn hf _ hch =>
      exact hs.of_same (hs.sameEntries rfl rfl rfl rfl rfl)
  | @takeReturn _ g next ret rest hpc hreturns =>
    refine hs.quiet (hs.sameEntries rfl rfl rfl rfl rfl) ?_ rfl rfl rfl
    rcases hpc with ⟨hpc, -⟩ | hpc <;> rw [hpc] <;> rfl
  | @attach g e ret next hpc =>
    have hset : Tracked (s.setEntry e { s.entries e with returned := some ret }) :=
      hs.setEntry rfl rfl rfl (hs.buffered e)
    refine hset.goto_quiet (show (s.threads (.dispatcher g)).attempt = none by rw [hpc]; rfl)
      ?_ ?_ ?_ <;> cases next <;> rfl
  | install hpc =>
    have hidle : Tracked ({ s with publishSerial := none, generation := s.generation + 1 }.goto
        .reconnect .idle) := by
      refine hs.quiet (hs.sameEntries rfl rfl rfl rfl rfl) ?_ rfl rfl rfl
      rw [hpc]
      rfl
    exact hidle.goto_quiet (hidle.attempt_dispatcher _) rfl rfl rfl
  | environment => exact hs.of_same (hs.sameEntries rfl rfl rfl rfl rfl)

end Tracked

/-- The invariant holds along every run. -/
theorem tracked_of_reachable (hs : (system maxPublishAttempts).Reachable s) : Tracked s := by
  refine hs.invariant ?_ fun _ _ _ _ _ htracked h ↦ htracked.step h
  rintro s rfl
  exact {
    attempt := nofun
    pending := nofun
    unstored := nofun
    taken := nofun
    answered := fun _ h ↦ absurd h not_mem_nil
    buffered := fun _ h ↦ absurd rfl h
    fresh := fun _ _ ↦ rfl
    once := nodup_nil }

end Amqp
