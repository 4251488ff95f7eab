import GoBricks.Amqp.Slot
import GoBricks.Amqp.Tracked

/-!
# The two maps in step

`trackPending` and `untrackPending` keep the index of the Mandatory entries in step with the pending
publishes: an entry that is in the index belongs to a running attempt, or the thread that took it
out of the pending publishes is about to take it out of the index (`Paired.index`).

A publish that fails may not have drawn its tag, and it removes its registration after it has left
the slot. The next publish may then be stored under the same key before, and what the failed one
removes is the newer registration; its own stays in the index. So all this is for runs in which no
publish is stored under a key that another one still holds (`State.untangled`).
-/

namespace Amqp

open Function Option

variable {maxPublishAttempts : ℤ} {s t u : State} {l : Label} {th : Thread} {pc pc' : Pc}
  {key : ConfirmKey} {c e : ℕ}

/-- No publish is stored under a key that another one still holds. -/
def State.untangled (s : State) : Label → Bool
  | .store c =>
    match s.threads (.call c) with
    | .storing key _ => s.pendingPublishes key = none
    | _ => true
  | _ => true

/-- The thread that took the entry is about to take it out of the index. -/
def State.Unindexing (s : State) (e : ℕ) : Prop :=
  ∃ th by', s.threads th = .unindexing (s.entries e).key e by'

/-- The attempt that the entry was made for is running. -/
def State.Running (s : State) (e : ℕ) : Prop :=
  (s.threads (.call (s.entries e).call)).attempt = some ((s.entries e).key, e)

/-- The index has the entries of running attempts, and those that are being taken out of it. -/
structure Paired (s : State) : Prop where
  /-- An entry is in the index at its own place. -/
  home : ∀ mkey e, s.pendingMandatory mkey = some e → e < s.nextEntry ∧
    (s.entries e).messageID ≠ "" ∧ mkey = ⟨(s.entries e).key.generation, (s.entries e).messageID⟩
  /-- What an attempt has stored is still there, or somebody has taken it. -/
  stored : ∀ th key e, (s.threads th).attempt = some (key, e) → (s.threads th).unstored = none →
    s.pendingPublishes key = some e ∨ (s.entries e).taker ≠ none
  index : ∀ mkey e, s.pendingMandatory mkey = some e →
    (s.entries e).taker = none ∧ s.Running e ∨ s.Unindexing e

/-- Neither the maps change nor what entries were made for and who took them. -/
structure SamePairs (s u : State) : Prop where
  threads : u.threads = s.threads
  pending : u.pendingPublishes = s.pendingPublishes
  index : u.pendingMandatory = s.pendingMandatory
  nextEntry : u.nextEntry = s.nextEntry
  call : ∀ e, (u.entries e).call = (s.entries e).call
  key : ∀ e, (u.entries e).key = (s.entries e).key
  messageID : ∀ e, (u.entries e).messageID = (s.entries e).messageID
  taker : ∀ e, (u.entries e).taker = (s.entries e).taker

theorem samePairs (hthreads : u.threads = s.threads)
    (hpending : u.pendingPublishes = s.pendingPublishes)
    (hindex : u.pendingMandatory = s.pendingMandatory) (hnext : u.nextEntry = s.nextEntry)
    (hentries : u.entries = s.entries) : SamePairs s u :=
  ⟨hthreads, hpending, hindex, hnext, by simp [hentries], by simp [hentries], by simp [hentries],
    by simp [hentries]⟩

/-- An entry's answer and return may change, and what is recorded. -/
theorem samePairs_setEntry {p : Pending} {history : List Event}
    (hcall : p.call = (s.entries e).call) (hkey : p.key = (s.entries e).key)
    (hid : p.messageID = (s.entries e).messageID) (htaker : p.taker = (s.entries e).taker) :
    SamePairs s { s.setEntry e p with history := history } :=
  ⟨rfl, rfl, rfl, rfl, by grind, by grind, by grind, by grind⟩

namespace Paired

/-- A thread moves on. An attempt ends only when somebody has taken its entry. -/
theorem goto (hs : Paired s)
    (hstored : ∀ key e, pc'.attempt = some (key, e) → pc'.unstored = none →
      s.pendingPublishes key = some e ∨ (s.entries e).taker ≠ none)
    (hleaves : ∀ key e, (s.threads th).attempt = some (key, e) →
      pc'.attempt = some (key, e) ∨ (s.entries e).taker ≠ none)
    (hquiet : ∀ key e by', s.threads th ≠ .unindexing key e by') : Paired (s.goto th pc') where
  home := hs.home
  stored := by
    refine (forall_update_iff _ fun (_ : Thread) (pc : Pc) ↦ ∀ key e, pc.attempt = some (key, e) →
      pc.unstored = none → s.pendingPublishes key = some e ∨ (s.entries e).taker ≠ none).2
        ⟨hstored, fun th' _ ↦ hs.stored th'⟩
  index mkey e he := by
    rcases hs.index mkey e he with ⟨htaker, hrunning⟩ | ⟨th', by', hth'⟩
    · refine .inl ⟨htaker, ?_⟩
      rcases threads_goto s th pc' (.call (s.entries e).call) with heq | ⟨hth, heq⟩
      · exact (congrArg Pc.attempt heq).trans hrunning
      · rw [State.Running, hth] at hrunning
        exact (congrArg Pc.attempt heq).trans
          ((hleaves _ e hrunning).resolve_right fun h ↦ h htaker)
    · refine .inr ⟨th', by', ?_⟩
      rcases threads_goto s th pc' th' with heq | ⟨hth, -⟩
      · exact heq.trans hth'
      · exact absurd (hth ▸ hth') (hquiet _ _ _)

/-- A step that touches neither map keeps the pairs. -/
theorem of_same (hs : Paired s) (h : SamePairs s u) : Paired u where
  home mkey e he := by
    rw [h.nextEntry, h.key, h.messageID]
    exact hs.home mkey e (h.index ▸ he)
  stored th key e := by
    rw [h.threads, h.pending, h.taker]
    exact hs.stored th key e
  index mkey e he := by
    rw [State.Running, State.Unindexing, h.threads, h.call, h.key, h.taker]
    exact hs.index mkey e (h.index ▸ he)

/-- Nothing of this changes, and a thread outside of attempts moves. -/
theorem quiet (hs : Paired s) (hsame : SamePairs s u) (hpc : s.threads th = pc)
    (hattempt : pc.attempt = none) (hattempt' : pc'.attempt = none)
    (hquiet : ∀ key e by', pc ≠ .unindexing key e by') : Paired (u.goto th pc') := by
  subst hpc
  refine (hs.of_same hsame).goto (fun key e h ↦ ?_) (fun key e h ↦ ?_) ?_
  · simp [hattempt'] at h
  · simp [hsame.threads, hattempt] at h
  · rwa [hsame.threads]

/-- Nothing of this changes, and an attempt goes on with what it has stored. -/
theorem going (hs : Paired s) (hsame : SamePairs s u) (hpc : s.threads th = pc)
    (hunstored : pc.unstored = none) (hattempt : pc'.attempt = pc.attempt)
    (hquiet : ∀ key e by', pc ≠ .unindexing key e by') : Paired (u.goto th pc') := by
  subst hpc
  refine (hs.of_same hsame).goto (fun key e h _ ↦ ?_) (fun key e h ↦ .inl ?_) ?_
  · rw [hsame.pending, hsame.taker]
    exact hs.stored th key e (hattempt ▸ h) hunstored
  · rw [hattempt, ← hsame.threads, h]
  · rwa [hsame.threads]

/-- A call takes the answer off its confirm channel: its entry was taken. -/
theorem receive {a : PublishConfirm} (hs : Paired s) (htracked : Tracked s) (hsame : SamePairs s u)
    (hpc : s.threads (.call c) = .waiting key e) (ha : (s.entries e).confirm = some a)
    (hattempt : pc'.attempt = none) : Paired (u.goto (.call c) pc') := by
  refine (hs.of_same hsame).goto (fun key e h ↦ ?_) (fun key' e' h ↦ .inr ?_) ?_
  · simp [hattempt] at h
  · rw [hsame.threads, hpc] at h
    obtain ⟨-, rfl⟩ := Prod.mk.inj (some_inj.1 h)
    rw [hsame.taker]
    exact htracked.buffered e (ha ▸ some_ne_none a)
  · rw [hsame.threads, hpc]
    exact nofun

/-- The entry a call has made is put into the index. -/
theorem index_entry {pendingMandatory : MandatoryKey → Option ℕ} (hs : Paired s)
    (htracked : Tracked s) (hpc : s.threads (.call c) = .indexing key e)
    (hindex : pendingMandatory = if (s.entries e).messageID ≠ "" then
      update s.pendingMandatory ⟨key.generation, (s.entries e).messageID⟩ (some e)
      else s.pendingMandatory) : Paired { s with pendingMandatory := pendingMandatory } := by
  obtain ⟨hth, hkey, hlt⟩ := htracked.attempt (.call c) key e (by rw [hpc]; rfl)
  obtain ⟨htaker, -⟩ := htracked.unstored (.call c) e (by rw [hpc]; rfl)
  have hrunning : s.Running e := by
    rw [State.Running, ← hth, hpc, hkey]
    rfl
  have hold {mkey : MandatoryKey} {e' : ℕ} (h : pendingMandatory mkey = some e') :
      s.pendingMandatory mkey = some e' ∨ e' = e ∧ (s.entries e).messageID ≠ "" ∧
        mkey = ⟨(s.entries e).key.generation, (s.entries e).messageID⟩ := by
    rw [hindex] at h
    split at h
    · next hid =>
      rw [update_apply] at h
      split at h
      · next hmkey => exact .inr ⟨(some_inj.1 h).symm, hid, hkey ▸ hmkey⟩
      · exact .inl h
    · exact .inl h
  refine ⟨fun mkey e' h ↦ ?_, hs.stored, fun mkey e' h ↦ ?_⟩
  · rcases hold h with h | ⟨rfl, hid, hmkey⟩
    · exact hs.home mkey e' h
    · exact ⟨hlt, hid, hmkey⟩
  · rcases hold h with h | ⟨rfl, -, -⟩
    · exact hs.index mkey e' h
    · exact .inl ⟨htaker, hrunning⟩

/-- A call makes the entry of its next attempt. -/
theorem setEntry_fresh {p : Pending} (hs : Paired s) (htracked : Tracked s) :
    Paired ({ s with nextEntry := s.nextEntry + 1 }.setEntry s.nextEntry p) := by
  set u := { s with nextEntry := s.nextEntry + 1 }.setEntry s.nextEntry p
  have hold {e : ℕ} (he : e < s.nextEntry) : u.entries e = s.entries e := by grind
  refine ⟨fun mkey e h ↦ ?_, fun th key e h ↦ ?_, fun mkey e h ↦ ?_⟩
  · obtain ⟨hlt, hhome⟩ := hs.home mkey e h
    rw [hold hlt]
    exact ⟨Nat.lt_succ_of_lt hlt, hhome⟩
  · rw [hold (htracked.attempt th key e h).2.2]
    exact hs.stored th key e h
  · rw [State.Running, State.Unindexing, hold (hs.home mkey e h).1]
    exact hs.index mkey e h

/-- An entry is stored under a key that is free. -/
theorem store (hs : Paired s) (hpc : s.threads (.call c) = .storing key e)
    (hfree : s.pendingPublishes key = none) :
    Paired ({ s with pendingPublishes := update s.pendingPublishes key (some e) }.goto
      (.call c) (.sending key e)) := by
  have hstored : Paired { s with pendingPublishes := update s.pendingPublishes key (some e) } := by
    refine ⟨hs.home, fun th key' e' h hunstored ↦ ?_, hs.index⟩
    rcases hs.stored th key' e' h hunstored with hpending | htaker
    · refine .inl ((update_of_ne ?_ ..).trans hpending)
      rintro rfl
      cases hfree.symm.trans hpending
    · exact .inr htaker
  refine hstored.goto (fun key' e' h _ ↦ ?_) (fun key' e' h ↦ ?_) fun _ _ _ ↦ ?_
  · cases h
    exact .inl (update_self ..)
  · exact .inl ((congrArg Pc.attempt hpc).symm.trans h)
  · exact hpc ▸ nofun

/-- An entry is taken out of the pending publishes. -/
theorem take {by' : Untracker} (hs : Paired s) (htracked : Tracked s)
    (hpc : s.threads th = .untracking key by') (he : s.pendingPublishes key = some e) :
    Paired ({ s.setEntry e { s.entries e with taker := some th } with
      pendingPublishes := update s.pendingPublishes key none }.goto th
        (.unindexing key e by')) := by
  have hkey := (htracked.attempt _ key e (htracked.pending key e he).1).2.1
  set u := { s.setEntry e { s.entries e with taker := some th } with
    pendingPublishes := update s.pendingPublishes key none }
  have hu (e' : ℕ) : (u.entries e').call = (s.entries e').call ∧
      (u.entries e').key = (s.entries e').key ∧
      (u.entries e').messageID = (s.entries e').messageID := by grind
  have hself : (u.entries e).taker = some th := by grind
  have htaken {e' : ℕ} (h : (s.entries e').taker ≠ none) : (u.entries e').taker ≠ none := by grind
  have hnext : (u.goto th (.unindexing key e by')).threads th = .unindexing key e by' :=
    update_self ..
  refine ⟨fun mkey e' h ↦ ?_, fun th' key' e' h hunstored ↦ ?_, fun mkey e' h ↦ ?_⟩
  · change e' < s.nextEntry ∧ (u.entries e').messageID ≠ "" ∧
      mkey = ⟨(u.entries e').key.generation, (u.entries e').messageID⟩
    rw [(hu e').2.1, (hu e').2.2]
    exact hs.home mkey e' h
  · change update s.pendingPublishes key none key' = some e' ∨ (u.entries e').taker ≠ none
    rcases threads_goto u th (.unindexing key e by') th' with heq | ⟨-, heq⟩
    · rw [heq] at h hunstored
      rcases hs.stored th' key' e' h hunstored with hpending | htaker
      · by_cases hne : key' = key
        · rw [hne, he] at hpending
          cases hpending
          exact .inr (hself ▸ some_ne_none th)
        · exact .inl ((update_of_ne hne ..).trans hpending)
      · exact .inr (htaken htaker)
    · rw [heq] at h
      cases h
  · change (u.entries e').taker = none ∧ (u.goto th (.unindexing key e by')).Running e' ∨ _
    by_cases hne : e' = e
    · refine .inr ⟨th, by', ?_⟩
      subst hne
      exact hnext.trans (by rw [← hkey, ← (hu e').2.1]; rfl)
    have hother : u.entries e' = s.entries e' := update_of_ne hne ..
    rcases hs.index mkey e' h with ⟨htaker, hrunning⟩ | ⟨th', by'', hth'⟩
    · refine .inl ⟨by rw [hother, htaker], ?_⟩
      change ((u.goto th (.unindexing key e by')).threads (.call (u.entries e').call)).attempt = _
      rw [hother]
      rcases threads_goto u th (.unindexing key e by') (.call (s.entries e').call) with
        heq | ⟨hth, -⟩
      · rw [show (u.goto th (.unindexing key e by')).entries e' = s.entries e' from hother]
        exact (congrArg Pc.attempt heq).trans hrunning
      · -- The call of another entry takes this one only after its own was taken.
        rw [State.Running, hth] at hrunning
        have hkey' : (s.entries e').key = key := by
          rw [hpc] at hrunning
          cases by' with
          | abort | retry => exact (Prod.mk.inj (some_inj.1 hrunning)).1.symm
          | route | sweep => cases hrunning
        have hunstored : (s.threads th).unstored = none := by rw [hpc]; rfl
        rcases hs.stored th _ e' hrunning hunstored with hpending | htaker'
        · rw [hkey', he] at hpending
          exact absurd (some_inj.1 hpending).symm hne
        · exact absurd htaker htaker'
    · refine .inr ⟨th', by'', ?_⟩
      rw [show (u.goto th (.unindexing key e by')).entries e' = s.entries e' from hother]
      rcases threads_goto u th (.unindexing key e by') th' with heq | ⟨rfl, -⟩
      · exact heq.trans hth'
      · cases hpc.symm.trans hth'

/-- The entry that was taken is out of the index. -/
theorem unindex {by' : Untracker} {pendingMandatory : MandatoryKey → Option ℕ} (hs : Paired s)
    (hpc : s.threads th = .unindexing key e by')
    (hindex : pendingMandatory =
      if (s.entries e).messageID ≠ "" ∧
        s.pendingMandatory ⟨key.generation, (s.entries e).messageID⟩ = some e then
      update s.pendingMandatory ⟨key.generation, (s.entries e).messageID⟩ none
      else s.pendingMandatory) (hattempt : pc'.attempt = none) :
    Paired ({ s with pendingMandatory := pendingMandatory }.goto th pc') := by
  have hold {mkey : MandatoryKey} {e' : ℕ} (h : pendingMandatory mkey = some e') :
      s.pendingMandatory mkey = some e' := by
    rw [hindex] at h
    split at h
    · rw [update_apply] at h
      split at h
      · cases h
      · exact h
    · exact h
  refine ⟨fun mkey e' h ↦ hs.home mkey e' (hold h), ?_, fun mkey e' h ↦ ?_⟩
  · refine (forall_update_iff _ fun (_ : Thread) (pc : Pc) ↦ ∀ key e, pc.attempt = some (key, e) →
      pc.unstored = none → s.pendingPublishes key = some e ∨ (s.entries e).taker ≠ none).2
        ⟨fun key e h ↦ ?_, fun th' _ ↦ hs.stored th'⟩
    simp [hattempt] at h
  · rcases hs.index mkey e' (hold h) with ⟨htaker, hrunning⟩ | ⟨th', by'', hth'⟩
    · refine .inl ⟨htaker, ?_⟩
      rcases threads_goto s th pc' (.call (s.entries e').call) with heq | ⟨hth, -⟩
      · exact (congrArg Pc.attempt heq).trans hrunning
      · rw [State.Running, hth, hpc] at hrunning
        cases hrunning
    · rcases threads_goto s th pc' th' with heq | ⟨rfl, -⟩
      · exact .inr ⟨th', by'', heq.trans hth'⟩
      · -- The thread has just removed what the index held for its entry.
        obtain ⟨hkey, rfl, -⟩ := Pc.unindexing.inj (hpc.symm.trans hth')
        obtain ⟨-, hid, hmkey⟩ := hs.home mkey e (hold h)
        rw [← hkey] at hmkey
        have hhere := hold h
        rw [hmkey] at hhere
        change pendingMandatory mkey = some e at h
        rw [hindex, if_pos ⟨hid, hhere⟩, hmkey, update_self] at h
        cases h

end Paired

/-- Where a thread is that moves and changes nothing. -/
theorem Moves.source (h : Moves s th pc pc') :
    pc.unstored = none ∧ ∀ key e by', pc ≠ .unindexing key e by' := by
  cases h <;> exact ⟨rfl, nofun⟩

/-- A move keeps the pairs. -/
theorem Paired.move (hs : Paired s) (hpc : s.threads th = pc) (h : Moves s th pc pc') :
    Paired (s.goto th pc') := by
  subst hpc
  refine hs.goto (fun key e he _ ↦ ?_) (fun key e he ↦ ?_) h.source.2
  · rcases h.attempt with heq | ⟨hnone, -⟩
    · exact hs.stored th key e (heq ▸ he) h.source.1
    · simp [hnone] at he
  · rcases h.attempt with heq | ⟨-, hout⟩
    · exact .inl (heq ▸ he)
    · refine .inr ((hs.stored th key e he h.source.1).resolve_left fun hpending ↦ ?_)
      simp [hout key e he] at hpending

/-- Every untangled step keeps the pairs. -/
theorem Paired.step (hs : Paired s) (htracked : Tracked s) (hunstarted : s.Unstarted)
    (hl : s.untangled l = true) (h : (system maxPublishAttempts).step s l = some t) : Paired t := by
  cases act_of_step h with
  | begin hpc _ _ | attempt hpc | acquire hpc _ | notReady hpc | acquireUncond hpc _
  | discard hpc | takeConfirm hpc _ =>
    exact hs.quiet (samePairs rfl rfl rfl rfl rfl) hpc rfl rfl nofun
  | move hpc hmoves => exact hs.move hpc hmoves
  | snapshot hpc _ _ =>
    refine (hs.setEntry_fresh htracked).goto nofun (fun key e h ↦ ?_) fun _ _ _ hth ↦ ?_
    · cases (congrArg Pc.attempt hpc).symm.trans h
    · cases hpc.symm.trans hth
  | index hpc hindex =>
    refine (hs.index_entry htracked hpc hindex).goto nofun (fun key e h ↦ .inl ?_)
      fun _ _ _ hth ↦ ?_
    · exact (congrArg Pc.attempt hpc).symm.trans h
    · cases hpc.symm.trans hth
  | store hpc =>
    rw [State.untangled, hpc] at hl
    exact hs.store hpc (of_decide_eq_true hl)
  | send hpc _ hpc' =>
    refine hs.going (samePairs rfl rfl rfl rfl rfl) hpc rfl ?_ nofun
    rcases hpc' with rfl | rfl <;> rfl
  | succeed hpc ha _ _ | unroutable hpc ha _ =>
    exact hs.receive htracked (samePairs_setEntry rfl rfl rfl rfl) hpc ha rfl
  | nacked hpc ha =>
    exact hs.receive htracked (samePairs_setEntry rfl rfl rfl rfl) hpc ha rfl
  | retry hpc _ hpc' =>
    rcases hpc' with rfl | ⟨rfl, -⟩ <;>
      exact hs.quiet (samePairs rfl rfl rfl rfl rfl) hpc rfl rfl nofun
  | take hpc he => exact hs.take htracked hpc he
  | @unindex th key e by' _ hpc hindex =>
    exact hs.unindex hpc hindex (by cases by' <;> rfl)
  | answer hpc hp =>
    exact hs.quiet (samePairs_setEntry (by rw [hp]) (by rw [hp]) (by rw [hp]) (by rw [hp])) hpc rfl
      (resume_attempt ..) nofun
  | brokerConfirm _ _ | brokerReturn _ _ _ | environment =>
    exact hs.of_same (samePairs rfl rfl rfl rfl rfl)
  | takeReturn hpc _ =>
    rcases hpc with ⟨hpc, -⟩ | hpc <;>
      exact hs.quiet (samePairs rfl rfl rfl rfl rfl) hpc rfl rfl nofun
  | @attach g e ret next hpc =>
    refine hs.quiet (samePairs_setEntry rfl rfl rfl rfl) hpc rfl ?_ nofun
    cases next <;> rfl
  | install hpc =>
    have hfresh : ({ s with publishSerial := none, generation := s.generation + 1 }.goto .reconnect
        .idle).threads (.dispatcher (s.generation + 1)) = .idle :=
      hunstarted _ (Nat.lt_succ_self _)
    have hidle := hs.quiet (samePairs rfl rfl rfl rfl rfl :
      SamePairs s { s with publishSerial := none, generation := s.generation + 1 }) hpc rfl
        (show Pc.idle.attempt = none from rfl) nofun
    refine hidle.goto nofun (fun key e h ↦ ?_) ?_
    · cases (congrArg Pc.attempt hfresh).symm.trans h
    · exact fun _ _ _ hth ↦ by cases hfresh.symm.trans hth

/-- The pairs are kept along every untangled run. -/
theorem paired_of_reach
    (hs : (system maxPublishAttempts).Reach (fun s l ↦ s.untangled l = true) s) : Paired s := by
  refine hs.invariant ?_ fun _ _ _ hr hl hpaired h ↦
    hpaired.step (tracked_of_reachable hr.reachable) (unstarted_of_reachable hr.reachable) hl h
  rintro s rfl
  exact ⟨nofun, nofun, nofun⟩

end Amqp
