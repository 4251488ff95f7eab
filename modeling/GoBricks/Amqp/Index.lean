import GoBricks.Amqp.Return

/-!
# The index of Mandatory publishes

`trackPending` overwrites what the index holds for a message id, so two publishes in flight with one
id share one place. As long as no call begins with the id of a Mandatory call that is still running
(`DistinctIDs`), every Mandatory entry that is stored, or about to be, is found by its id
(`Indexed.index`).
-/

namespace Amqp

open Function

variable {maxPublishAttempts : ℤ} {s t u : State} {l : Label} {th : Thread} {pc pc' : Pc}

/-- A call that has begun and not ended. -/
def Pc.running : Pc → Bool
  | .idle | .ended _ => false
  | _ => true

/-- No Mandatory call begins with the message id of a Mandatory call in flight. -/
def DistinctIDs (s : State) : Label → Prop
  | .begin _ true messageID minted => ∀ c, (s.threads (.call c)).running = true →
    (s.calls c).mandatory = true →
      (s.calls c).messageID ≠ if messageID = "" then minted else messageID
  | _ => True

/-- The entry is stored, or its call is about to store it. -/
def State.Registered (s : State) (key : ConfirmKey) (e : ℕ) : Prop :=
  s.pendingPublishes key = some e ∨ s.threads (.call (s.entries e).call) = .storing key e

/-- The entry of a Mandatory publish is found by its message id. -/
def State.InIndex (s : State) (key : ConfirmKey) (e : ℕ) : Prop :=
  (s.entries e).messageID ≠ "" →
    s.pendingMandatory ⟨key.generation, (s.entries e).messageID⟩ = some e

/-- Mandatory calls that run have ids of their own, so the index has each of their entries. -/
structure Indexed (s : State) : Prop where
  unique : ∀ c c', (s.threads (.call c)).running = true → (s.threads (.call c')).running = true →
    (s.calls c).mandatory = true → (s.calls c').mandatory = true →
      (s.calls c).messageID = (s.calls c').messageID → c = c'
  index : ∀ key e, s.Registered key e → s.InIndex key e

theorem running_of_attempt {r : ConfirmKey × ℕ} (h : pc.attempt = some r) : pc.running = true := by
  cases pc with
  | idle | ended => contradiction
  | _ => rfl

variable {key : ConfirmKey} {e : ℕ}

/-- A registered entry belongs to the attempt of its call. -/
theorem Tracked.registered (hs : Tracked s) (h : s.Registered key e) :
    (s.threads (.call (s.entries e).call)).attempt = some (key, e) ∧ (s.entries e).taker = none ∧
      e < s.nextEntry := by
  rcases h with hpending | hstoring
  · obtain ⟨hattempt, htaker⟩ := hs.pending key e hpending
    exact ⟨hattempt, htaker, (hs.attempt _ key e hattempt).2.2⟩
  · have hattempt : (s.threads (.call (s.entries e).call)).attempt = some (key, e) := by
      rw [hstoring]
      rfl
    exact ⟨hattempt, (hs.unstored _ e (by rw [hstoring]; rfl)).1, (hs.attempt _ key e hattempt).2.2⟩

/-- An entry that is indexed at all belongs to a Mandatory call. -/
theorem Origins.mandatory (hs : Origins s) (he : e < s.nextEntry)
    (hid : (s.entries e).messageID ≠ "") : (s.calls (s.entries e).call).mandatory = true ∧
      (s.entries e).messageID = (s.calls (s.entries e).call).messageID := by
  have hentry := (hs.entry e he).2
  rw [Call.indexID] at hentry
  split at hentry
  · next h => exact ⟨h, hentry⟩
  · exact absurd hentry hid

namespace Indexed

/-- Two registered Mandatory entries do not share a message id. -/
theorem eq_of_id {key' : ConfirmKey} {e' : ℕ} (hs : Indexed s) (horigins : Origins s)
    (he : e < s.nextEntry) (he' : e' < s.nextEntry)
    (hattempt : (s.threads (.call (s.entries e).call)).attempt = some (key, e))
    (hattempt' : (s.threads (.call (s.entries e').call)).attempt = some (key', e'))
    (hid : (s.entries e).messageID ≠ "")
    (heq : (s.entries e).messageID = (s.entries e').messageID) : e = e' := by
  obtain ⟨hmandatory, hcall⟩ := horigins.mandatory he hid
  obtain ⟨hmandatory', hcall'⟩ := horigins.mandatory he' (heq ▸ hid)
  have hsame := hs.unique _ _ (running_of_attempt hattempt) (running_of_attempt hattempt')
    hmandatory hmandatory' (by rw [← hcall, ← hcall', heq])
  rw [hsame, hattempt'] at hattempt
  exact (Prod.mk.inj (Option.some_inj.1 hattempt)).2.symm

/-- A thread moves; no call starts running or storing. -/
theorem goto (hs : Indexed s) (hrunning : (s.threads th).running = true ∨ pc'.running = false ∨
      ∀ c, th ≠ .call c) (hstoring : ∀ key e, pc' ≠ .storing key e) : Indexed (s.goto th pc') := by
  have hrun {c : ℕ} (h : ((s.goto th pc').threads (.call c)).running = true) :
      (s.threads (.call c)).running = true := by
    rcases threads_goto s th pc' (.call c) with heq | ⟨rfl, heq⟩
    · rwa [heq] at h
    · rw [heq] at h
      rcases hrunning with hold | hnew | hother
      · exact hold
      · rw [hnew] at h
        contradiction
      · exact absurd rfl (hother c)
  refine ⟨fun c c' h h' ↦ hs.unique c c' (hrun h) (hrun h'), fun key e h ↦ hs.index key e ?_⟩
  rcases h with hpending | hstore
  · exact .inl hpending
  · rcases threads_goto s th pc' (.call (s.entries e).call) with heq | ⟨-, heq⟩
    · exact .inr (heq ▸ hstore)
    · exact absurd (heq.symm.trans hstore) (hstoring key e)

/-- Neither the index nor what calls and entries were made with change, and entries are at most
removed. -/
theorem same_goto (hs : Indexed s) (hthreads : u.threads = s.threads)
    (hcalls : ∀ c, (u.calls c).mandatory = (s.calls c).mandatory ∧
      (u.calls c).messageID = (s.calls c).messageID)
    (hentries : ∀ e, (u.entries e).messageID = (s.entries e).messageID ∧
      (u.entries e).call = (s.entries e).call)
    (hpending : ∀ key e, u.pendingPublishes key = some e → s.pendingPublishes key = some e)
    (hindex : u.pendingMandatory = s.pendingMandatory)
    (hrunning : (s.threads th).running = true ∨ pc'.running = false ∨ ∀ c, th ≠ .call c)
    (hstoring : ∀ key e, pc' ≠ .storing key e) : Indexed (u.goto th pc') := by
  have hu : Indexed u := by
    constructor
    · intro c c'
      rw [hthreads, (hcalls c).1, (hcalls c').1, (hcalls c).2, (hcalls c').2]
      exact hs.unique c c'
    · intro key e hreg
      rw [State.InIndex, (hentries e).1, hindex]
      refine hs.index key e (hreg.imp (hpending key e) fun hstoring ↦ ?_)
      rwa [(hentries e).2, hthreads] at hstoring
  exact hu.goto (hthreads ▸ hrunning) hstoring

/-- A call begins with an id that no Mandatory call in flight has. -/
theorem begin {c : ℕ} {call : Call} (hs : Indexed s) (hpc : s.threads (.call c) = .idle)
    (hdistinct : call.mandatory = true → ∀ c', (s.threads (.call c')).running = true →
      (s.calls c').mandatory = true → (s.calls c').messageID ≠ call.messageID) :
    Indexed ((s.setCall c call).goto (.call c) .guarding) := by
  set t := (s.setCall c call).goto (.call c) .guarding
  have hself : t.calls c = call := update_self ..
  have hother {c' : ℕ} (hne : c' ≠ c) :
      t.calls c' = s.calls c' ∧ t.threads (.call c') = s.threads (.call c') :=
    ⟨update_of_ne hne .., update_of_ne (fun h ↦ hne (Thread.call.inj h)) ..⟩
  constructor
  · intro c₁ c₂ h₁ h₂ hm₁ hm₂ hid
    by_cases hc₁ : c₁ = c <;> by_cases hc₂ : c₂ = c
    · exact hc₁.trans hc₂.symm
    · subst hc₁
      rw [hself] at hm₁ hid
      rw [(hother hc₂).1] at hm₂ hid
      rw [(hother hc₂).2] at h₂
      exact absurd hid.symm (hdistinct hm₁ c₂ h₂ hm₂)
    · subst hc₂
      rw [hself] at hm₂ hid
      rw [(hother hc₁).1] at hm₁ hid
      rw [(hother hc₁).2] at h₁
      exact absurd hid (hdistinct hm₂ c₁ h₁ hm₁)
    · rw [(hother hc₁).1] at hm₁ hid
      rw [(hother hc₂).1] at hm₂ hid
      exact hs.unique c₁ c₂ ((hother hc₁).2 ▸ h₁) ((hother hc₂).2 ▸ h₂) hm₁ hm₂ hid
  · intro key e hreg
    refine hs.index key e (hreg.imp_right fun hstoring ↦ ?_)
    rcases threads_goto (s.setCall c call) (.call c) .guarding (.call (s.entries e).call) with
      heq | ⟨-, heq⟩
    · exact heq ▸ hstoring
    · exact nomatch heq.symm.trans hstoring

/-- A fresh entry is made; it is not registered yet. -/
theorem snapshot {c : ℕ} {p : Pending} (hs : Indexed s) (htracked : Tracked s)
    (hpc : s.threads (.call c) = .snapshotting) (hcall : p.call = c) :
    Indexed (({ s with nextEntry := s.nextEntry + 1 }.setEntry s.nextEntry p).goto (.call c)
      (.indexing key s.nextEntry)) := by
  have hfresh : Indexed ({ s with nextEntry := s.nextEntry + 1 }.setEntry s.nextEntry p) := by
    set u := { s with nextEntry := s.nextEntry + 1 }.setEntry s.nextEntry p
    have hother {e : ℕ} (hne : e ≠ s.nextEntry) : u.entries e = s.entries e :=
      update_of_ne hne ..
    refine ⟨hs.unique, fun key e hreg ↦ ?_⟩
    by_cases he : e = s.nextEntry
    · rcases hreg with hpending | hstoring
      · exact absurd he (Nat.ne_of_lt (htracked.registered (.inl hpending)).2.2)
      · have hentry : u.entries e = p := by rw [he]; exact update_self ..
        rw [hentry, hcall] at hstoring
        exact nomatch hpc.symm.trans hstoring
    · rw [State.InIndex, hother he]
      refine hs.index key e (hreg.imp_right fun hstoring ↦ ?_)
      rwa [hother he] at hstoring
  have hrunning : (s.threads (.call c)).running = true := by rw [hpc]; rfl
  exact hfresh.goto (.inl hrunning) nofun

/-- An entry is indexed. What the index held under its id was not registered. -/
theorem index_entry {c : ℕ} {pendingMandatory : MandatoryKey → Option ℕ} (hs : Indexed s)
    (htracked : Tracked s) (horigins : Origins s) (hpc : s.threads (.call c) = .indexing key e)
    (hindex : pendingMandatory = if (s.entries e).messageID ≠ "" then
      update s.pendingMandatory ⟨key.generation, (s.entries e).messageID⟩ (some e)
      else s.pendingMandatory) :
    Indexed ({ s with pendingMandatory := pendingMandatory }.goto (.call c) (.storing key e)) := by
  obtain ⟨hth, -, hlt⟩ := htracked.attempt (.call c) key e (by rw [hpc]; rfl)
  have hattempt : (s.threads (.call (s.entries e).call)).attempt = some (key, e) := by
    rw [← hth, hpc]
    rfl
  have hnew : { s with pendingMandatory := pendingMandatory }.InIndex key e := by
    intro hid
    change pendingMandatory _ = _
    rw [hindex, if_pos hid, update_self]
  have hold {key' : ConfirmKey} {e' : ℕ} (hreg : s.Registered key' e') :
      { s with pendingMandatory := pendingMandatory }.InIndex key' e' := by
    intro hid
    have hin := hs.index key' e' hreg hid
    change pendingMandatory ⟨key'.generation, (s.entries e').messageID⟩ = _
    rw [hindex]
    split
    · by_cases hmkey : (⟨key'.generation, (s.entries e').messageID⟩ : MandatoryKey) =
        ⟨key.generation, (s.entries e).messageID⟩
      · obtain ⟨hattempt', -, hlt'⟩ := htracked.registered hreg
        obtain rfl := hs.eq_of_id horigins hlt' hlt hattempt' hattempt hid
          (congrArg MandatoryKey.messageID hmkey)
        rw [hmkey, update_self]
      · rwa [update_of_ne hmkey]
    · exact hin
  constructor
  · have hrun {c' : ℕ}
        (h : ((s.goto (.call c) (.storing key e)).threads (.call c')).running = true) :
        (s.threads (.call c')).running = true := by
      rcases threads_goto s (.call c) (.storing key e) (.call c') with heq | ⟨hc', -⟩
      · rwa [heq] at h
      · rw [hc', hpc]
        rfl
    exact fun c₁ c₂ h₁ h₂ ↦ hs.unique c₁ c₂ (hrun h₁) (hrun h₂)
  · intro key' e' hreg
    rcases hreg with hpending | hstoring
    · exact hold (.inl hpending)
    · rcases threads_goto s (.call c) (.storing key e) (.call (s.entries e').call) with
        heq | ⟨-, heq⟩
      · exact hold (.inr (heq ▸ hstoring))
      · obtain ⟨rfl, rfl⟩ := Pc.storing.inj (heq.symm.trans hstoring)
        exact hnew

/-- The entry that was about to be stored is stored. -/
theorem store {c : ℕ} (hs : Indexed s) (htracked : Tracked s)
    (hpc : s.threads (.call c) = .storing key e) :
    Indexed ({ s with pendingPublishes := update s.pendingPublishes key (some e) }.goto
      (.call c) (.sending key e)) := by
  obtain ⟨hth, -, -⟩ := htracked.attempt (.call c) key e (by rw [hpc]; rfl)
  have hstored : Indexed { s with
      pendingPublishes := update s.pendingPublishes key (some e) } := by
    refine ⟨hs.unique, fun key' e' hreg ↦ ?_⟩
    rcases hreg with hpending | hstoring
    · refine (forall_update_iff _ fun key' (o : Option ℕ) ↦ ∀ e', o = some e' →
        s.InIndex key' e').2 ⟨fun e' he' ↦ ?_, fun key' _ e' he' ↦ hs.index key' e' (.inl he')⟩
          key' e' hpending
      cases he'
      exact hs.index key e (.inr (hth ▸ hpc))
    · exact hs.index key' e' (.inr hstoring)
  have hrunning : (s.threads (.call c)).running = true := by rw [hpc]; rfl
  exact hstored.goto (.inl hrunning) nofun

/-- An entry that was taken out is removed from the index; no registered entry is. -/
theorem unindex {by' : Untracker} {pendingMandatory : MandatoryKey → Option ℕ} (hs : Indexed s)
    (htracked : Tracked s) (hpc : s.threads th = .unindexing key e by')
    (hindex : pendingMandatory =
      if (s.entries e).messageID ≠ "" ∧
        s.pendingMandatory ⟨key.generation, (s.entries e).messageID⟩ = some e then
      update s.pendingMandatory ⟨key.generation, (s.entries e).messageID⟩ none
      else s.pendingMandatory) : Indexed { s with pendingMandatory := pendingMandatory } := by
  have htaker := (htracked.taken th e (by rw [hpc]; rfl)).1
  refine ⟨hs.unique, fun key' e' hreg hid ↦ ?_⟩
  have hin := hs.index key' e' hreg hid
  change pendingMandatory ⟨key'.generation, (s.entries e').messageID⟩ = _
  rw [hindex]
  split
  · next hcond =>
    rwa [update_of_ne]
    intro hmkey
    rw [hmkey, hcond.2] at hin
    cases hin
    exact nomatch htaker.symm.trans (htracked.registered hreg).2.1
  · exact hin

end Indexed

theorem Moves.running (h : Moves s th pc pc') :
    (pc.running = true ∨ pc'.running = false ∨ ∀ c, th ≠ .call c) ∧
      ∀ key e, pc' ≠ .storing key e := by
  cases h with
  | @missing _ _ by' _ => cases by' <;> exact ⟨.inl rfl, nofun⟩
  | @drained _ next _ | @unmatched _ _ next _ =>
    cases next <;> exact ⟨.inl rfl, nofun⟩
  | rotate => exact ⟨.inr (.inr nofun), nofun⟩
  | _ => exact ⟨.inl rfl, nofun⟩

theorem ids_setEntry {p : Pending} (hid : p.messageID = (s.entries e).messageID)
    (hcall : p.call = (s.entries e).call) (e' : ℕ) :
    ((s.setEntry e p).entries e').messageID = (s.entries e').messageID ∧
      ((s.setEntry e p).entries e').call = (s.entries e').call := by
  grind

theorem ids_setCall {c : ℕ} {call : Call} (hmandatory : call.mandatory = (s.calls c).mandatory)
    (hid : call.messageID = (s.calls c).messageID) (c' : ℕ) :
    ((s.setCall c call).calls c').mandatory = (s.calls c').mandatory ∧
      ((s.setCall c call).calls c').messageID = (s.calls c').messageID := by
  grind

/-- Every step whose ids are distinct keeps the index. -/
theorem Indexed.step (hs : Indexed s) (htracked : Tracked s) (horigins : Origins s)
    (hdistinct : DistinctIDs s l) (h : (system maxPublishAttempts).step s l = some t) :
    Indexed t := by
  have hrun {th : Thread} {pc pc' : Pc} (hpc : s.threads th = pc) (hrunning : pc.running = true) :
      (s.threads th).running = true ∨ pc'.running = false ∨ ∀ c, th ≠ .call c :=
    .inl (hpc ▸ hrunning)
  have hsame (c : ℕ) : (s.calls c).mandatory = (s.calls c).mandatory ∧
      (s.calls c).messageID = (s.calls c).messageID := ⟨rfl, rfl⟩
  have hkept (e : ℕ) : (s.entries e).messageID = (s.entries e).messageID ∧
      (s.entries e).call = (s.entries e).call := ⟨rfl, rfl⟩
  cases act_of_step h with
  | @begin c mandatory _ _ _ hpc hid _ =>
    refine hs.begin hpc fun hmandatory ↦ ?_
    subst hid
    cases mandatory with
    | true => exact hdistinct
    | false => contradiction
  | move hpc hmoves => exact hs.goto (hpc ▸ hmoves.running.1) hmoves.running.2
  | attempt hpc =>
    exact hs.same_goto rfl (ids_setCall rfl rfl) hkept (fun _ _ h ↦ h) rfl (hrun hpc rfl)
      nofun
  | acquire hpc _ | notReady hpc =>
    exact hs.same_goto rfl hsame hkept (fun _ _ h ↦ h) rfl (hrun hpc rfl) nofun
  | snapshot hpc hkey hp => exact hs.snapshot htracked hpc (by rw [hp])
  | index hpc hindex => exact hs.index_entry htracked horigins hpc hindex
  | store hpc => exact hs.store htracked hpc
  | send hpc _ hpc' =>
    refine hs.same_goto rfl hsame hkept (fun _ _ h ↦ h) rfl (hrun hpc rfl) ?_
    rcases hpc' with rfl | rfl <;> exact nofun
  | succeed hpc _ _ _ | unroutable hpc _ _ | nacked hpc _ =>
    exact hs.same_goto rfl hsame (ids_setEntry rfl rfl) (fun _ _ h ↦ h) rfl (hrun hpc rfl)
      nofun
  | retry hpc hcall hpc' =>
    refine hs.same_goto rfl (ids_setCall (by rw [hcall]) (by rw [hcall])) hkept (fun _ _ h ↦ h) rfl
      (hrun hpc rfl) ?_
    rcases hpc' with rfl | ⟨rfl, -⟩ <;> exact nofun
  | @take th key e by' hpc he =>
    refine hs.same_goto rfl hsame (ids_setEntry rfl rfl) ?_ rfl (hrun hpc rfl) nofun
    exact (forall_update_iff _ fun key' (o : Option ℕ) ↦ ∀ e', o = some e' →
      s.pendingPublishes key' = some e').2 ⟨nofun, fun _ _ _ h ↦ h⟩
  | @unindex th key e by' pendingMandatory hpc hindex =>
    refine (hs.unindex htracked hpc hindex).goto (.inl ?_) ?_
    · rw [hpc]
      rfl
    · cases by' <;> exact nofun
  | @answer th key e by' p hpc hp =>
    refine hs.same_goto rfl hsame (ids_setEntry (by rw [hp]) (by rw [hp])) (fun _ _ h ↦ h) rfl
      (hrun hpc rfl) ?_
    cases by' <;> exact nofun
  | brokerConfirm _ _ | brokerReturn _ _ _ | environment => exact ⟨hs.unique, hs.index⟩
  | takeReturn hpc _ | takeConfirm hpc _ =>
    exact hs.same_goto rfl hsame hkept (fun _ _ h ↦ h) rfl (.inr (.inr nofun))
      nofun
  | @attach g e ret next hpc =>
    refine hs.same_goto rfl hsame (ids_setEntry rfl rfl) (fun _ _ h ↦ h) rfl
      (.inr (.inr nofun)) ?_
    cases next <;> exact nofun
  | acquireUncond _ _ | discard _ =>
    exact hs.same_goto rfl hsame hkept (fun _ _ h ↦ h) rfl (.inr (.inr nofun))
      nofun
  | install hpc =>
    refine .goto ?_ (.inr (.inr nofun)) nofun
    exact hs.same_goto rfl hsame hkept (fun _ _ h ↦ h) rfl (.inr (.inr nofun)) nofun

/-- The index is kept along such runs. -/
theorem indexed_of_reach {C : State → Label → Prop} (hC : ∀ s l, C s l → DistinctIDs s l)
    (hs : (system maxPublishAttempts).Reach C s) : Indexed s := by
  refine hs.invariant ?_ fun _ _ _ hr hc hindexed h ↦ hindexed.step
    (tracked_of_reachable hr.reachable) (origins_of_reachable hr.reachable) (hC _ _ hc) h
  rintro s rfl
  exact ⟨nofun, fun _ _ h ↦ by rcases h with h | h <;> contradiction⟩

end Amqp
