import GoBricks.Migration.MigrateAll

/-!
# The targets of a migration of all tenants

What a step can do is said once (`Move`), and invariants are derived from it. The one here is about
the claims: a run that started Flyway on a keyed target owns it, and no other run does.
-/

open Text Function Option

namespace Migration

variable {E ρ : Type}

/-- The index the dispatcher judges. -/
def PC.index : PC E → Option ℕ
  | .check i | .slot i | .judge i | .gate i | .rejudge i => some i
  | .inline _ | .waiting _ _ | .returned _ _ => none

/-- `runOne` has not returned. -/
def Phase.running : Phase E ρ → Bool
  | .resolving | .claiming _ _ | .flyway _ => true
  | _ => false

/-- `runOne` has not claimed its target. -/
def Phase.pending : Phase E ρ → Bool
  | .resolving | .claiming _ _ => true
  | _ => false

namespace Call

variable (c : Call) (s : State E ρ)

/-! ### What a step can do -/

/-- The claims of a state are kept. -/
def Kept (owners : MigrationTarget → Option Bytes) : Prop :=
  ∀ target, s.owners target ≠ none → owners target ≠ none

/-- What a step makes of a state. -/
inductive Move : State E ρ → Prop
  | context (ctx runCtx : Option CtxErr) : Move { s with ctx := ctx, runCtx := runCtx }
  | walk {i : ℕ} (pc : PC E) (sem : ℕ) (hpc : s.pc.index = some i) (hpc' : pc.index = some i) :
      Move { s with pc := pc, sem := sem }
  | stop {i : ℕ} (err : Err E) (sem : ℕ) (hpc : s.pc.index = some i) :
      Move { s with pc := c.stop i err, sem := sem }
  | dispatch {i : ℕ} (hpc : s.pc.index = some i) : Move (c.dispatch s i)
  | resolved {i : ℕ} {p : Phase E ρ} (db : DatabaseConfig) (vendor : Bytes)
      (hp : s.workers i = some p) (hpending : p.pending = true) :
      Move (setPhase s i (.claiming db vendor))
  | launched {i : ℕ} {db : DatabaseConfig} {vendor : Bytes}
      (owners : MigrationTarget → Option Bytes) (hp : s.workers i = some (.claiming db vendor))
      (hkept : Kept s owners)
      (hclaim : ∀ target, migrationTargetFor c.lower db vendor = some target →
        s.owners target = none ∧ owners target ≠ none) :
      Move { setPhase s i (.flyway vendor) with
        owners := owners, started := Function.update s.started i (some (db, vendor)) }
  | finished {i : ℕ} {p : Phase E ρ} (res : TenantResult E ρ)
      (owners : MigrationTarget → Option Bytes) (hp : s.workers i = some p)
      (hrunning : p.running = true) (hres : res.tenantID = c.tenant i) (hkept : Kept s owners) :
      Move (finish { s with owners := owners } i res)
  | stored {i : ℕ} {res : TenantResult E ρ} (hp : s.workers i = some (.ran res)) :
      Move { setPhase s i (.hooking res) with rows := Function.update s.rows i res }
  | hooked {i : ℕ} {res : TenantResult E ρ} (hp : s.workers i = some (.hooking res)) :
      Move (c.afterHook s i res)
  | recorded {i : ℕ} {err : Err E} (hp : s.workers i = some (.recording err)) :
      Move { setPhase s i .canceling with firstErr := s.firstErr.or (some err) }
  | canceled {i : ℕ} (runCtx : Option CtxErr) (hp : s.workers i = some .canceling) :
      Move { setPhase s i .releasing with runCtx := runCtx }
  | released {i : ℕ} (sem : ℕ) (hp : s.workers i = some .releasing) :
      Move { setPhase s i .exiting with sem := sem }
  | exited {i : ℕ} (hp : s.workers i = some .exiting) : Move (setPhase s i .done)
  | joined {n : ℕ} {stopErr : Option (Err E)} (err : Option (Err E))
      (hpc : s.pc = .waiting n stopErr) (hjoin : Joined s n)
      (hnone : err = none → s.firstErr = none ∧ stopErr = none) :
      Move { s with pc := .returned n err }

variable {c s}

theorem kept_refl : Kept s s.owners :=
  fun _ h ↦ h

/-- An owner that is added takes none away. -/
theorem kept_update {target : MigrationTarget} {tenantID : Bytes} :
    Kept s (update s.owners target (some tenantID)) := by
  intro target' h
  by_cases heq : target' = target
  · rw [heq, update_self]
    exact some_ne_none _
  · rw [update_of_ne heq]
    exact h

/-- A resolution is one of the listed moves. -/
theorem move_resolve {i : ℕ} (r : Resolution E) (hp : s.workers i = some .resolving) :
    Move c s (c.resolve s i r) := by
  have hfinish (res : TenantResult E ρ) (hres : res.tenantID = c.tenant i) :
      Move c s (finish s i res) :=
    .finished res s.owners hp rfl hres kept_refl
  unfold resolve
  split
  · exact hfinish _ rfl
  · exact hfinish _ rfl
  · split
    · exact .resolved _ _ hp rfl
    · dsimp only
      split
      · exact hfinish _ rfl
      · exact .resolved _ _ hp rfl

/-- Past its claim, a run starts Flyway, or ends because its action is unknown. -/
theorem move_runFlyway {i : ℕ} {db : DatabaseConfig} {vendor : Bytes}
    {owners : MigrationTarget → Option Bytes} (hp : s.workers i = some (.claiming db vendor))
    (hkept : Kept s owners)
    (hclaim : ∀ target, migrationTargetFor c.lower db vendor = some target →
      s.owners target = none ∧ owners target ≠ none) :
    Move c s (c.runFlyway { s with owners := owners } i db vendor) := by
  unfold runFlyway
  split
  · exact .finished _ owners hp rfl rfl hkept
  · exact .launched owners hp hkept hclaim

theorem move_claim {i : ℕ} {db : DatabaseConfig} {vendor : Bytes}
    (hp : s.workers i = some (.claiming db vendor)) : Move c s (c.claim s i db vendor) := by
  unfold claim
  split
  next htarget =>
    refine move_runFlyway hp (kept_refl (s := s)) fun target h ↦ ?_
    cases htarget.symm.trans h
  next target htarget =>
    split
    · exact .finished _ s.owners hp rfl rfl kept_refl
    next howner =>
      refine move_runFlyway hp kept_update fun target' h ↦ ?_
      cases htarget.symm.trans h
      refine ⟨howner, ?_⟩
      rw [update_self]
      exact some_ne_none _

variable [DecidableEq E] [DecidableEq ρ] {t : State E ρ}

/-- So is every step. -/
theorem move_of_step {l : Label E ρ} (h : c.step s l = some t) : Move c s t := by
  cases l with
  | cancel e =>
    rw [step] at h
    split at h
    · exact Option.some.inj h ▸ .context _ _
    · cases h
  | propagate => exact Option.some.inj h ▸ .context _ _
  | check =>
    rw [step] at h
    split at h
    next i hpc =>
      cases h
      split
      · exact .stop _ _ (by rw [hpc]; rfl)
      · exact .walk _ _ (by rw [hpc]; rfl) rfl
    · cases h
  | slotDone =>
    rw [step] at h
    split at h
    next hpc _ =>
      cases h
      exact .stop _ _ (by rw [hpc]; rfl)
    · cases h
  | slotTake =>
    rw [step] at h
    split at h
    next hpc =>
      split at h
      · cases h
        exact .walk _ _ (by rw [hpc]; rfl) rfl
      · cases h
    · cases h
  | judge | gate set =>
    rw [step] at h
    split at h
    next hpc =>
      cases h
      split
      · exact .stop _ _ (by rw [hpc]; rfl)
      · exact .walk _ _ (by rw [hpc]; rfl) rfl
    · cases h
  | rejudge =>
    rw [step] at h
    split at h
    next hpc =>
      cases h
      split
      · exact .stop _ _ (by rw [hpc]; rfl)
      · exact .dispatch (by rw [hpc]; rfl)
    · cases h
  | resolve i r =>
    rw [step] at h
    split at h
    next hp => exact Option.some.inj h ▸ move_resolve r hp
    · cases h
  | claim i =>
    rw [step] at h
    split at h
    next hp => exact Option.some.inj h ▸ move_claim hp
    · cases h
  | flyway i result err =>
    rw [step] at h
    split at h
    next hp => exact Option.some.inj h ▸ .finished _ s.owners hp rfl rfl kept_refl
    · cases h
  | store i =>
    rw [step] at h
    split at h
    next hp => exact Option.some.inj h ▸ .stored hp
    · cases h
  | hook i =>
    rw [step] at h
    split at h
    next hp => exact Option.some.inj h ▸ .hooked hp
    · cases h
  | record i =>
    rw [step] at h
    split at h
    next hp => exact Option.some.inj h ▸ .recorded hp
    · cases h
  | cancelRun i =>
    rw [step] at h
    split at h
    next hp => exact Option.some.inj h ▸ .canceled _ hp
    · cases h
  | release i =>
    rw [step] at h
    split at h
    next hp => exact Option.some.inj h ▸ .released _ hp
    · cases h
  | exit i =>
    rw [step] at h
    split at h
    next hp => exact Option.some.inj h ▸ .exited hp
    · cases h
  | join =>
    rw [step] at h
    split at h
    next n stopErr hpc =>
      split at h
      next hjoin =>
        cases h
        refine .joined _ hpc hjoin fun hnone ↦ ?_
        have hfirst := (or_eq_none_iff.mp hnone).1
        exact or_eq_none_iff.mp hfirst
      · cases h
    · cases h

omit [DecidableEq E] [DecidableEq ρ]

/-! ### The workers -/

theorem workers_setPhase_of_ne {i j : ℕ} (p : Phase E ρ) (h : j ≠ i) :
    (setPhase s i p).workers j = s.workers j :=
  update_of_ne h _ _

@[simp] theorem workers_setPhase_self {i : ℕ} (p : Phase E ρ) :
    (setPhase s i p).workers i = some p :=
  update_self _ _ _

/-! ### Targets -/

/-- The run at an index started Flyway on a target. -/
def StartedOn (c : Call) (s : State E ρ) (i : ℕ) (target : MigrationTarget) : Prop :=
  ∃ db vendor, s.started i = some (db, vendor) ∧ migrationTargetFor c.lower db vendor = some target

/-- Flyway is started on targets that are owned, by one run each. -/
structure Targets (c : Call) (s : State E ρ) : Prop where
  /-- A run that has not claimed its target has not started Flyway. -/
  pending : ∀ i, (∀ p, s.workers i = some p → p.pending = true) → s.started i = none
  owned : ∀ i target, c.StartedOn s i target → s.owners target ≠ none
  distinct : ∀ i j target, c.StartedOn s i target → c.StartedOn s j target → i = j

/-- A move that starts nothing. -/
theorem Targets.of_started_eq (h : Targets c s) (hstarted : t.started = s.started)
    (hkept : Kept s t.owners)
    (hworkers : ∀ i, (∀ p, t.workers i = some p → p.pending = true) →
      ∀ p, s.workers i = some p → p.pending = true) : Targets c t := by
  have hon {i : ℕ} {target : MigrationTarget} (hi : c.StartedOn t i target) :
      c.StartedOn s i target := by
    obtain ⟨db, vendor, hi, htarget⟩ := hi
    exact ⟨db, vendor, hstarted ▸ hi, htarget⟩
  refine ⟨fun i hi ↦ ?_, fun i target hi ↦ ?_, fun i j target hi hj ↦ ?_⟩
  · rw [hstarted]
    exact h.pending i (hworkers i hi)
  · exact hkept target (h.owned i target (hon hi))
  · exact h.distinct i j target (hon hi) (hon hj)

/-- A worker goes on, and starts nothing. -/
theorem Targets.of_setPhase (h : Targets c s) {i : ℕ} {p q : Phase E ρ}
    (hp : s.workers i = some p) (hworkers : t.workers = (setPhase s i q).workers)
    (hpending : q.pending = true → p.pending = true) (hstarted : t.started = s.started)
    (hkept : Kept s t.owners) : Targets c t := by
  refine h.of_started_eq hstarted hkept fun j hj r hr ↦ ?_
  rw [hworkers] at hj
  by_cases hji : j = i
  · subst hji
    cases hp.symm.trans hr
    exact hpending (hj q (workers_setPhase_self q))
  · exact hj r ((workers_setPhase_of_ne q hji).trans hr)

/-- A run that starts Flyway owns its target, and nobody owned it before. -/
theorem Targets.launched (h : Targets c s) {i : ℕ} {db : DatabaseConfig} {vendor : Bytes}
    {owners : MigrationTarget → Option Bytes} (hp : s.workers i = some (.claiming db vendor))
    (hkept : Kept s owners)
    (hclaim : ∀ target, migrationTargetFor c.lower db vendor = some target →
      s.owners target = none ∧ owners target ≠ none) :
    Targets c { setPhase s i (.flyway vendor) with
      owners := owners, started := update s.started i (some (db, vendor)) } := by
  generalize ht : ({ setPhase s i (.flyway vendor) with
      owners := owners, started := update s.started i (some (db, vendor)) } : State E ρ) =
      t
  have hi : t.started i = some (db, vendor) := by
    rw [← ht]
    exact update_self _ _ _
  have hne {j : ℕ} (hj : j ≠ i) : t.started j = s.started j := by
    rw [← ht]
    exact update_of_ne hj _ _
  have howners : t.owners = owners := by rw [← ht]
  have hworkers : t.workers = (setPhase s i (.flyway vendor)).workers := by rw [← ht]
  -- a start is the new one, or one of before
  have hcases {j : ℕ} {target : MigrationTarget} (hj : c.StartedOn t j target) :
      (j = i ∧ migrationTargetFor c.lower db vendor = some target) ∨
        (j ≠ i ∧ c.StartedOn s j target) := by
    obtain ⟨db', vendor', hj, htarget⟩ := hj
    by_cases hji : j = i
    · subst hji
      cases hi.symm.trans hj
      exact .inl ⟨rfl, htarget⟩
    · exact .inr ⟨hji, db', vendor', (hne hji).symm.trans hj, htarget⟩
  refine ⟨fun j hj ↦ ?_, fun j target hj ↦ ?_, fun j k target hj hk ↦ ?_⟩
  · have hji : j ≠ i := by
      rintro rfl
      cases hj _ (by rw [hworkers, workers_setPhase_self])
    rw [hne hji]
    refine h.pending j fun p hjp ↦ hj p ?_
    rw [hworkers, workers_setPhase_of_ne _ hji]
    exact hjp
  · rw [howners]
    obtain ⟨-, htarget⟩ | ⟨-, hj⟩ := hcases hj
    · exact (hclaim target htarget).2
    · exact hkept target (h.owned j target hj)
  · obtain ⟨rfl, htarget⟩ | ⟨hji, hj⟩ := hcases hj
    · obtain ⟨rfl, -⟩ | ⟨-, hk⟩ := hcases hk
      · rfl
      · exact absurd (hclaim target htarget).1 (h.owned k target hk)
    · obtain ⟨rfl, htarget⟩ | ⟨-, hk⟩ := hcases hk
      · exact absurd (hclaim target htarget).1 (h.owned j target hj)
      · exact h.distinct j k target hj hk

theorem targets_start : Targets c (c.start : State E ρ) where
  pending _ _ := rfl
  owned := by
    rintro i target ⟨db, vendor, h, -⟩
    cases h
  distinct := by
    rintro i j target ⟨db, vendor, h, -⟩
    cases h

/-- Claims are kept by a move that dispatches a tenant only where none was. -/
theorem Targets.move (h : Targets c s) (hfree : ∀ i, s.pc.index = some i → s.workers i = none)
    (hmove : Move c s t) : Targets c t := by
  cases hmove with
  | context | walk | stop | joined => exact h.of_started_eq rfl kept_refl fun _ hp ↦ hp
  | @dispatch i hpc =>
    refine h.of_started_eq rfl kept_refl fun j hj p hp ↦ ?_
    by_cases hji : j = i
    · cases (hfree i hpc).symm.trans (hji ▸ hp)
    · exact hj p ((workers_setPhase_of_ne _ hji).trans hp)
  | resolved db vendor hp hpending => exact h.of_setPhase hp rfl (fun _ ↦ hpending) rfl kept_refl
  | launched owners hp hkept hclaim => exact h.launched hp hkept hclaim
  | finished res owners hp hrunning hres hkept =>
    exact h.of_setPhase hp rfl (by rintro ⟨⟩) rfl hkept
  | stored hp | recorded hp | canceled _ hp | released _ hp | exited hp =>
    exact h.of_setPhase hp rfl (by rintro ⟨⟩) rfl kept_refl
  | hooked hp =>
    unfold afterHook
    split
    · refine h.of_setPhase hp rfl ?_ rfl kept_refl
      split <;> rintro ⟨⟩
    · exact h.of_setPhase hp rfl (by rintro ⟨⟩) rfl kept_refl

end Call

end Migration
