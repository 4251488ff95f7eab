import GoBricks.Provisioning.Lifecycle

/-!
# One job of a tenant at a time

The index of active jobs keeps a tenant from having two jobs that are not finished. A step of a job
may still execute when the job is finished, if another executor has finished it; then a step of the
tenant's next job may execute at the same time (`steps_overlap`).

When no job is finished while another executor still runs it (`FinishesAlone`), a step that executes
is one of a job that is not finished (`active_of_stepping`), so that the index does keep the steps
of two jobs of a tenant apart (`steps_exclusive`).
-/

namespace Provisioning

/-- An executor is in `Run` for a job, with a copy that is not finished. -/
def Runs (s : System) (i : ℕ) (id : String) : Prop :=
  ∃ job, (s.pcs i).job? = some job ∧ job.id = id ∧ ¬job.state.isTerminal

/-- No step of one job executes while a step of another job of the tenant does. -/
def Exclusive (s : System) : Prop :=
  ∀ i k step step' job job', s.pcs i = .stepping step job → s.pcs k = .stepping step' job' →
    job.tenantID = job'.tenantID → job.id = job'.id

/-- When a transition finishes a job, no other executor runs the job. -/
def FinishesAlone (s : System) : Label → Prop
  | .record i w => ∀ job target lastError, s.pcs i = .recording job target lastError →
      w.takesEffect → (∃ j ∈ s.jobs, j.id = job.id ∧ j.state = job.state) → target.isTerminal →
      ∀ k, k ≠ i → ¬Runs s k job.id
  | _ => True

variable {vendor : Vendor} {s t : System}

/-- A job that an executor runs is not finished. -/
def RunsActive (s : System) : Prop :=
  ∀ i id, Runs s i id → ∃ j ∈ s.jobs, j.id = id ∧ ¬j.state.isTerminal

/-- The return of a step keeps the id and the state of the copy. -/
theorem job?_afterStep {job job' : Job} {err : Option String}
    (h : (afterStep job err).job? = some job') : job'.id = job.id ∧ job'.state = job.state := by
  rw [afterStep] at h
  split at h
  · cases err with
    | none =>
      cases h
      exact ⟨rfl, rfl⟩
    | some e =>
      cases h
      split
      · exact ⟨rfl, rfl⟩
      · exact ⟨rfl, rfl⟩
  · cases err with
    | none =>
      rw [runForwardStep] at h
      split at h
      · cases h
        exact ⟨rfl, rfl⟩
      · cases h
    | some e =>
      cases h
      exact ⟨rfl, rfl⟩

variable {i : ℕ} {l : Label} {jobs : Jobs} {pc : Pc} {events : List Event}

/-- The job that the acting executor runs is not finished. -/
theorem Act.active_self (h : Act s i l jobs pc events)
    (hr : ∀ id, Runs s i id → ∃ j ∈ s.jobs, j.id = id ∧ ¬j.state.isTerminal) {job' : Job}
    (hjob : pc.job? = some job') (hactive : ¬job'.state.isTerminal) :
    ∃ j ∈ jobs, j.id = job'.id ∧ ¬j.state.isTerminal := by
  cases h with
  | stop => cases hjob
  | load hmem =>
    cases hjob
    exact ⟨_, hmem, rfl, hactive⟩
  | acknowledge hpc hstate | cleanup hpc hstate | forward hpc hstep =>
    cases hjob
    exact hr _ ⟨_, by rw [hpc, Pc.job?], rfl, hactive⟩
  | @reply _ job step hpc err metadata =>
    obtain ⟨hid, hstate⟩ := job?_afterStep hjob
    rw [hstate] at hactive
    rw [hid]
    exact hr _ ⟨job, by rw [hpc, Pc.job?], rfl, hactive⟩
  | record hpc hw hallowed hstored hnext =>
    obtain ⟨j, hj, hid, -⟩ := hstored
    rcases hnext with rfl | rfl
    · cases hjob
    · cases hjob
      exact ⟨_, mem_advance.mpr ⟨j, hj, .inl ⟨hid, rfl⟩⟩, hid, hactive⟩

/-- What an act finishes, nobody else runs. -/
theorem Act.active_other (h : Act s i l jobs pc events) (hl : FinishesAlone s l) {k : ℕ}
    (hk : k ≠ i) {id : String} (hruns : Runs s k id)
    (hactive : ∃ j ∈ s.jobs, j.id = id ∧ ¬j.state.isTerminal) :
    ∃ j ∈ jobs, j.id = id ∧ ¬j.state.isTerminal := by
  cases h with
  | @record w job target lastError hpc hw hallowed hstored hnext =>
    obtain ⟨j, hj, rfl, hj'⟩ := hactive
    by_cases hid : j.id = job.id
    · refine ⟨_, mem_advance.mpr ⟨j, hj, .inl ⟨hid, rfl⟩⟩, rfl, fun hterminal ↦ ?_⟩
      exact hl job target lastError hpc hw hstored hterminal k hk (hid ▸ hruns)
    · exact ⟨j, mem_advance.mpr ⟨j, hj, .inr ⟨hid, rfl⟩⟩, rfl, hj'⟩
  | stop | load | acknowledge | cleanup | forward | reply => exact hactive

/-- The condition on finishing steps carries the invariant. -/
theorem RunsActive.act (hr : RunsActive s) (hl : FinishesAlone s l)
    (h : Act s i l jobs pc events) : RunsActive (s.after i jobs pc events) := by
  rintro k id ⟨job', hjob, rfl, hactive⟩
  have hpcs : (s.after i jobs pc events).pcs = Function.update s.pcs i pc := rfl
  by_cases hk : k = i
  · subst hk
    rw [hpcs, Function.update_self] at hjob
    exact h.active_self (hr k) hjob hactive
  · rw [hpcs, Function.update_of_ne hk] at hjob
    have hruns : Runs s k job'.id := ⟨job', hjob, rfl, hactive⟩
    exact h.active_other hl hk hruns (hr k _ hruns)

/-- A job that an executor runs is not finished, as long as jobs are finished alone. -/
theorem runsActive_of_reach (hs : (system vendor).Reach FinishesAlone s) : RunsActive s := by
  refine hs.invariant ?_ ?_
  · rintro s rfl i id ⟨job, hjob, -⟩
    cases hjob
  · intro s l t hreach hl hr hstep
    rcases step_cases (inv_of_reachable hreach.reachable).ids hstep with
      rfl | ⟨job, hjob, rfl⟩ | ⟨i, jobs, pc, events, hact, rfl⟩
    · exact hr
    · intro k id hruns
      obtain ⟨j, hj, hid, hactive⟩ := hr k id hruns
      exact ⟨j, List.mem_append_left _ hj, hid, hactive⟩
    · exact hr.act hl hact

/-- A step that executes is one of a job that is not finished, as its copy says. -/
theorem active_of_stepping (hs : Inv s) (hr : RunsActive s) {i : ℕ} {step : Step} {job : Job}
    (hpc : s.pcs i = .stepping step job) :
    ∃ j ∈ s.jobs, j.id = job.id ∧ j.tenantID = job.tenantID ∧ ¬j.state.isTerminal := by
  have hheld := hs.held i
  rw [hpc] at hheld
  cases hheld with
  | stepping stored keeps invoked =>
    have hactive : ¬job.state.isTerminal := by
      rcases invoked with ⟨hstate, -⟩ | hstep
      · rw [hstate]
        decide
      · intro hterminal
        rcases (Bool.or_eq_true _ _).mp hterminal with hstate | hstate <;>
          rw [eq_of_beq hstate] at hstep <;> cases hstep
    obtain ⟨j, hj, hid, hj'⟩ := hr i job.id ⟨job, by rw [hpc, Pc.job?], rfl, hactive⟩
    obtain ⟨j', hj₂, hid', htenant, -⟩ := stored.stored
    obtain rfl := Jobs.eq_of_id hs.ids hj hj₂ (hid.trans hid'.symm)
    exact ⟨j, hj, hid, htenant, hj'⟩

/-- **Steps of two jobs of a tenant do not execute at the same time**, in every run in which no job
is finished while another executor runs it. -/
theorem steps_exclusive (hs : (system vendor).Reach FinishesAlone s) : Exclusive s := by
  intro i k step step' job job' hi hk htenant
  have hinv := inv_of_reachable hs.reachable
  have hr := runsActive_of_reach hs
  obtain ⟨j, hj, hid, hjt, hactive⟩ := active_of_stepping hinv hr hi
  obtain ⟨j', hj', hid', hjt', hactive'⟩ := active_of_stepping hinv hr hk
  obtain rfl := hinv.active j hj j' hj' (hjt.trans (htenant.trans hjt'.symm)) hactive hactive'
  exact hid.symm.trans hid'

/-- Two executors in the same step of one job. -/
theorem steps_exclusive_shared : ∃ s job, (system .postgreSQL).Reach FinishesAlone s ∧
    s.pcs 0 = .stepping .createSchema job ∧ s.pcs 1 = .stepping .createSchema job ∧
      Exclusive s := by
  obtain ⟨s, job, hrun, h₀, h₁⟩ : ∃ s job, (system .postgreSQL).run {}
      [.upsert (some ⟨"j", "t", .pending, 0, "", none⟩) .done, .load 0 "j" true, .load 1 "j" true,
        .loop 0 .proceed, .loop 1 .proceed] = some s ∧
      s.pcs 0 = .stepping .createSchema job ∧ s.pcs 1 = .stepping .createSchema job :=
    ⟨_, _, rfl, rfl, rfl⟩
  have hs : (system .postgreSQL).Reach FinishesAlone s := by
    refine (StepSystem.Reach.init rfl).run_cons hrun trivial fun l hl u ↦ ?_
    simp only [List.mem_cons, List.not_mem_nil, or_false] at hl
    rcases hl with rfl | rfl | rfl | rfl <;> trivial
  exact ⟨s, job, hs, h₀, h₁, steps_exclusive hs⟩

/-- **The steps of two jobs of a tenant overlap**: an executor is still in the cleanup of a job that
another one has finished, when the tenant's next job creates its schema. -/
theorem steps_overlap : ∃ s, (system .postgreSQL).Reachable s ∧ ¬Exclusive s := by
  let j (id : String) : Job := ⟨id, "t", .pending, 0, "", none⟩
  obtain ⟨s, hrun, job, job', h₀, h₂, htenant, hid⟩ : ∃ s, (system .postgreSQL).run {}
      [.upsert (some (j "old")) .done, .load 0 "old" true, .loop 0 .proceed,
        .reply 0 (some "no schema") none, .record 0 .done, .load 1 "old" true,
        .loop 0 .proceed, .loop 1 .proceed, .reply 1 none none, .record 1 .done,
        .upsert (some (j "new")) .done, .load 2 "new" true, .loop 2 .proceed] = some s ∧
      ∃ job job', s.pcs 0 = .stepping .cleanup job ∧ s.pcs 2 = .stepping .createSchema job' ∧
        job.tenantID = job'.tenantID ∧ job.id ≠ job'.id :=
    ⟨_, rfl, _, _, rfl, rfl, rfl, by decide⟩
  exact ⟨s, StepSystem.reach_of_run (.init rfl) hrun, fun h ↦ hid (h 0 2 _ _ _ _ h₀ h₂ htenant)⟩

end Provisioning
