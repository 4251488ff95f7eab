import Mathlib.Data.List.Basic
import Mathlib.Data.List.Nodup

/-!
# Provisioning jobs and their stores

A **job** provisions one tenant and is always in one state of a fixed graph (`State.allowedNext`).
Stores keep the jobs. They move a job along an edge of the graph only if it still is where the
caller saw it, and take a new job only if its tenant has no other that is not finished.

There are two stores, one in memory and one on a PostgreSQL table, whose rows are unique in their id
and, while the job is not finished, in their tenant. What they have in common is `upsert_eq_ok` and
`transition_eq_ok`.
-/

namespace Provisioning

/-! ### States -/

/-- How far a job has got. -/
inductive State
  | pending
  | schemaCreated
  | roleCreated
  | migrated
  | seeded
  | ready
  | cleanup
  | failed
  deriving DecidableEq

namespace State

/-- The job is finished. -/
def isTerminal (s : State) : Bool :=
  s == .ready || s == .failed

/-- The graph of states. -/
def allowedNext : State → List State
  | .pending => [.schemaCreated, .cleanup]
  | .schemaCreated => [.roleCreated, .cleanup]
  | .roleCreated => [.migrated, .cleanup]
  | .migrated => [.seeded, .cleanup]
  | .seeded => [.ready, .cleanup]
  | .cleanup => [.failed]
  | .ready => []
  | .failed => []

/-- The next state if all goes well. -/
def nextForward : State → Option State
  | .pending => some .schemaCreated
  | .schemaCreated => some .roleCreated
  | .roleCreated => some .migrated
  | .migrated => some .seeded
  | .seeded => some .ready
  | _ => none

/-- Whether a transition to the state counts as an attempt. -/
def isForward (target : State) : Bool :=
  target != .cleanup && target != .failed

/-- The terminal states are those without an edge. -/
theorem allowedNext_eq_nil {s : State} : s.allowedNext = [] ↔ s.isTerminal := by
  cases s <;> decide

/-- A state with an edge is not terminal. -/
theorem not_isTerminal_of_allowed {s target : State} (h : target ∈ s.allowedNext) :
    ¬s.isTerminal := by
  intro ht
  rw [allowedNext_eq_nil.mpr ht] at h
  cases h

/-- The forward edges leave out cleanup and failure. -/
theorem isForward_of_nextForward {s target : State} (h : s.nextForward = some target) :
    target ≠ .cleanup ∧ target ≠ .failed := by
  cases s <;> cases h <;> decide

/-- Cleanup comes before failure, and before nothing else. -/
theorem eq_cleanup_iff_of_allowed {s target : State} (h : target ∈ s.allowedNext) :
    s = .cleanup ↔ target = .failed := by
  revert h
  cases s <;> cases target <;> decide

end State

/-! ### Jobs -/

/-- A map, or nil. -/
abbrev Metadata := Option (List (String × String))

/-- A job. -/
structure Job where
  id : String
  tenantID : String
  state : State
  attempts : ℕ
  lastError : String
  metadata : Metadata
  deriving DecidableEq

/-- Why a store refuses. -/
inductive StoreError
  | illegalTransition (source target : State)
  | jobNotFound
  | staleRead
  | invalidJob (text : String)
  | tenantBusy (tenantID : String)
  deriving DecidableEq

/-- A transition is one of the graph. -/
def validateTransition (source target : State) : Except StoreError Unit :=
  if target ∈ source.allowedNext then .ok () else .error (.illegalTransition source target)

/-- The job that may be stored, of one that may be nil. -/
def validateJobForUpsert : Option Job → Except StoreError Job
  | none => .error (.invalidJob "job is nil")
  | some job =>
    if job.id = "" then .error (.invalidJob "job.ID is required")
    else if job.tenantID = "" then .error (.invalidJob "job.TenantID is required")
    else .ok job

/-- The jobs of a store: those of a map, or the rows of a table. -/
abbrev Jobs := List Job

/-- `Get` -/
def Jobs.get (jobs : Jobs) (id : String) : Option Job :=
  jobs.find? (·.id == id)

/-- Another job of the tenant is not finished. -/
def Jobs.busy (jobs : Jobs) (tenantID : String) : Bool :=
  jobs.any fun j ↦ j.tenantID == tenantID && !j.state.isTerminal

/-- A job that has made a transition. -/
def Job.advance (job : Job) (target : State) (metadata : Metadata) (lastError : String) : Job :=
  { job with
    state := target
    lastError := lastError
    attempts := if target.isForward then job.attempts + 1 else job.attempts
    metadata := metadata.or job.metadata }

/-! ### The stores -/

/-- Both stores insert a job unless there is one with its id or another one of its tenant is not
finished; they differ in the row. -/
def upsertRow (row : Job → Job) (jobs : Jobs) (job : Option Job) :
    Except StoreError (Jobs × Job) := do
  let job ← validateJobForUpsert job
  match jobs.get job.id with
  | some existing => .ok (jobs, existing)
  | none =>
    if jobs.busy job.tenantID then .error (.tenantBusy job.tenantID)
    else .ok (jobs ++ [row job], row job)

namespace MemoryStore

/-- `Upsert`; the metadata stay as they are. -/
def upsert : Jobs → Option Job → Except StoreError (Jobs × Job) :=
  upsertRow fun job ↦ { job with state := .pending, attempts := 0, lastError := "" }

/-- `Transition`: the state is compared under the lock. -/
def transition (jobs : Jobs) (id : String) (source target : State) (metadata : Metadata)
    (lastError : String) : Except StoreError Jobs := do
  validateTransition source target
  match jobs.get id with
  | none => .error .jobNotFound
  | some j =>
    if j.state ≠ source then .error .staleRead
    else .ok (jobs.map fun j ↦ if j.id == id then j.advance target metadata lastError else j)

end MemoryStore

namespace PostgresStore

/-- `INSERT ... ON CONFLICT (id) DO NOTHING` under the index of active jobs, and then `SELECT`. -/
def upsert : Jobs → Option Job → Except StoreError (Jobs × Job) :=
  upsertRow fun job ↦ ⟨job.id, job.tenantID, .pending, 0, "", some (job.metadata.getD [])⟩

/-- `UPDATE ... WHERE id = $5 AND state = $6`. -/
def transition (jobs : Jobs) (id : String) (source target : State) (metadata : Metadata)
    (lastError : String) : Except StoreError Jobs := do
  validateTransition source target
  let affected := jobs.countP fun j ↦ j.id == id && j.state == source
  if affected = 0 then
    match jobs.get id with
    | none => .error .jobNotFound
    | some _ => .error .staleRead
  else
    .ok (jobs.map fun j ↦
      if j.id == id && j.state == source then j.advance target metadata lastError else j)

end PostgresStore

/-- Which store it is. -/
inductive Vendor
  | memory
  | postgreSQL
  deriving DecidableEq

namespace Vendor

/-- `Upsert` of a store. -/
def upsert : Vendor → Jobs → Option Job → Except StoreError (Jobs × Job)
  | .memory => MemoryStore.upsert
  | .postgreSQL => PostgresStore.upsert

/-- `Transition` of a store. -/
def transition : Vendor → Jobs → String → State → State → Metadata → String →
    Except StoreError Jobs
  | .memory => MemoryStore.transition
  | .postgreSQL => PostgresStore.transition

end Vendor

/-! ### What the stores have in common -/

/-- `Get` finds a job of the id. -/
theorem Jobs.mem_of_get {jobs : Jobs} {id : String} {job : Job} (h : jobs.get id = some job) :
    job ∈ jobs ∧ job.id = id :=
  ⟨List.mem_of_find?_eq_some h, by simpa using List.find?_some h⟩

/-- `Get` misses an id only if no job has it. -/
theorem Jobs.not_mem_of_get {jobs : Jobs} {id : String} (h : jobs.get id = none) :
    ∀ job ∈ jobs, job.id ≠ id := by
  intro job hjob
  simpa using List.find?_eq_none.mp h job hjob

/-- A tenant that is not busy has no job under way. -/
theorem Jobs.not_busy {jobs : Jobs} {tenantID : String} (h : ¬jobs.busy tenantID) :
    ∀ job ∈ jobs, job.tenantID = tenantID → job.state.isTerminal := by
  intro job hjob htenant
  by_contra hactive
  refine h (List.any_eq_true.mpr ⟨job, hjob, ?_⟩)
  simpa [htenant] using hactive

/-- A new job, in a store whose jobs of the tenant are all finished. -/
structure Inserted (jobs : Jobs) (job : Job) : Prop where
  fresh : ∀ j ∈ jobs, j.id ≠ job.id
  free : ∀ j ∈ jobs, j.tenantID = job.tenantID → j.state.isTerminal
  state : job.state = .pending
  attempts : job.attempts = 0
  lastError : job.lastError = ""

variable {vendor : Vendor} {jobs jobs' : Jobs}

theorem Inserted.nodup {job : Job} (h : Inserted jobs job) (hnodup : (jobs.map Job.id).Nodup) :
    ((jobs ++ [job]).map Job.id).Nodup := by
  rw [List.map_append, List.nodup_append]
  refine ⟨hnodup, List.nodup_singleton _, fun id hid id' hid' ↦ ?_⟩
  obtain ⟨j, hj, rfl⟩ := List.mem_map.mp hid
  rw [List.map_singleton, List.mem_singleton] at hid'
  rw [hid']
  exact h.fresh j hj

/-- An upsert finds the row of its id, or adds a fresh one. -/
theorem upsertRow_eq_ok {row : Job → Job} {job : Option Job} {stored : Job}
    (h : upsertRow row jobs job = .ok (jobs', stored))
    (hrow : ∀ job, (row job).id = job.id ∧ (row job).tenantID = job.tenantID ∧
      (row job).state = .pending ∧ (row job).attempts = 0 ∧ (row job).lastError = "") :
    jobs' = jobs ∨ jobs' = jobs ++ [stored] ∧ Inserted jobs stored := by
  rw [upsertRow] at h
  cases hvalid : validateJobForUpsert job with
  | error e =>
    rw [hvalid] at h
    cases h
  | ok job =>
    simp only [hvalid, bind, Except.bind] at h
    cases hget : jobs.get job.id with
    | some existing =>
      simp only [hget] at h
      cases h
      exact .inl rfl
    | none =>
      by_cases hbusy : jobs.busy job.tenantID
      · simp only [hget, hbusy, if_true] at h
        cases h
      · simp only [hget, hbusy] at h
        cases h
        obtain ⟨hid, htenant, hstate, hattempts, hlast⟩ := hrow job
        refine .inr ⟨rfl, fun j hj ↦ ?_, fun j hj hj' ↦ ?_, hstate, hattempts, hlast⟩
        · rw [hid]
          exact Jobs.not_mem_of_get hget j hj
        · exact Jobs.not_busy hbusy j hj (hj'.trans htenant)

/-- So for the stores, each with its own row. -/
theorem upsert_eq_ok {job : Option Job} {stored : Job}
    (h : vendor.upsert jobs job = .ok (jobs', stored)) :
    jobs' = jobs ∨ jobs' = jobs ++ [stored] ∧ Inserted jobs stored := by
  cases vendor with
  | memory =>
    rw [Vendor.upsert, MemoryStore.upsert] at h
    exact upsertRow_eq_ok h fun _ ↦ ⟨rfl, rfl, rfl, rfl, rfl⟩
  | postgreSQL =>
    rw [Vendor.upsert, PostgresStore.upsert] at h
    exact upsertRow_eq_ok h fun _ ↦ ⟨rfl, rfl, rfl, rfl, rfl⟩

/-- The job with an id makes a transition. -/
def Jobs.advance (jobs : Jobs) (id : String) (target : State) (metadata : Metadata)
    (lastError : String) : Jobs :=
  jobs.map fun j ↦ if j.id = id then j.advance target metadata lastError else j

/-- A transition keeps the ids. -/
theorem map_id_advance (jobs : Jobs) (id : String) (target : State) (metadata : Metadata)
    (lastError : String) :
    (jobs.advance id target metadata lastError).map Job.id = jobs.map Job.id := by
  rw [Jobs.advance, List.map_map]
  refine List.map_congr_left fun j _ ↦ ?_
  rw [Function.comp_apply]
  split
  · rfl
  · rfl

theorem Jobs.eq_of_id (hnodup : (jobs.map Job.id).Nodup) {j j' : Job} (hj : j ∈ jobs)
    (hj' : j' ∈ jobs) (h : j.id = j'.id) : j = j' :=
  List.inj_on_of_nodup_map hnodup hj hj' h

/-- A transition that the store accepts is an edge, from the state that the job has. -/
theorem transition_eq_ok (hnodup : (jobs.map Job.id).Nodup) {id : String} {source target : State}
    {metadata : Metadata} {lastError : String}
    (h : vendor.transition jobs id source target metadata lastError = .ok jobs') :
    target ∈ source.allowedNext ∧ (∃ j ∈ jobs, j.id = id ∧ j.state = source) ∧
      jobs' = jobs.advance id target metadata lastError := by
  have hvalid : ∀ {k : Unit → Except StoreError Jobs},
      (validateTransition source target >>= k) = .ok jobs' →
        target ∈ source.allowedNext ∧ k () = .ok jobs' := by
    intro k hk
    by_cases hmem : target ∈ source.allowedNext
    · rw [validateTransition, if_pos hmem] at hk
      exact ⟨hmem, hk⟩
    · rw [validateTransition, if_neg hmem] at hk
      cases hk
  cases vendor with
  | memory =>
    obtain ⟨hmem, hk⟩ := hvalid h
    cases hget : jobs.get id with
    | none =>
      simp only [hget] at hk
      cases hk
    | some j =>
      simp only [hget] at hk
      split at hk
      · cases hk
      · next hstate =>
        cases hk
        obtain ⟨hj, hid⟩ := Jobs.mem_of_get hget
        refine ⟨hmem, ⟨j, hj, hid, not_not.mp hstate⟩, ?_⟩
        simp only [Jobs.advance, beq_iff_eq]
  | postgreSQL =>
    obtain ⟨hmem, hk⟩ := hvalid h
    dsimp only at hk
    split at hk
    · split at hk <;> cases hk
    · next hcount =>
      cases hk
      obtain ⟨j, hj, hcond⟩ := List.countP_pos_iff.mp (Nat.pos_of_ne_zero hcount)
      obtain ⟨hid, hstate⟩ : j.id = id ∧ j.state = source := by simpa using hcond
      refine ⟨hmem, ⟨j, hj, hid, hstate⟩, List.map_congr_left fun j' hj' ↦ ?_⟩
      -- A row with the id is the row that was found.
      by_cases hid' : j'.id = id
      · obtain rfl := Jobs.eq_of_id hnodup hj' hj (hid'.trans hid.symm)
        simp [hid', hstate]
      · simp [hid']

end Provisioning
