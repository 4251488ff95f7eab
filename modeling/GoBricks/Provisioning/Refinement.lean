import GoBricks.Provisioning.Store

/-!
# The store in memory stands for the one on PostgreSQL

Callers of a store see its answers only. Whatever calls are made of two stores that are empty at
first, the one in memory answers as the one on PostgreSQL does (`memoryStore_refines`), except that
it may keep a nil map of metadata where a row has an empty one.

The table is the image of the map (`answer_filled`), since its ids are unique: an update that asks
for a state as well as an id then finds what the map finds (`transition_eq`), and the key of the
table decides before its index of active jobs does (`upsertRows_eq`).
-/

namespace Provisioning

/-- A state as callers spell it. -/
inductive StateName
  | known (s : State)
  | other (name : String)

/-- A call of a store. -/
inductive Call
  | upsert (job : Option Job)
  | get (id : String)
  | transition (id : String) (source target : StateName) (metadata : Metadata) (lastError : String)

/-- The errors that callers match. -/
inductive Sentinel
  | illegalTransition
  | jobNotFound
  | staleRead
  | invalidJob
  | tenantBusy
  deriving DecidableEq

/-- The sentinel that an error wraps. -/
def StoreError.sentinel : StoreError → Sentinel
  | .illegalTransition .. => .illegalTransition
  | .jobNotFound => .jobNotFound
  | .staleRead => .staleRead
  | .invalidJob _ => .invalidJob
  | .tenantBusy _ => .tenantBusy

/-! ### The statements -/

namespace PostgresStore

/-- The row of a new job. -/
def newRow (job : Job) : Job :=
  ⟨job.id, job.tenantID, .pending, 0, "", some (job.metadata.getD [])⟩

/-- `INSERT ... ON CONFLICT (id) DO NOTHING`. Nothing is done about a row with the id; a second
active row of the tenant violates the partial index. -/
def insert (rows : Jobs) (row : Job) : Option Jobs :=
  if (rows.get row.id).isSome then some rows
  else if !row.state.isTerminal && rows.busy row.tenantID then none
  else some (rows ++ [row])

/-- The insert and the `SELECT` after it. -/
def upsertRows (rows : Jobs) (job : Option Job) : Except StoreError (Jobs × Job) := do
  let job ← validateJobForUpsert job
  match insert rows (newRow job) with
  | none => .error (.tenantBusy job.tenantID)
  | some rows' =>
    match rows'.get job.id with
    | none => .error .jobNotFound
    | some row => .ok (rows', row)

end PostgresStore

/-! ### Answers -/

/-- What a call returns. -/
abbrev Answer := Except Sentinel (Option Job)

/-- `Upsert` by the statements of the vendor. -/
def Vendor.upsertRows : Vendor → Jobs → Option Job → Except StoreError (Jobs × Job)
  | .memory => MemoryStore.upsert
  | .postgreSQL => PostgresStore.upsertRows

/-- The jobs after a call, and its answer. -/
def Vendor.answer (vendor : Vendor) (jobs : Jobs) : Call → Jobs × Answer
  | .upsert job =>
    match vendor.upsertRows jobs job with
    | .error e => (jobs, .error e.sentinel)
    | .ok (jobs', stored) => (jobs', .ok (some stored))
  | .get id =>
    match jobs.get id with
    | none => (jobs, .error .jobNotFound)
    | some job => (jobs, .ok (some job))
  | .transition id (.known source) (.known target) metadata lastError =>
    match vendor.transition jobs id source target metadata lastError with
    | .error e => (jobs, .error e.sentinel)
    | .ok jobs' => (jobs', .ok none)
  | .transition .. => (jobs, .error .illegalTransition)

/-- The answers to a sequence of calls. -/
def Vendor.answers (vendor : Vendor) : Jobs → List Call → List Answer
  | _, [] => []
  | jobs, c :: calls => (vendor.answer jobs c).2 :: vendor.answers (vendor.answer jobs c).1 calls

/-- The job with an empty map for a nil one. -/
def Job.filled (job : Job) : Job :=
  { job with metadata := some (job.metadata.getD []) }

/-- An answer whose job has a map. -/
def Answer.filled (a : Answer) : Answer :=
  a.map (Option.map Job.filled)

/-! ### The table is the image of the map -/

theorem get_map_filled (jobs : Jobs) (id : String) :
    Jobs.get (jobs.map Job.filled) id = (jobs.get id).map Job.filled :=
  List.find?_map ..

theorem busy_map_filled (jobs : Jobs) (tenantID : String) :
    Jobs.busy (jobs.map Job.filled) tenantID = jobs.busy tenantID :=
  List.any_map ..

theorem filled_advance (job : Job) (target : State) (metadata : Metadata) (lastError : String) :
    (job.advance target metadata lastError).filled =
      job.filled.advance target metadata lastError := by
  cases metadata <;> rfl

/-- The key decides first, so an upsert is a lookup before it is an insert. -/
theorem PostgresStore.upsertRows_eq (rows : Jobs) (job : Option Job) :
    upsertRows rows job = upsert rows job := by
  rw [upsertRows, upsert, upsertRow]
  congr 1
  funext job
  rw [insert, show (newRow job).id = job.id from rfl]
  cases hget : rows.get job.id with
  | some existing => simp [hget]
  | none =>
    have hlast : Jobs.get (rows ++ [newRow job]) job.id = some (newRow job) := by
      rw [Jobs.get, List.find?_append, show rows.find? _ = none from hget]
      simp [newRow]
    by_cases hbusy : rows.busy job.tenantID
    · simp [newRow, State.isTerminal, hbusy]
    · simp only [newRow] at hlast
      simp [newRow, hbusy, hlast]

/-- Ids are unique, so the row with the id and the state is the row with the id, if it is in the
state. -/
theorem transition_eq {jobs : Jobs} (hnodup : (jobs.map Job.id).Nodup) (id : String)
    (source target : State) (metadata : Metadata) (lastError : String) :
    PostgresStore.transition jobs id source target metadata lastError =
      MemoryStore.transition jobs id source target metadata lastError := by
  rw [PostgresStore.transition, MemoryStore.transition]
  congr 1
  funext u
  cases hget : jobs.get id with
  | none =>
    have hcount : (jobs.countP fun j ↦ j.id == id && j.state == source) = 0 := by
      rw [List.countP_eq_zero]
      intro j hj
      simp [Jobs.not_mem_of_get hget j hj]
    simp [hcount]
  | some j =>
    obtain ⟨hj, hid⟩ := Jobs.mem_of_get hget
    have hunique : ∀ j' ∈ jobs,
        (j'.id == id && j'.state == source) = (j'.id == id && j.state == source) := by
      intro j' hj'
      by_cases hid' : j'.id = id
      · rw [Jobs.eq_of_id hnodup hj' hj (hid'.trans hid.symm)]
      · rw [beq_eq_false_iff_ne.mpr hid', Bool.false_and, Bool.false_and]
    by_cases hstate : j.state = source
    · have hcount : (jobs.countP fun j ↦ j.id == id && j.state == source) ≠ 0 :=
        Nat.ne_of_gt (List.countP_pos_iff.mpr ⟨j, hj, by simp [hid, hstate]⟩)
      dsimp only
      rw [if_neg hcount, if_neg (not_not.mpr hstate)]
      refine congrArg _ (List.map_congr_left fun j' hj' ↦ ?_)
      simp [hunique j' hj', hstate]
    · have hcount : (jobs.countP fun j ↦ j.id == id && j.state == source) = 0 := by
        rw [List.countP_eq_zero]
        intro j' hj'
        simp [hunique j' hj', hstate]
      simp [hcount, hstate]

/-- `Upsert` of the two stores, up to the default of the metadata. -/
theorem upsert_filled (jobs : Jobs) (job : Option Job) :
    PostgresStore.upsert (jobs.map Job.filled) job =
      (MemoryStore.upsert jobs job).map (Prod.map (List.map Job.filled) Job.filled) := by
  rw [MemoryStore.upsert, PostgresStore.upsert, upsertRow, upsertRow]
  cases validateJobForUpsert job with
  | error e => rfl
  | ok job =>
    simp only [bind, Except.bind, get_map_filled, busy_map_filled]
    cases hget : jobs.get job.id with
    | some existing => rfl
    | none =>
      by_cases hbusy : jobs.busy job.tenantID
      · simp only [hbusy, if_true]
        rfl
      · simp only [hbusy, if_false, Bool.false_eq_true]
        refine congrArg Except.ok (Prod.ext ?_ rfl)
        rw [Prod.map_fst, List.map_append]
        rfl

/-- `Transition` of the two stores, up to the default of the metadata. -/
theorem transition_filled {jobs : Jobs} (hnodup : (jobs.map Job.id).Nodup) (id : String)
    (source target : State) (metadata : Metadata) (lastError : String) :
    PostgresStore.transition (jobs.map Job.filled) id source target metadata lastError =
      (MemoryStore.transition jobs id source target metadata lastError).map
        (List.map Job.filled) := by
  have hids : (jobs.map Job.filled).map Job.id = jobs.map Job.id := List.map_map
  rw [transition_eq (hids ▸ hnodup), MemoryStore.transition, MemoryStore.transition, get_map_filled]
  cases validateTransition source target with
  | error e => rfl
  | ok u =>
    cases jobs.get id with
    | none => rfl
    | some j =>
      change (if j.state ≠ source then _ else _) = Except.map _ (if j.state ≠ source then _ else _)
      split
      · rfl
      · refine congrArg Except.ok ?_
        rw [List.map_map, List.map_map]
        refine List.map_congr_left fun j' _ ↦ ?_
        rw [Function.comp, Function.comp, apply_ite Job.filled, filled_advance]
        rfl

/-! ### Calls -/

/-- What a call does to the map it does to its image. -/
theorem answer_filled {jobs : Jobs} (hnodup : (jobs.map Job.id).Nodup) (c : Call) :
    Vendor.postgreSQL.answer (jobs.map Job.filled) c =
      Prod.map (List.map Job.filled) Answer.filled (Vendor.memory.answer jobs c) := by
  cases c with
  | upsert job =>
    simp only [Vendor.answer, Vendor.upsertRows, PostgresStore.upsertRows_eq, upsert_filled]
    cases MemoryStore.upsert jobs job <;> rfl
  | get id =>
    simp only [Vendor.answer, get_map_filled]
    cases jobs.get id <;> rfl
  | transition id source target metadata lastError =>
    cases source with
    | other name => rfl
    | known source =>
      cases target with
      | other name => rfl
      | known target =>
        simp only [Vendor.answer, Vendor.transition, transition_filled hnodup]
        cases MemoryStore.transition jobs id source target metadata lastError <;> rfl

/-- Ids stay unique. -/
theorem nodup_answer {jobs : Jobs} (hnodup : (jobs.map Job.id).Nodup) (c : Call) :
    ((Vendor.memory.answer jobs c).1.map Job.id).Nodup := by
  cases c with
  | upsert job =>
    cases hupsert : MemoryStore.upsert jobs job with
    | error e => simpa only [Vendor.answer, Vendor.upsertRows, hupsert] using hnodup
    | ok r =>
      simp only [Vendor.answer, Vendor.upsertRows, hupsert]
      rcases @upsert_eq_ok .memory _ _ _ _ hupsert with heq | ⟨heq, hinserted⟩
      · rwa [heq]
      · rw [heq]
        exact hinserted.nodup hnodup
  | get id =>
    simp only [Vendor.answer]
    split <;> exact hnodup
  | transition id source target metadata lastError =>
    cases source with
    | other name => exact hnodup
    | known source =>
      cases target with
      | other name => exact hnodup
      | known target =>
        simp only [Vendor.answer]
        split
        · exact hnodup
        · next jobs' hok =>
          rw [(transition_eq_ok hnodup hok).2.2, map_id_advance]
          exact hnodup

/-- So are the answers of whole runs, by induction on the calls. -/
theorem answers_filled {jobs : Jobs} (hnodup : (jobs.map Job.id).Nodup) (calls : List Call) :
    Vendor.postgreSQL.answers (jobs.map Job.filled) calls =
      (Vendor.memory.answers jobs calls).map Answer.filled := by
  induction calls generalizing jobs with
  | nil => rfl
  | cons c calls ih =>
    rw [Vendor.answers, Vendor.answers, answer_filled hnodup, List.map_cons]
    exact congrArg _ (ih (nodup_answer hnodup c))

/-- **The store in memory answers as the one on PostgreSQL.** -/
theorem memoryStore_refines (calls : List Call) :
    Vendor.postgreSQL.answers [] calls = (Vendor.memory.answers [] calls).map Answer.filled :=
  @answers_filled [] List.nodup_nil calls

end Provisioning
