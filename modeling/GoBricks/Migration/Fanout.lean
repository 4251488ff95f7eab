import GoBricks.Migration.Targets

/-!
# The results of a migration of all tenants

What was dispatched is an initial part of the listing, every row that is past its hook is what
`runOne` returned for the tenant at its index, and a failure that ends the run is recorded before
its worker is done. A run that returns no error has therefore met none.
-/

open Text List Function Option Bool

namespace Migration

variable {E ρ : Type}

/-- The number of tenants that were dispatched. -/
def PC.count : PC E → ℕ
  | .check i | .slot i | .judge i | .gate i | .rejudge i => i
  | .inline i => i + 1
  | .waiting n _ | .returned n _ => n

/-- The number of tenants that a sequential run is done with. -/
def PC.before : PC E → ℕ
  | .check i | .slot i | .judge i | .gate i | .rejudge i | .inline i => i
  | .waiting n _ | .returned n _ => n

variable {i : ℕ}

theorem PC.count_of_index {pc : PC E} (h : pc.index = some i) : pc.count = i := by
  cases pc <;> cases h <;> rfl

theorem PC.before_of_index {pc : PC E} (h : pc.index = some i) : pc.before = i := by
  cases pc <;> cases h <;> rfl

variable {p : Phase E ρ} {err : Err E} {res : TenantResult E ρ}

namespace Call

variable {c : Call} {s t : State E ρ}

/-- The worker at an index goes on; the others stay. -/
theorem phase_setPhase {j : ℕ} {q : Phase E ρ} (h : (setPhase s i p).workers j = some q) :
    j = i ∧ q = p ∨ j ≠ i ∧ s.workers j = some q := by
  by_cases hj : j = i
  · subst hj
    rw [workers_setPhase_self] at h
    exact .inl ⟨rfl, (Option.some.inj h).symm⟩
  · rw [workers_setPhase_of_ne p hj] at h
    exact .inr ⟨hj, h⟩

/-! ### Rows -/

/-- The dispatcher is inside the listing, and comes to its end unless something stopped it. -/
def Inside (c : Call) : PC E → Prop
  | .check i | .slot i | .judge i | .gate i | .rejudge i | .inline i => i < c.tenantIDs.length
  | .waiting n stopErr =>
    n ≤ c.tenantIDs.length ∧ (stopErr = none → n = c.tenantIDs.length)
  | .returned n _ => n ≤ c.tenantIDs.length

/-- The index of a walk is that of a tenant. -/
theorem Inside.of_index {pc : PC E} (h : c.Inside pc) (hpc : pc.index = some i) :
    i < c.tenantIDs.length := by
  cases pc <;> cases hpc <;> exact h

theorem inside_of_index {pc : PC E} (h : i < c.tenantIDs.length) (hpc : pc.index = some i) :
    c.Inside pc := by
  cases pc <;> cases hpc <;> exact h

/-- The walk goes on inside the tenants. -/
theorem inside_next : c.Inside (c.next i : PC E) := by
  unfold next
  split
  next hlt => split <;> exact hlt
  · split
    · exact ⟨le_rfl, fun _ ↦ rfl⟩
    · exact le_rfl (a := c.tenantIDs.length)

theorem count_next (h : i ≤ c.tenantIDs.length) : (c.next i : PC E).count = i := by
  unfold next
  split
  · split <;> rfl
  next hlt =>
    have : c.tenantIDs.length = i := by omega
    split <;> exact this

theorem before_next (h : i ≤ c.tenantIDs.length) : (c.next i : PC E).before = i := by
  unfold next
  split
  · split <;> rfl
  next hlt =>
    have : c.tenantIDs.length = i := by omega
    split <;> exact this

theorem inside_stop (h : i ≤ c.tenantIDs.length) : c.Inside (c.stop i err) := by
  unfold stop
  split
  · exact ⟨h, nofun⟩
  · exact h

@[simp] theorem count_stop : (c.stop i err).count = i := by
  unfold stop
  split <;> rfl

@[simp] theorem before_stop : (c.stop i err).before = i := by
  unfold stop
  split <;> rfl

/-- A walk that returns at the end is not parallel. -/
theorem next_eq_returned {n : ℕ} {err : Option (Err E)} (h : c.next i = .returned n err) :
    c.parallel = false ∧ ¬ i < c.tenantIDs.length ∧ n = c.tenantIDs.length := by
  unfold next at h
  split at h
  · split at h <;> cases h
  next hlt =>
    split at h
    · cases h
    next hpar =>
      cases h
      exact ⟨eq_false_iff.mpr hpar, hlt, rfl⟩

/-- Nor is one that returns on an error. -/
theorem stop_eq_returned {n : ℕ} {err' : Option (Err E)} (h : c.stop i err = .returned n err') :
    c.parallel = false ∧ n = i ∧ err' = some err := by
  unfold stop at h
  split at h
  · cases h
  next hpar =>
    cases h
    exact ⟨eq_false_iff.mpr hpar, rfl, rfl⟩

/-- The row of an index is what `runOne` returned for its tenant. -/
def Own (c : Call) (s : State E ρ) (i : ℕ) : Prop :=
  s.outcomes i = some (s.rows i) ∧ (s.rows i).tenantID = c.tenant i

/-- The call has returned an error. -/
def Failed (s : State E ρ) : Prop :=
  ∃ n err, s.pc = .returned n (some err)

/-- What holds of a worker in a phase. -/
def Row (c : Call) (s : State E ρ) (i : ℕ) : Phase E ρ → Prop
  | .resolving | .claiming _ _ | .flyway _ => True
  | .ran res => s.outcomes i = some res ∧ res.tenantID = c.tenant i
  | .hooking res => s.rows i = res ∧ c.Own s i
  | .recording _ => c.parallel = true ∧ c.Own s i
  | .canceling => c.parallel = true ∧ c.Own s i ∧ s.firstErr ≠ none
  | .releasing | .exiting | .done =>
    c.Own s i ∧ (c.failure (s.rows i) ≠ none → s.firstErr ≠ none ∨ Failed s)

/-- What holds of a worker holds while its row, the first error and the failure of the call stay. -/
theorem Row.mono (h : c.Row s i p) (hrows : t.rows i = s.rows i)
    (houtcomes : t.outcomes i = s.outcomes i) (hfirst : s.firstErr ≠ none → t.firstErr ≠ none)
    (hfailed : Failed s → Failed t) : c.Row t i p := by
  have hown (hs : c.Own s i) : c.Own t i := by
    rw [Own, hrows, houtcomes]
    exact hs
  cases p with
  | resolving | claiming | flyway => trivial
  | ran res => exact ⟨houtcomes.trans h.1, h.2⟩
  | hooking res => exact ⟨hrows.trans h.1, hown h.2⟩
  | recording => exact ⟨h.1, hown h.2⟩
  | canceling => exact ⟨h.1, hown h.2.1, hfirst h.2.2⟩
  | releasing | exiting | done =>
    refine ⟨hown h.1, fun hfail ↦ ?_⟩
    rw [hrows] at hfail
    exact (h.2 hfail).imp hfirst hfailed

/-- Where the loop is, and how far each run has got. -/
structure Fanout (c : Call) (s : State E ρ) : Prop where
  inside : c.Inside s.pc
  /-- What was dispatched is an initial part of the listing. -/
  spawned : ∀ i, s.workers i ≠ none ↔ i < s.pc.count
  row : ∀ i p, s.workers i = some p → c.Row s i p
  /-- A sequential run is at one tenant at most. -/
  sequential : c.parallel = false → s.firstErr = none ∧ Joined s s.pc.before
  joined : ∀ n err, s.pc = .returned n err → Joined s n
  complete : ∀ n, s.pc = .returned n none →
    n = c.tenantIDs.length ∧ ∀ i < n, c.failure (s.rows i) = none

namespace Fanout

/-- No worker has the tenant that is next. -/
theorem free (h : Fanout c s) (hpc : s.pc.index = some i) : s.workers i = none := by
  by_contra hne
  have hlt := (h.spawned i).mp hne
  rw [PC.count_of_index hpc] at hlt
  omega

/-- A walk that goes on has not failed. -/
theorem not_failed_of_index (hpc : s.pc.index = some i) : ¬ Failed s := by
  rintro ⟨n, err, heq⟩
  rw [heq] at hpc
  cases hpc

/-- Once the call has returned, no worker is on its way. -/
theorem not_returned (h : Fanout c s) (hp : s.workers i = some p) (hdone : p ≠ .done) (n : ℕ)
    (err : Option (Err E)) : s.pc ≠ .returned n err := by
  intro hpc
  have hlt : i < n := by
    have := (h.spawned i).mp (by rw [hp]; exact some_ne_none _)
    rwa [hpc] at this
  exact hdone (Option.some.inj (hp.symm.trans (h.joined n err hpc i hlt)))

/-- A worker of a sequential run that is on its way is the one the run is at. -/
theorem eq_inline (h : Fanout c s) (hpar : c.parallel = false) (hp : s.workers i = some p)
    (hdone : p ≠ .done) : s.pc = .inline i := by
  have hcount : i < s.pc.count := (h.spawned i).mp (by rw [hp]; exact some_ne_none _)
  have hbefore : ¬ i < s.pc.before := by
    intro hlt
    exact hdone (Option.some.inj (hp.symm.trans ((h.sequential hpar).2 i hlt)))
  generalize s.pc = pc at hcount hbefore
  cases pc with
  | inline k =>
    simp only [PC.count, PC.before] at hcount hbefore
    have : i = k := by omega
    rw [this]
  | check | slot | judge | gate | rejudge | waiting | returned => exact absurd hcount hbefore

/-! ### Steps of the dispatcher -/

theorem context (h : Fanout c s) (ctx runCtx : Option CtxErr) :
    Fanout c { s with ctx := ctx, runCtx := runCtx } :=
  { h with row := fun i p hp ↦ (h.row i p hp).mono rfl rfl id id }

/-- The walk moves at its tenant. -/
theorem walk (h : Fanout c s) (pc : PC E) (sem : ℕ) (hpc : s.pc.index = some i)
    (hpc' : pc.index = some i) : Fanout c { s with pc := pc, sem := sem } where
  inside := inside_of_index (h.inside.of_index hpc) hpc'
  spawned j := by
    rw [h.spawned j, PC.count_of_index hpc, PC.count_of_index hpc']
  row j p hp := (h.row j p hp).mono rfl rfl id fun hf ↦ absurd hf (not_failed_of_index hpc)
  sequential hpar := by
    have hs := h.sequential hpar
    rw [PC.before_of_index hpc] at hs
    rw [PC.before_of_index hpc']
    exact hs
  joined n err heq := by
    subst heq
    cases hpc'
  complete n heq := by
    subst heq
    cases hpc'

theorem stop (h : Fanout c s) (err : Err E) (sem : ℕ) (hpc : s.pc.index = some i) :
    Fanout c { s with pc := c.stop i err, sem := sem } where
  inside := inside_stop (h.inside.of_index hpc).le
  spawned j := by
    rw [h.spawned j, PC.count_of_index hpc, count_stop]
  row j p hp := (h.row j p hp).mono rfl rfl id fun hf ↦ absurd hf (not_failed_of_index hpc)
  sequential hpar := by
    have hs := h.sequential hpar
    rw [PC.before_of_index hpc] at hs
    rw [before_stop]
    exact hs
  joined n err' heq := by
    obtain ⟨hpar, rfl, -⟩ := stop_eq_returned heq
    have hs := (h.sequential hpar).2
    rw [PC.before_of_index hpc] at hs
    exact hs
  complete n heq := by
    obtain ⟨-, -, hsome⟩ := stop_eq_returned heq
    cases hsome

/-- The workers have joined. -/
theorem join (h : Fanout c s) {n : ℕ} {stopErr : Option (Err E)} (err : Option (Err E))
    (hpc : s.pc = .waiting n stopErr) (hjoin : Joined s n)
    (hnone : err = none → s.firstErr = none ∧ stopErr = none) :
    Fanout c { s with pc := .returned n err } := by
  have hinside := h.inside
  rw [hpc] at hinside
  have hfailed : ¬ Failed s := by
    rintro ⟨m, err', heq⟩
    cases hpc.symm.trans heq
  refine ⟨hinside.1, fun j ↦ ?_, fun j p hp ↦ ?_, fun hpar ↦ ?_, fun m err' heq ↦ ?_, fun m heq ↦
    ?_⟩
  · have hs := h.spawned j
    rw [hpc] at hs
    exact hs
  · exact (h.row j p hp).mono rfl rfl id fun hf ↦ absurd hf hfailed
  · exact ⟨(h.sequential hpar).1, hjoin⟩
  · cases heq
    exact hjoin
  · cases heq
    obtain ⟨hfirst, hstop⟩ := hnone rfl
    refine ⟨hinside.2 hstop, fun i hi ↦ ?_⟩
    -- a failure would have been recorded before its worker was done
    by_contra hfail
    rcases (h.row i .done (hjoin i hi)).2 hfail with hrec | hrec
    · exact hrec hfirst
    · exact hfailed hrec

/-- A worker is started. -/
theorem dispatch (h : Fanout c s) (hpc : s.pc.index = some i) : Fanout c (c.dispatch s i) := by
  have hlt := h.inside.of_index hpc
  have hcount : (c.dispatch s i).pc.count = i + 1 := by
    rw [Call.dispatch]
    split
    · exact count_next hlt
    · rfl
  refine ⟨?_, fun j ↦ ?_, fun j p hp ↦ ?_, fun hpar ↦ ?_, fun n err heq ↦ ?_, fun n heq ↦ ?_⟩
  · rw [Call.dispatch]
    split
    · exact inside_next
    · exact hlt
  · rw [hcount]
    have hs := h.spawned j
    rw [PC.count_of_index hpc] at hs
    by_cases hj : j = i
    · subst hj
      simp [Call.dispatch]
    · have hworker : (c.dispatch s i).workers j = s.workers j := workers_setPhase_of_ne _ hj
      rw [hworker, hs]
      omega
  · rcases phase_setPhase hp with ⟨rfl, rfl⟩ | ⟨-, hp⟩
    · trivial
    · exact (h.row j p hp).mono rfl rfl id fun hf ↦ absurd hf (not_failed_of_index hpc)
  · obtain ⟨hfirst, hjoin⟩ := h.sequential hpar
    rw [PC.before_of_index hpc] at hjoin
    refine ⟨hfirst, fun j hj ↦ ?_⟩
    have hj : j < i := by simpa [Call.dispatch, hpar, PC.before] using hj
    have hworker : (c.dispatch s i).workers j = s.workers j := workers_setPhase_of_ne _ hj.ne
    exact hworker.trans (hjoin j hj)
  · rw [Call.dispatch] at heq
    split at heq
    next hpar =>
      have := (next_eq_returned heq).1
      rw [hpar] at this
      cases this
    · cases heq
  · rw [Call.dispatch] at heq
    split at heq
    next hpar =>
      have := (next_eq_returned heq).1
      rw [hpar] at this
      cases this
    · cases heq

/-! ### Steps of a worker -/

/-- A worker goes on. -/
theorem worker (h : Fanout c s) {q : Phase E ρ} (hp : s.workers i = some p) (hdone : p ≠ .done)
    (hpc : t.pc = s.pc) (hworkers : t.workers = (setPhase s i q).workers)
    (hrows : ∀ j, j ≠ i → t.rows j = s.rows j)
    (houtcomes : ∀ j, j ≠ i → t.outcomes j = s.outcomes j)
    (hfirst : s.firstErr ≠ none → t.firstErr ≠ none)
    (hseq : c.parallel = false → t.firstErr = s.firstErr) (hrow : c.Row t i q) : Fanout c t := by
  have hfailed (hf : Failed s) : Failed t := by
    obtain ⟨n, err, heq⟩ := hf
    exact ⟨n, err, hpc.trans heq⟩
  refine ⟨hpc ▸ h.inside, fun j ↦ ?_, fun j r hr ↦ ?_, fun hpar ↦ ?_, fun n err heq ↦ ?_,
    fun n heq ↦ ?_⟩
  · rw [hpc, ← h.spawned j, hworkers]
    by_cases hj : j = i
    · subst hj
      simp [hp]
    · rw [workers_setPhase_of_ne q hj]
  · rw [hworkers] at hr
    rcases phase_setPhase hr with ⟨rfl, rfl⟩ | ⟨hj, hr⟩
    · exact hrow
    · exact (h.row j r hr).mono (hrows j hj) (houtcomes j hj) hfirst hfailed
  · obtain ⟨hnone, hjoin⟩ := h.sequential hpar
    refine ⟨(hseq hpar).trans hnone, fun j hj ↦ ?_⟩
    rw [hpc] at hj
    have hjp := hjoin j hj
    have hji : j ≠ i := by
      rintro rfl
      exact hdone (Option.some.inj (hp.symm.trans hjp))
    rw [hworkers, workers_setPhase_of_ne q hji]
    exact hjp
  · exact absurd (hpc.symm.trans heq) (h.not_returned hp hdone n err)
  · exact absurd (hpc.symm.trans heq) (h.not_returned hp hdone n none)

/-- A sequential run is done with a tenant. -/
theorem hook_inline (h : Fanout c s) (hpar : c.parallel = false)
    (hp : s.workers i = some (.hooking res)) (hpc' : t.pc = match c.failure res with
      | some err => .returned (i + 1) (some err)
      | none => c.next (i + 1)) (hworkers : t.workers = (setPhase s i .done).workers)
    (hrows : t.rows = s.rows) (houtcomes : t.outcomes = s.outcomes)
    (hfirst : t.firstErr = s.firstErr) : Fanout c t := by
  have hpc := h.eq_inline hpar hp (by rintro ⟨⟩)
  have hlt : i < c.tenantIDs.length := by
    have := h.inside
    rwa [hpc] at this
  obtain ⟨hrow, hown⟩ := h.row i _ hp
  obtain ⟨hnone, hjoin⟩ := h.sequential hpar
  rw [hpc] at hjoin
  have hfailed : ¬ Failed s := by
    rintro ⟨n, err, heq⟩
    cases hpc.symm.trans heq
  have hcount : t.pc.count = i + 1 := by
    rw [hpc']
    split
    · rfl
    · exact count_next hlt
  have hbefore : t.pc.before = i + 1 := by
    rw [hpc']
    split
    · rfl
    · exact before_next hlt
  -- Without workers in parallel the tenants before this one are done.
  have hjoin' : Joined t (i + 1) := by
    intro j hj
    rw [hworkers]
    by_cases hji : j = i
    · rw [hji, workers_setPhase_self]
    · rw [workers_setPhase_of_ne _ hji]
      exact hjoin j (show j < i by omega)
  refine ⟨?_, fun j ↦ ?_, fun j p hjp ↦ ?_, fun _ ↦ ?_, fun n err heq ↦ ?_, fun n heq ↦ ?_⟩
  · rw [hpc']
    split
    · exact hlt
    · exact inside_next
  · have hs := h.spawned j
    rw [hpc] at hs
    rw [hcount, hworkers]
    by_cases hji : j = i
    · simp [hji]
    · rw [workers_setPhase_of_ne _ hji]
      exact hs
  · rw [hworkers] at hjp
    rcases phase_setPhase hjp with ⟨rfl, rfl⟩ | ⟨hji, hjp⟩
    · refine ⟨?_, fun hfail ↦ .inr ?_⟩
      · rw [Own, hrows, houtcomes]
        exact hown
      · rw [hrows, hrow] at hfail
        obtain ⟨err, herr⟩ := ne_none_iff_exists'.mp hfail
        rw [herr] at hpc'
        exact ⟨j + 1, err, hpc'⟩
    · exact (h.row j p hjp).mono (congrFun hrows j) (congrFun houtcomes j)
        (by rw [hfirst]; exact id) fun hf ↦ absurd hf hfailed
  · rw [hbefore]
    exact ⟨hfirst.trans hnone, hjoin'⟩
  · have hn : n = i + 1 := by
      rw [← hcount, heq]
      rfl
    rw [hn]
    exact hjoin'
  · rw [hpc'] at heq
    split at heq
    · cases heq
    next hres =>
      obtain ⟨-, hge, rfl⟩ := next_eq_returned heq
      refine ⟨rfl, fun j hj ↦ ?_⟩
      rw [hrows]
      by_cases hji : j = i
      · rw [hji, hrow]
        exact hres
      · by_contra hfail
        rcases (h.row j .done (hjoin j (show j < i by omega))).2 hfail with hrec | hrec
        · exact hrec hnone
        · exact hfailed hrec

theorem hook (h : Fanout c s) (hp : s.workers i = some (.hooking res)) :
    Fanout c (c.afterHook s i res) := by
  obtain ⟨hrow, hown⟩ := h.row i _ hp
  unfold afterHook
  split
  next hpar =>
    refine h.worker hp (by rintro ⟨⟩) rfl rfl (fun _ _ ↦ rfl) (fun _ _ ↦ rfl) id (fun _ ↦ rfl) ?_
    split
    · exact ⟨hpar, hown⟩
    next hnone =>
      refine ⟨hown, fun hfail ↦ absurd ?_ hfail⟩
      show c.failure (s.rows i) = none
      rw [hrow, hnone]
  next hpar =>
    exact h.hook_inline (eq_false_iff.mpr hpar) hp rfl rfl rfl rfl rfl

/-- A worker has its result. -/
theorem finish (h : Fanout c s) (res : TenantResult E ρ) (owners : MigrationTarget → Option Bytes)
    (hp : s.workers i = some p) (hrunning : p.running = true) (hres : res.tenantID = c.tenant i) :
    Fanout c (finish { s with owners := owners } i res) := by
  refine h.worker hp (by rintro rfl; cases hrunning) rfl rfl (fun _ _ ↦ rfl)
    (fun j hj ↦ update_of_ne hj _ _) id (fun _ ↦ rfl) ?_
  exact ⟨update_self _ _ _, hres⟩

theorem store (h : Fanout c s) (hp : s.workers i = some (.ran res)) :
    Fanout c { setPhase s i (.hooking res) with rows := update s.rows i res } := by
  obtain ⟨hout, hres⟩ := h.row i _ hp
  refine h.worker hp (by rintro ⟨⟩) rfl rfl (fun j hj ↦ update_of_ne hj _ _)
    (fun _ _ ↦ rfl) id (fun _ ↦ rfl) ?_
  refine ⟨update_self _ _ _, ?_, ?_⟩
  · show s.outcomes i = some (update s.rows i res i)
    rw [update_self]
    exact hout
  · show (update s.rows i res i).tenantID = c.tenant i
    rw [update_self]
    exact hres

/-- A worker records its error. -/
theorem record (h : Fanout c s) (hp : s.workers i = some (.recording err)) :
    Fanout c { setPhase s i .canceling with firstErr := s.firstErr.or (some err) } := by
  obtain ⟨hpar, hown⟩ := h.row i _ hp
  have hsome : s.firstErr.or (some err) ≠ none := by
    cases s.firstErr <;> exact some_ne_none _
  refine h.worker hp (by rintro ⟨⟩) rfl rfl (fun _ _ ↦ rfl) (fun _ _ ↦ rfl) (fun _ ↦ hsome)
    (fun hfalse ↦ ?_) ⟨hpar, hown, hsome⟩
  rw [hpar] at hfalse
  cases hfalse

/-- Every step keeps the invariant. -/
theorem move (h : Fanout c s) (hmove : Move c s t) : Fanout c t := by
  cases hmove with
  | context ctx runCtx => exact h.context ctx runCtx
  | walk pc sem hpc hpc' => exact h.walk pc sem hpc hpc'
  | stop err sem hpc => exact h.stop err sem hpc
  | joined err hpc hjoin hnone => exact h.join err hpc hjoin hnone
  | dispatch hpc => exact h.dispatch hpc
  | resolved db vendor hp hpending =>
    exact h.worker hp (by rintro rfl; cases hpending) rfl rfl (fun _ _ ↦ rfl) (fun _ _ ↦ rfl) id
      (fun _ ↦ rfl) trivial
  | launched owners hp =>
    exact h.worker hp (by rintro ⟨⟩) rfl rfl (fun _ _ ↦ rfl) (fun _ _ ↦ rfl) id (fun _ ↦ rfl)
      trivial
  | finished res owners hp hrunning hres => exact h.finish res owners hp hrunning hres
  | stored hp => exact h.store hp
  | hooked hp => exact h.hook hp
  | recorded hp => exact h.record hp
  | canceled runCtx hp =>
    obtain ⟨-, hown, hfirst⟩ := h.row _ _ hp
    exact h.worker hp (by rintro ⟨⟩) rfl rfl (fun _ _ ↦ rfl) (fun _ _ ↦ rfl) id (fun _ ↦ rfl)
      ⟨hown, fun _ ↦ .inl hfirst⟩
  | released sem hp | exited hp =>
    exact h.worker hp (by rintro ⟨⟩) rfl rfl (fun _ _ ↦ rfl) (fun _ _ ↦ rfl) id (fun _ ↦ rfl)
      (h.row _ _ hp)

end Fanout

theorem fanout_start : Fanout c (c.start : State E ρ) where
  inside := inside_next
  spawned i := by
    show (none : Option (Phase E ρ)) ≠ none ↔ i < (c.next 0 : PC E).count
    rw [count_next (Nat.zero_le _)]
    simp
  row i p hp := by cases hp
  sequential _ := by
    refine ⟨rfl, fun i hi ↦ ?_⟩
    rw [start, before_next (Nat.zero_le _)] at hi
    omega
  joined n err heq := by
    obtain ⟨-, hge, rfl⟩ := next_eq_returned heq
    intro i hi
    omega
  complete n heq := by
    obtain ⟨-, hge, rfl⟩ := next_eq_returned heq
    exact ⟨rfl, fun i hi ↦ by omega⟩

/-! ### Whole runs -/

variable [DecidableEq E] [DecidableEq ρ]

/-- The invariant holds along every run. -/
theorem fanout_of_reachable (h : c.system.Reachable s) : Fanout c s := by
  refine h.invariant (P := Fanout c) ?_ ?_
  · rintro _ rfl
    exact fanout_start
  · intro s l t _ _ hinv hstep
    exact hinv.move (move_of_step hstep)

/-- So does the one of the targets. -/
theorem targets_of_reachable (h : c.system.Reachable s) : Targets c s := by
  refine h.invariant (P := Targets c) ?_ ?_
  · rintro _ rfl
    exact targets_start
  · intro s l t hreach _ hinv hstep
    exact hinv.move (fun i ↦ (fanout_of_reachable hreach).free) (move_of_step hstep)

omit [DecidableEq E] [DecidableEq ρ] in
/-- The rows of a result are the rows of the state. -/
theorem getElem?_output {n : ℕ} (h : (c.output s n).results[i]? = some res) :
    i < n ∧ s.rows i = res := by
  have hlt : i < n := by
    have := (List.getElem?_eq_some_iff.mp h).1
    simpa [output] using this
  refine ⟨hlt, ?_⟩
  rw [output, List.getElem?_map, List.getElem?_range hlt] at h
  exact Option.some.inj h

omit [DecidableEq E] [DecidableEq ρ] in
theorem getElem?_tenant (h : i < c.tenantIDs.length) : c.tenantIDs[i]? = some (c.tenant i) := by
  rw [tenant, getD_eq_getElem?_getD, List.getElem?_eq_getElem h, getD_some]

omit [DecidableEq E] [DecidableEq ρ] in
/-- Rows of the first tenants, in the order of the listing. -/
theorem output_partition {n : ℕ} (hle : n ≤ c.tenantIDs.length)
    (hrows : ∀ i < n, (s.rows i).tenantID = c.tenant i) :
    (c.output s n).results.map (·.tenantID) ++ (c.output s n).neverDispatched = c.tenantIDs := by
  have htake : (c.output s n).results.map (·.tenantID) = c.tenantIDs.take n := by
    refine ext_getElem? fun i ↦ ?_
    rw [output, List.map_map, List.getElem?_map, List.getElem?_take]
    split
    next hi =>
      rw [List.getElem?_range hi, getElem?_tenant (hi.trans_le hle), ← hrows i hi]
      rfl
    next hi => rw [List.getElem?_eq_none (by simpa using hi), map_none]
  have hdrop : (c.output s n).neverDispatched = c.tenantIDs.drop n := by
    simp [output]
  rw [htake, hdrop, take_append_drop]

/-- **The fan-out.** In every state of a call, no two runs have started Flyway on one target. When
it has returned, its rows are the outcomes of the first tenants of the listing, in order and each at
its index, and the tenants that were never dispatched are the others; if it returned no error and
does not continue on errors, then all tenants have a row, and none has an error. -/
theorem migrateAll_sound (h : c.system.Reachable s) :
    (∀ i j target, c.StartedOn s i target → c.StartedOn s j target → i = j) ∧
    ∀ n err, s.pc = .returned n err →
      (c.output s n).results.map (·.tenantID) ++ (c.output s n).neverDispatched = c.tenantIDs ∧
      (∀ i res, (c.output s n).results[i]? = some res →
        s.outcomes i = some res ∧ c.tenantIDs[i]? = some res.tenantID) ∧
      (c.continueOnError = false → err = none →
        (c.output s n).neverDispatched = [] ∧ ∀ res ∈ (c.output s n).results, res.err = none) := by
  refine ⟨(targets_of_reachable h).distinct, fun n err hpc ↦ ?_⟩
  have hinv := fanout_of_reachable h
  have hle : n ≤ c.tenantIDs.length := by
    have := hinv.inside
    rwa [hpc] at this
  have hown {i : ℕ} (hi : i < n) : c.Own s i :=
    (hinv.row i .done (hinv.joined n err hpc i hi)).1
  refine ⟨output_partition hle fun i hi ↦ (hown hi).2, fun i res hres ↦ ?_, fun hstop herr ↦ ?_⟩
  · obtain ⟨hi, rfl⟩ := getElem?_output hres
    refine ⟨(hown hi).1, ?_⟩
    rw [(hown hi).2]
    exact getElem?_tenant (hi.trans_le hle)
  · obtain ⟨hn, hfail⟩ := hinv.complete n (herr ▸ hpc)
    refine ⟨?_, fun res hmem ↦ ?_⟩
    · simp [output, hn]
    · obtain ⟨i, hres⟩ := List.getElem?_of_mem hmem
      obtain ⟨hi, rfl⟩ := getElem?_output hres
      simpa [failure, hstop] using hfail i hi

/-- Two tenants with the same target, run by two workers: the second is refused, and its error ends
the call. -/
theorem migrateAll_sound_aliases :
    let c : Call :=
      { tenantIDs := [ascii "a", ascii "b", ascii "c"], action := .migrate, parallelism := 2
        continueOnError := false, migratorIdentity := none, runnerVendor := [], lower := id }
    ∃ s : State Unit Unit, c.system.Reachable s ∧
      s.pc = .returned 2 (some (.duplicateTarget (ascii "b") (ascii "a"))) ∧
      (c.output s 2).results.map (·.err) =
        [none, some (.duplicateTarget (ascii "b") (ascii "a"))] ∧
      (c.output s 2).results.map (·.tenantID) ++ (c.output s 2).neverDispatched = c.tenantIDs := by
  intro c
  let db : DatabaseConfig :=
    { typ := postgreSQL, host := ascii "h", port := 0, database := ascii "d"
      username := ascii "u", connectionString := [], schema := ascii "s" }
  let schedule : List (Label Unit Unit) :=
    [.check, .slotTake, .judge, .gate false, .rejudge,
      .check, .slotTake, .judge, .gate false, .rejudge,
      .resolve 0 (.config (some db)), .resolve 1 (.config (some db)), .claim 0, .claim 1,
      .store 1, .hook 1, .record 1, .cancelRun 1, .check,
      .flyway 0 (some ()) none, .store 0, .hook 0,
      .release 1, .exit 1, .release 0, .exit 0, .join]
  have hrun : (c.system.run c.start schedule).any (fun s ↦ decide
      (s.pc = .returned 2 (some (.duplicateTarget (ascii "b") (ascii "a"))) ∧
        (c.output s 2).results.map (·.err) =
          [none, some (.duplicateTarget (ascii "b") (ascii "a"))])) = true := by
    decide +kernel
  obtain ⟨s, hs, hb⟩ := (any_eq_true _ _).mp hrun
  obtain ⟨hpc, herr⟩ := of_decide_eq_true hb
  have hreach : c.system.Reachable s := StepSystem.reach_of_run (.init rfl) hs
  exact ⟨s, hreach, hpc, herr, ((migrateAll_sound hreach).2 2 _ hpc).1⟩

end Call

end Migration
