import GoBricks.ResourcePool.System

/-!
# What one step does to the pool

The safety invariants of the pool look at four things only: the pool, its callers, how often each
value has been handed to a Closer, and the history. `Effect` lists everything a step of the system
can do to these four, with the guards under which it does it, and `step_effect` is the inversion:
**every step has one of these effects**. The cleanup loops and the phases of `Close` do not appear —
a loop's tick is a sweep here, whichever loop it was.

Whether a decided Closer call has been made yet does not matter to those invariants either, so
`State.closes` counts the decided and the made calls together, and making one is a `quiet` step.
-/

namespace ResourcePool

variable {V E : Type*}

/-- How often value `i` was handed to a Closer, or back to the caller of `Remove`: the calls made
and the calls decided. -/
def State.closes (s : State V E) (i : ℕ) : ℕ :=
  (s.closing.map Prod.snd).count i + s.closeLog.count i

/-- The possible effects of a step on the pool, the callers, the values newly to be closed, and the
events recorded. -/
inductive Effect (s : State V E) : Pool V E → List (Caller E) → List ℕ → List Event → Prop
  /-- Only counters and recorded errors move. -/
  | quiet (errors : ℕ) (errs : List E) :
    Effect s { s.pool with errors := errors, cleanupErrs := errs } s.callers [] []
  | getOrCreate (key : String) (now : ℤ) :
    Effect s (s.pool.leaseOrJoin key now).1
      (s.callers ++ [.ofJoined (s.pool.leaseOrJoin key now).2]) []
      (Event.ofJoined (s.pool.leaseOrJoin key now).2)
  | giveUp {k c : ℕ} {pc : PendingCreate E} : s.callers[k]? = some (.joined c) →
    s.pool.creates[c]? = some pc → pc.settled = false →
    Effect s (s.pool.giveUp c) (s.callers.set k (.failed .ctx)) [] []
  /-- A waiter takes the error of its settled create. -/
  | awaitErr {k c : ℕ} {pc : PendingCreate E} {err : PoolErr E} :
    s.callers[k]? = some (.joined c) → s.pool.creates[c]? = some pc → pc.settled = true →
    pc.err = some err → Effect s s.pool (s.callers.set k (.failed err)) [] []
  /-- A waiter takes the entry of its settled create. -/
  | await {k c i : ℕ} {pc : PendingCreate E} : s.callers[k]? = some (.joined c) →
    s.pool.creates[c]? = some pc → pc.settled = true → pc.err = none → pc.e = some i →
    Effect s s.pool (s.callers.set k (.awaited i)) [] []
  | claimSeed {k i : ℕ} : s.callers[k]? = some (.awaited i) →
    Effect s (s.pool.claimSeed i).1
      (s.callers.set k (if (s.pool.claimSeed i).2 then .leased i else .failed .poolClosed)) [] []
  | release {k i : ℕ} : s.callers[k]? = some (.leased i) →
    Effect s (s.pool.releaseEntry i).1 (s.callers.set k .released)
      ((s.pool.releaseEntry i).2.map Prod.snd) []
  | installCreated {c : ℕ} {pc : PendingCreate E} (value : V) (now : ℤ) :
    s.pool.creates[c]? = some pc → pc.settled = false →
    Effect s (s.pool.installCreated c pc value now).1 s.callers
      ((s.pool.installCreated c pc value now).2.map Prod.snd) [.touched c, .created c]
  | failCreate {c : ℕ} {pc : PendingCreate E} (err : E) : s.pool.creates[c]? = some pc →
    pc.settled = false → Effect s (s.pool.failCreate pc.key c err) s.callers [] []
  | remove (key : String) :
    Effect s (s.pool.remove key).1 s.callers (s.pool.remove key).2.toList [.removed key]
  | cleanupIdle (now : ℤ) (order : List String) :
    Effect s (s.pool.cleanupIdle now order).1 s.callers (s.pool.cleanupIdle now order).2 []
  | closeFlag : Effect s { s.pool with closed := true } s.callers [] []
  | drain (order : List String) :
    Effect s (s.pool.drain order).1 s.callers (s.pool.drain order).2 []

/-- `t` comes from `s` by one of the effects. -/
def Affects (s t : State V E) : Prop :=
  ∃ cl ev, Effect s t.pool t.callers cl ev ∧ (∀ i, t.closes i = s.closes i + cl.count i) ∧
    t.history = ev ++ s.history

namespace State

variable {s t : State V E}

/-- A step that leaves the pool, the callers and the closes alone. -/
theorem affects_of_eq (hpool : t.pool = s.pool) (hcallers : t.callers = s.callers)
    (hcloses : ∀ i, t.closes i = s.closes i) (hhistory : t.history = s.history) : Affects s t := by
  refine ⟨[], [], ?_, by simpa using hcloses, hhistory⟩
  rw [hpool, hcallers]
  exact .quiet s.pool.errors s.pool.cleanupErrs

theorem affects_giveUp {k : ℕ} (h : s.giveUp k = some t) : Affects s t := by
  unfold giveUp at h
  split at h <;> try contradiction
  next c hk =>
  split at h <;> try contradiction
  next pc hpc =>
  split at h <;> try contradiction
  next hset =>
  cases h
  exact ⟨[], [], .giveUp hk hpc (by simpa using hset), fun _ ↦ rfl, rfl⟩

theorem affects_await {k : ℕ} (h : s.await k = some t) : Affects s t := by
  unfold await at h
  split at h <;> try contradiction
  next c hk =>
  split at h <;> try contradiction
  next pc hpc =>
  split at h <;> try contradiction
  next hset =>
  split at h <;> try contradiction
  · next err hE =>
    cases h
    exact ⟨[], [], .awaitErr hk hpc hset hE, fun _ ↦ rfl, rfl⟩
  · next i hnone hi =>
    cases h
    exact ⟨[], [], .await hk hpc hset hnone hi, fun _ ↦ rfl, rfl⟩

theorem affects_claimSeed {k : ℕ} (h : s.claimSeed k = some t) : Affects s t := by
  unfold claimSeed at h
  split at h <;> try contradiction
  next i hk =>
  cases h
  exact ⟨[], [], .claimSeed hk, fun _ ↦ rfl, rfl⟩

theorem affects_release {k : ℕ} (h : s.release k = some t) : Affects s t := by
  unfold release at h
  split at h <;> try contradiction
  next i hk =>
  cases h
  refine ⟨_, [], .release hk, fun i ↦ ?_, rfl⟩
  simp only [closes, List.map_append, List.count_append]
  omega

theorem affects_installCreated {c : ℕ} {value : V} {now : ℤ}
    (h : s.installCreated c value now = some t) : Affects s t := by
  unfold installCreated at h
  split at h <;> try contradiction
  next pc hpc =>
  split at h <;> try contradiction
  next hset =>
  cases h
  refine ⟨_, _, .installCreated value now hpc (by simpa using hset), fun i ↦ ?_, rfl⟩
  simp only [closes, List.map_append, List.count_append]
  omega

theorem affects_failCreate {c : ℕ} {err : E} (h : s.failCreate c err = some t) : Affects s t := by
  unfold failCreate at h
  split at h <;> try contradiction
  next pc hpc =>
  split at h <;> try contradiction
  next hset =>
  cases h
  exact ⟨[], [], .failCreate err hpc (by simpa using hset), fun _ ↦ rfl, rfl⟩

theorem affects_remove (key : String) : Affects s (s.remove key) := by
  refine ⟨_, _, .remove key, fun i ↦ ?_, rfl⟩
  simp only [closes, remove, List.count_append]
  omega

/-- Making a decided Closer call moves it from one half of the count to the other. -/
theorem closes_run {t : Task × ℕ} (h : t ∈ s.closing) (i : ℕ) :
    ((s.closing.erase t).map Prod.snd).count i + (t.2 :: s.closeLog).count i = s.closes i := by
  have hperm := ((List.perm_cons_erase h).map Prod.snd).count_eq i
  rw [List.map_cons, List.count_cons] at hperm
  rw [closes, hperm, List.count_cons]
  omega

theorem affects_runCloser {task : Task × ℕ} {err : Option E} (h : s.runCloser task err = some t) :
    Affects s t := by
  unfold runCloser at h
  split at h <;> try contradiction
  next hmem =>
  have hrun := closes_run hmem
  split at h
  · cases h
    exact ⟨[], [], .quiet _ _, hrun, rfl⟩
  · cases h
    exact ⟨[], [], .quiet _ _, hrun, rfl⟩
  · cases h
    exact affects_of_eq rfl rfl hrun rfl
  · cases h
    exact affects_of_eq rfl rfl hrun rfl
  · split at h <;> try contradiction
    split at h <;> cases h <;> exact affects_of_eq rfl rfl hrun rfl
  · split at h <;> try contradiction
    cases h
    exact ⟨[], [], .quiet _ _, hrun, rfl⟩

theorem affects_startCleanup (interval : ℤ) : Affects s (s.startCleanup interval) := by
  unfold startCleanup
  split
  · exact affects_of_eq rfl rfl (fun _ ↦ rfl) rfl
  split <;> exact affects_of_eq rfl rfl (fun _ ↦ rfl) rfl

theorem affects_stopCleanup : Affects s s.stopCleanup := by
  unfold stopCleanup
  split <;> exact affects_of_eq rfl rfl (fun _ ↦ rfl) rfl

theorem affects_tick {l : ℕ} {now : ℤ} {order : List String} (h : s.tick l now order = some t) :
    Affects s t := by
  unfold tick at h
  split at h <;> try contradiction
  split at h <;> try contradiction
  cases h
  refine ⟨_, [], .cleanupIdle now order, fun i ↦ ?_, rfl⟩
  simp only [closes, List.map_append, List.map_map, List.count_append, Function.comp_def,
    List.map_id']
  omega

theorem affects_note {l : ℕ} (h : s.note l = some t) : Affects s t := by
  unfold note at h
  split at h <;> try contradiction
  cases h
  exact ⟨[], [], .quiet _ _, fun _ ↦ rfl, rfl⟩

theorem affects_endPass {l : ℕ} (h : s.endPass l = some t) : Affects s t := by
  unfold endPass at h
  split at h <;> try contradiction
  split at h <;> try contradiction
  cases h
  exact affects_of_eq rfl rfl (fun _ ↦ rfl) rfl

theorem affects_exitLoop {l : ℕ} (h : s.exitLoop l = some t) : Affects s t := by
  unfold exitLoop at h
  split at h <;> try contradiction
  cases h
  exact affects_of_eq rfl rfl (fun _ ↦ rfl) rfl

theorem affects_closeFlag (h : s.closeFlag = some t) : Affects s t := by
  unfold closeFlag at h
  split at h <;> try contradiction
  cases h
  exact ⟨[], [], .closeFlag, fun _ ↦ rfl, rfl⟩

theorem affects_closeStop (h : s.closeStop = some t) : Affects s t := by
  unfold closeStop at h
  split at h <;> try contradiction
  cases h
  unfold stopCleanup
  split <;> exact affects_of_eq rfl rfl (fun _ ↦ rfl) rfl

theorem affects_closeDrain {order : List String} (h : s.closeDrain order = some t) :
    Affects s t := by
  unfold closeDrain at h
  split at h <;> try contradiction
  split at h <;> try contradiction
  cases h
  refine ⟨_, [], .drain order, fun i ↦ ?_, rfl⟩
  simp only [closes, List.map_append, List.map_map, List.count_append, Function.comp_def,
    List.map_id']
  omega

theorem affects_closeReturn (h : s.closeReturn = some t) : Affects s t := by
  unfold closeReturn at h
  split at h <;> try contradiction
  split at h <;> try contradiction
  cases h
  exact affects_of_eq rfl rfl (fun _ ↦ rfl) rfl

/-- **The inversion.** Every step has one of the effects. -/
theorem step_effect {l : Label V E} (h : s.step l = some t) : Affects s t := by
  cases l with
  | getOrCreate key now =>
    cases h
    exact ⟨[], _, .getOrCreate key now, fun _ ↦ rfl, rfl⟩
  | giveUp k => exact affects_giveUp h
  | await k => exact affects_await h
  | claimSeed k => exact affects_claimSeed h
  | release k => exact affects_release h
  | installCreated c value now => exact affects_installCreated h
  | failCreate c err => exact affects_failCreate h
  | remove key => exact Option.some_inj.1 h ▸ affects_remove key
  | runCloser task err => exact affects_runCloser h
  | startCleanup interval => exact Option.some_inj.1 h ▸ affects_startCleanup interval
  | stopCleanup => exact Option.some_inj.1 h ▸ affects_stopCleanup
  | tick l now order => exact affects_tick h
  | note l => exact affects_note h
  | endPass l => exact affects_endPass h
  | exitLoop l => exact affects_exitLoop h
  | closeFlag => exact affects_closeFlag h
  | closeStop => exact affects_closeStop h
  | closeDrain order => exact affects_closeDrain h
  | closeReturn => exact affects_closeReturn h

end State

end ResourcePool
