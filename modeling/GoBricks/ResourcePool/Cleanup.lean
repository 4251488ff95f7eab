import GoBricks.Lib.ListUpdate
import GoBricks.ResourcePool.System

/-!
# The cleanup loops and Close

`Close` promises to return when no cleanup loop can still be running a Closer, with every failure
those Closers had. It joins one loop to keep that promise, the one whose `done` channel it finds in
`cleanupDone`. But `StopCleanup` clears `cleanupStop` before the loop has exited, so a
`StartCleanup` may start the next loop, and overwrite `cleanupDone`,
**while the stopped loop is still inside a slow Closer**. From then on nobody that arrives later can
join the older loop.

`close_returns_before_stopped_loop` is such a run. `close_joins_cleanup` is what does hold: if at
the moment `Close` looks for a loop to join every other loop has exited, then `Close` keeps its
promise.

The invariant: only a loop inside a pass has Closer calls outstanding (`running`); a failure is
never lost between the Closer, the loop's hands, the pool's record and the result of `Close`
(`recorded`), and the record is not written again once `Close` has taken it (`taken`); a called
`Close` has set `closed`, so no loop starts any more (`flagged`); and from its join on, `Close`
waits for at most one loop (`quiesced`).
-/

namespace ResourcePool

open List Option State

variable {V E : Type*}

/-- Inside a pass of `cleanupIdle`. -/
def LoopPhase.inPass : LoopPhase E → Bool
  | .pass | .noting _ => true
  | .idle | .exited => false

/-- `Close` was called. -/
def ClosePhase.called : ClosePhase E → Bool
  | .notCalled => false
  | _ => true

/-- The failures `Close` has collected so far. -/
def ClosePhase.errs : ClosePhase E → List E
  | .closing errs | .returned errs => errs
  | _ => []

/-- `Close` has taken the recorded failures. -/
def ClosePhase.drained : ClosePhase E → Bool
  | .closing _ | .returned _ => true
  | _ => false

/-! ### What the callers leave alone -/

namespace Pool

variable {p q r : Pool V E}

/-- The recorded cleanup failures and the closed flag stay. -/
structure Keeps (p q : Pool V E) : Prop where
  cleanupErrs : q.cleanupErrs = p.cleanupErrs
  closed : q.closed = p.closed

theorem Keeps.trans (h : Keeps p q) (h' : Keeps q r) : Keeps p r :=
  ⟨h'.cleanupErrs.trans h.cleanupErrs, h'.closed.trans h.closed⟩

theorem keeps_removeEntryLocked (key : String) : Keeps p (p.removeEntryLocked key).1 := by
  unfold removeEntryLocked
  split <;> exact ⟨rfl, rfl⟩

/-- An eviction notes no error. -/
theorem keeps_evictIfNeeded : Keeps p p.evictIfNeeded.1 := by
  have h (key : String) := keeps_removeEntryLocked (p := p) key
  unfold evictIfNeeded
  repeat' split
  all_goals first | exact ⟨rfl, rfl⟩ | exact ⟨(h _).cleanupErrs, (h _).closed⟩

theorem keeps_leaseOrJoin (key : String) (now : ℤ) : Keeps p (p.leaseOrJoin key now).1 := by
  unfold leaseOrJoin
  repeat' split
  all_goals exact ⟨rfl, rfl⟩

theorem keeps_claimSeed (i : ℕ) : Keeps p (p.claimSeed i).1 := by
  unfold claimSeed
  repeat' split
  all_goals exact ⟨rfl, rfl⟩

theorem keeps_releaseEntry (i : ℕ) : Keeps p (p.releaseEntry i).1 := by
  unfold releaseEntry
  repeat' split
  all_goals exact ⟨rfl, rfl⟩

theorem keeps_installCreated (c : ℕ) (pc : PendingCreate E) (value : V) (now : ℤ) :
    Keeps p (p.installCreated c pc value now).1 := by
  unfold installCreated
  simp only
  split
  · exact ⟨rfl, rfl⟩
  split
  · split <;> exact ⟨rfl, rfl⟩
  · have h := keeps_evictIfNeeded (p := (p.endCreateLocked pc.key c).allocate c pc value now
      (decide (p.generationOf pc.key ≠ pc.gen)))
    exact ⟨h.cleanupErrs, h.closed⟩

theorem keeps_remove (key : String) : Keeps p (p.remove key).1 := by
  have h := keeps_removeEntryLocked (p := p) key
  unfold remove
  simp only
  repeat' split
  all_goals exact ⟨h.cleanupErrs, h.closed⟩

theorem keeps_cleanupKey (now : ℤ) (acc : Pool V E × List ℕ) (key : String) :
    Keeps acc.1 (cleanupKey now acc key).1 := by
  have h := keeps_removeEntryLocked (p := acc.1) key
  unfold cleanupKey
  repeat' split
  all_goals first | exact ⟨rfl, rfl⟩ | exact ⟨h.cleanupErrs, h.closed⟩

theorem keeps_cleanupIdle (now : ℤ) (order : List String) :
    Keeps p (p.cleanupIdle now order).1 := by
  unfold cleanupIdle
  split
  · exact ⟨rfl, rfl⟩
  · exact List.foldlRecOn order (cleanupKey now) (motive := fun acc ↦ Keeps p acc.1) (b := (p, []))
      ⟨rfl, rfl⟩ fun acc h key _ ↦ h.trans (keeps_cleanupKey now acc key)

/-- But for the recorded failures, which it takes, a drain keeps both. -/
theorem keeps_drain (order : List String) :
    Keeps { p with cleanupErrs := [] } (p.drain order).1 := by
  set q := { p with cleanupErrs := [] }
  refine List.foldlRecOn order drainKey (motive := fun acc ↦ Keeps q acc.1) (b := (q, []))
    ⟨rfl, rfl⟩ fun acc h key _ ↦ h.trans ?_
  have hremove := keeps_removeEntryLocked (p := acc.1) key
  unfold drainKey
  split
  · exact ⟨rfl, rfl⟩
  · split <;> exact ⟨hremove.cleanupErrs, hremove.closed⟩

/-- The closes that a release or an install leaves behind are no cleanup loop's. -/
theorem not_loop_of_releaseEntry {i j l : ℕ} : (Task.loop l, j) ∉ (p.releaseEntry i).2 := by
  unfold releaseEntry
  repeat' split
  all_goals simp

/-- A create leaves no close to a loop. -/
theorem not_loop_of_installCreated {c j l : ℕ} {pc : PendingCreate E} {value : V} {now : ℤ} :
    (Task.loop l, j) ∉ (p.installCreated c pc value now).2 := by
  unfold installCreated evictIfNeeded
  simp only
  repeat' split
  all_goals simp

end Pool

/-- A step in which neither a cleanup loop nor `Close` takes part. -/
structure Aside (s t : State V E) : Prop where
  pool : s.pool.Keeps t.pool
  loops : t.loops = s.loops
  cleanupStop : t.cleanupStop = s.cleanupStop
  cleanupDone : t.cleanupDone = s.cleanupDone
  closePhase : t.closePhase = s.closePhase
  passErrs : t.passErrs = s.passErrs
  closing : ∀ {l i : ℕ}, (Task.loop l, i) ∈ t.closing → (Task.loop l, i) ∈ s.closing

namespace State

variable {s t : State V E}

theorem aside_getOrCreate (key : String) (now : ℤ) : Aside s (s.getOrCreate key now) :=
  ⟨Pool.keeps_leaseOrJoin key now, rfl, rfl, rfl, rfl, rfl, id⟩

theorem aside_giveUp {k : ℕ} (h : s.giveUp k = some t) : Aside s t := by
  unfold giveUp at h
  split at h <;> try contradiction
  split at h <;> try contradiction
  split at h <;> try contradiction
  cases h
  exact ⟨⟨rfl, rfl⟩, rfl, rfl, rfl, rfl, rfl, id⟩

theorem aside_await {k : ℕ} (h : s.await k = some t) : Aside s t := by
  unfold await at h
  split at h <;> try contradiction
  split at h <;> try contradiction
  split at h <;> try contradiction
  split at h <;> try contradiction
  all_goals
    cases h
    exact ⟨⟨rfl, rfl⟩, rfl, rfl, rfl, rfl, rfl, id⟩

theorem aside_claimSeed {k : ℕ} (h : s.claimSeed k = some t) : Aside s t := by
  unfold claimSeed at h
  split at h <;> try contradiction
  cases h
  exact ⟨Pool.keeps_claimSeed _, rfl, rfl, rfl, rfl, rfl, id⟩

theorem aside_release {k : ℕ} (h : s.release k = some t) : Aside s t := by
  unfold release at h
  split at h <;> try contradiction
  cases h
  refine ⟨Pool.keeps_releaseEntry _, rfl, rfl, rfl, rfl, rfl, fun hmem ↦ ?_⟩
  exact (mem_append.1 hmem).resolve_right Pool.not_loop_of_releaseEntry

theorem aside_installCreated {c : ℕ} {value : V} {now : ℤ}
    (h : s.installCreated c value now = some t) : Aside s t := by
  unfold installCreated at h
  split at h <;> try contradiction
  split at h <;> try contradiction
  cases h
  refine ⟨Pool.keeps_installCreated _ _ _ _, rfl, rfl, rfl, rfl, rfl, fun hmem ↦ ?_⟩
  exact (mem_append.1 hmem).resolve_right Pool.not_loop_of_installCreated

theorem aside_failCreate {c : ℕ} {err : E} (h : s.failCreate c err = some t) : Aside s t := by
  unfold failCreate at h
  split at h <;> try contradiction
  split at h <;> try contradiction
  cases h
  exact ⟨⟨rfl, rfl⟩, rfl, rfl, rfl, rfl, rfl, id⟩

theorem aside_remove (key : String) : Aside s (s.remove key) :=
  ⟨Pool.keeps_remove key, rfl, rfl, rfl, rfl, rfl, id⟩

end State

/-! ### The invariant -/

/-- From its join on, `Close` waits for at most one loop, and from its drain on for none. -/
def Quiesced (s : State V E) : Prop :=
  match s.closePhase with
  | .notCalled | .flagged => True
  | .joining done => ∀ l < s.loops.length, s.exited l = true ∨ done = some l
  | .closing _ | .returned _ => ∀ l < s.loops.length, s.exited l = true

/-- The bookkeeping between the loops and `Close`. -/
structure Orderly (s : State V E) : Prop where
  flagged : s.closePhase.called = true → s.pool.closed = true
  running : ∀ {l i : ℕ}, (Task.loop l, i) ∈ s.closing →
    ∃ lp, s.loops[l]? = some lp ∧ lp.phase.inPass = true
  recorded : ∀ {err : E}, err ∈ s.passErrs → err ∈ s.pool.cleanupErrs ∨
    (∃ (l : ℕ) (stop : Bool), s.loops[l]? = some ⟨stop, .noting err⟩) ∨ err ∈ s.closePhase.errs
  taken : s.closePhase.drained = true → s.pool.cleanupErrs = []
  quiesced : Quiesced s

variable {s t : State V E}

/-- After the drain every loop has exited. -/
theorem Quiesced.exited (hs : Quiesced s) (hd : s.closePhase.drained = true) {l : ℕ}
    (hl : l < s.loops.length) : s.exited l = true := by
  unfold Quiesced at hs
  generalize s.closePhase = ph at hs hd
  cases ph with
  | notCalled | flagged | joining done => cases hd
  | closing errs | returned errs => exact hs l hl

/-- Loops that exited have exited. -/
theorem Quiesced.mono (hs : Quiesced s) (hphase : t.closePhase = s.closePhase)
    (hlen : t.loops.length = s.loops.length) (hexit : ∀ l, s.exited l = true → t.exited l = true) :
    Quiesced t := by
  unfold Quiesced at hs ⊢
  rw [hphase, hlen]
  generalize s.closePhase = ph at hs
  cases ph with
  | notCalled | flagged => trivial
  | joining done => exact fun l hl ↦ (hs l hl).imp_left (hexit l)
  | closing errs | returned errs => exact fun l hl ↦ hexit l (hs l hl)

theorem State.exited_eq_true {l : ℕ} :
    s.exited l = true ↔ ∃ lp, s.loops[l]? = some lp ∧ lp.phase.isExited = true := by
  rw [State.exited]
  cases s.loops[l]? <;> simp

theorem State.not_exited {l : ℕ} {stop : Bool} {ph : LoopPhase E}
    (hl : s.loops[l]? = some ⟨stop, ph⟩) (hex : ph.isExited = false) : s.exited l ≠ true := by
  rw [State.exited, hl]
  simpa using hex

/-- Steps that touch neither loops nor `Close`. -/
theorem Orderly.aside (hs : Orderly s) (h : Aside s t) : Orderly t where
  flagged hc := by
    rw [h.closePhase] at hc
    rw [h.pool.closed]
    exact hs.flagged hc
  running hmem := by
    rw [h.loops]
    exact hs.running (h.closing hmem)
  recorded herr := by
    rw [h.passErrs] at herr
    rw [h.pool.cleanupErrs, h.loops, h.closePhase]
    exact hs.recorded herr
  taken hd := by
    rw [h.closePhase] at hd
    rw [h.pool.cleanupErrs]
    exact hs.taken hd
  quiesced := by
    refine hs.quiesced.mono h.closePhase (by rw [h.loops]) fun l hl ↦ ?_
    rwa [State.exited, h.loops]

/-- A loop that has not exited changes phase. The failure it held is on record afterwards, or the
one it then holds is new. -/
theorem Orderly.move (hs : Orderly s) {l : ℕ} {stop : Bool} {ph ph' : LoopPhase E}
    (hl : s.loops[l]? = some ⟨stop, ph⟩) (hex : ph.isExited = false)
    (hloops : t.loops = s.loops.set l ⟨stop, ph'⟩) (hphase : t.closePhase = s.closePhase)
    (hclosed : t.pool.closed = s.pool.closed)
    (hother : ∀ {j i : ℕ}, (Task.loop j, i) ∈ t.closing → j ≠ l → (Task.loop j, i) ∈ s.closing)
    (hself : ∀ {i : ℕ}, (Task.loop l, i) ∈ t.closing → ph'.inPass = true)
    (hmono : ∀ err ∈ s.pool.cleanupErrs, err ∈ t.pool.cleanupErrs)
    (hrec : ∀ err ∈ t.passErrs, (err ∈ s.passErrs ∧ ph ≠ .noting err) ∨
      err ∈ t.pool.cleanupErrs ∨ ph' = .noting err) : Orderly t where
  flagged hc := by
    rw [hphase] at hc
    rw [hclosed]
    exact hs.flagged hc
  running {j i} hmem := by
    rw [hloops]
    by_cases hj : j = l
    · subst hj
      exact ⟨_, (List.getElem?_set_eq_some hl).2 (Or.inl ⟨rfl, rfl⟩), hself hmem⟩
    · obtain ⟨lp, hlp, hpass⟩ := hs.running (hother hmem hj)
      exact ⟨lp, (List.getElem?_set_eq_some hl).2 (Or.inr ⟨hj, hlp⟩), hpass⟩
  recorded {err} herr := by
    rw [hphase, hloops]
    rcases hrec err herr with ⟨hold, hne⟩ | hnew | rfl
    · refine (hs.recorded hold).imp (hmono err) (.imp_left fun ⟨j, st, hj⟩ ↦ ?_)
      have hjl : j ≠ l := by
        rintro rfl
        rw [hl, some_inj, Loop.mk.injEq] at hj
        exact hne hj.2
      exact ⟨j, st, (List.getElem?_set_eq_some hl).2 (.inr ⟨hjl, hj⟩)⟩
    · exact .inl hnew
    · exact .inr (.inl ⟨l, stop, (List.getElem?_set_eq_some hl).2 (.inl ⟨rfl, rfl⟩)⟩)
  taken hd := by
    rw [hphase] at hd
    exact absurd (hs.quiesced.exited hd (List.getElem?_eq_some_iff.1 hl).1)
      (not_exited hl hex)
  quiesced := by
    refine hs.quiesced.mono hphase (by rw [hloops, length_set]) fun j hj ↦ ?_
    obtain ⟨lp, hlp, hlpex⟩ := exited_eq_true.1 hj
    have hjl : j ≠ l := fun h ↦ not_exited hl hex (h ▸ hj)
    refine exited_eq_true.2 ⟨lp, ?_, hlpex⟩
    rw [hloops]
    exact (List.getElem?_set_eq_some hl).2 (.inr ⟨hjl, hlp⟩)

/-! ### The steps of the loops -/

/-- A close runs. -/
theorem Orderly.runCloser (hs : Orderly s) {task : Task × ℕ} {err : Option E}
    (h : s.runCloser task err = some t) : Orderly t := by
  have herase : ∀ {x : Task × ℕ}, x ∈ s.closing.erase task → x ∈ s.closing := mem_of_mem_erase
  unfold State.runCloser at h
  obtain ⟨task, i⟩ := task
  split at h <;> try contradiction
  cases task with
  | release | birth | orphan | evicted =>
    cases h
    exact hs.aside ⟨⟨rfl, rfl⟩, rfl, rfl, rfl, rfl, rfl, herase⟩
  | loop l =>
    dsimp only at h
    split at h <;> try contradiction
    next stop hl =>
    split at h
    · cases h
      exact hs.aside ⟨⟨rfl, rfl⟩, rfl, rfl, rfl, rfl, rfl, herase⟩
    · next err =>
      cases h
      refine hs.move hl rfl rfl rfl rfl (fun hm _ ↦ herase hm) (fun _ ↦ rfl) (fun _ hm ↦ hm) ?_
      intro e he
      rcases mem_cons.1 he with rfl | he
      · exact Or.inr (Or.inr rfl)
      · exact Or.inl ⟨he, by simp⟩
  | close =>
    dsimp only at h
    split at h <;> try contradiction
    next errs hphase =>
    cases h
    refine ⟨fun _ ↦ hs.flagged (by rw [hphase]; rfl), fun hm ↦ hs.running (herase hm), fun he ↦ ?_,
      fun _ ↦ hs.taken (by rw [hphase]; rfl), ?_⟩
    · refine (hs.recorded he).imp_right (.imp_right fun hm ↦ ?_)
      rw [hphase] at hm
      exact mem_append_left _ hm
    · have hq := hs.quiesced
      unfold Quiesced at hq ⊢
      rw [hphase] at hq
      exact hq

theorem Orderly.startCleanup (hs : Orderly s) (interval : ℤ) :
    Orderly (s.startCleanup interval) := by
  unfold State.startCleanup
  split
  · exact hs
  next hguard =>
  split
  · exact hs
  have hnot : s.closePhase.called = false := by
    by_contra hcalled
    exact hguard (Or.inr (Or.inr (hs.flagged (by simpa using hcalled))))
  refine ⟨hs.flagged, fun hm ↦ ?_, fun he ↦ ?_, hs.taken, ?_⟩
  · obtain ⟨lp, hlp, hpass⟩ := hs.running hm
    exact ⟨lp, List.getElem?_concat_eq_some.2 (Or.inl hlp), hpass⟩
  · exact (hs.recorded he).imp_right (.imp_left fun ⟨l, stop, hl⟩ ↦
      ⟨l, stop, List.getElem?_concat_eq_some.2 (.inl hl)⟩)
  · generalize s.closePhase = ph at hnot
    cases ph with
    | notCalled => trivial
    | _ => cases hnot

/-- Closing a `stop` channel changes no phase. -/
theorem getElem?_stop {loops : List (Loop E)} {l j : ℕ} {lp : Loop E}
    (hlp : loops[j]? = some lp) :
    ∃ stop, (loops.modify l fun lp ↦ { lp with stop := true })[j]? = some ⟨stop, lp.phase⟩ := by
  rw [List.getElem?_modify, hlp]
  split
  · exact ⟨true, rfl⟩
  · exact ⟨lp.stop, rfl⟩

theorem Orderly.stopCleanup (hs : Orderly s) : Orderly s.stopCleanup := by
  unfold State.stopCleanup
  split
  · refine ⟨hs.flagged, fun hm ↦ ?_, fun he ↦ ?_, hs.taken,
      hs.quiesced.mono rfl (length_modify _ _ _) ?_⟩
    · obtain ⟨lp, hlp, hpass⟩ := hs.running hm
      obtain ⟨stop, hstop⟩ := getElem?_stop hlp
      exact ⟨_, hstop, hpass⟩
    · exact (hs.recorded he).imp_right (.imp_left fun ⟨l, _, hl⟩ ↦ ⟨l, getElem?_stop hl⟩)
    · intro l hl
      obtain ⟨lp, hlp, hex⟩ := exited_eq_true.1 hl
      obtain ⟨stop, hstop⟩ := getElem?_stop hlp
      exact exited_eq_true.2 ⟨_, hstop, hex⟩
  · exact hs

/-- A pass starts before the stop only. -/
theorem Orderly.tick (hs : Orderly s) {l : ℕ} {now : ℤ} {order : List String}
    (h : s.tick l now order = some t) : Orderly t := by
  unfold State.tick at h
  split at h <;> try contradiction
  next stop hl =>
  split at h <;> try contradiction
  cases h
  have hkeeps := Pool.keeps_cleanupIdle (p := s.pool) now order
  refine hs.move hl rfl rfl rfl hkeeps.closed (fun hm hne ↦ ?_) (fun _ ↦ rfl) ?_ ?_
  · rcases mem_append.1 hm with hm | hm
    · exact hm
    · obtain ⟨i, -, heq⟩ := mem_map.1 hm
      exact absurd (Task.loop.inj (Prod.mk.inj heq).1).symm hne
  · intro err hm
    rw [hkeeps.cleanupErrs]
    exact hm
  · exact fun err he ↦ Or.inl ⟨he, by simp⟩

theorem Orderly.note (hs : Orderly s) {l : ℕ} (h : s.note l = some t) : Orderly t := by
  unfold State.note at h
  split at h <;> try contradiction
  next stop err hl =>
  cases h
  refine hs.move hl rfl rfl rfl rfl (fun hm _ ↦ hm) (fun _ ↦ rfl)
    (fun e he ↦ mem_append_left _ he) fun e he ↦ ?_
  by_cases heq : LoopPhase.noting err = .noting e
  · cases heq
    exact Or.inr (Or.inl (mem_append_right _ (mem_singleton.2 rfl)))
  · exact Or.inl ⟨he, heq⟩

theorem Orderly.endPass (hs : Orderly s) {l : ℕ} (h : s.endPass l = some t) : Orderly t := by
  unfold State.endPass at h
  split at h <;> try contradiction
  next stop hl =>
  split at h <;> try contradiction
  next hnone =>
  cases h
  exact hs.move hl rfl rfl rfl rfl (fun hm _ ↦ hm) (fun hm ↦ absurd rfl (hnone _ hm))
    (fun _ he ↦ he) fun e he ↦ Or.inl ⟨he, by simp⟩

/-- A loop exits after its last pass. -/
theorem Orderly.exitLoop (hs : Orderly s) {l : ℕ} (h : s.exitLoop l = some t) : Orderly t := by
  unfold State.exitLoop at h
  split at h <;> try contradiction
  next hl =>
  cases h
  refine hs.move hl rfl rfl rfl rfl (fun hm _ ↦ hm) (fun hm ↦ ?_) (fun _ he ↦ he)
    fun e he ↦ Or.inl ⟨he, by simp⟩
  -- an idle loop has no call outstanding
  obtain ⟨lp, hlp, hpass⟩ := hs.running hm
  rw [hl, some_inj] at hlp
  rw [← hlp] at hpass
  exact absurd hpass (by simp [LoopPhase.inPass])

/-! ### The steps of Close -/

theorem Orderly.closeFlag (hs : Orderly s) (h : s.closeFlag = some t) : Orderly t := by
  unfold State.closeFlag at h
  split at h <;> try contradiction
  next hphase =>
  cases h
  refine ⟨fun _ ↦ rfl, hs.running, fun he ↦ ?_, by simp [ClosePhase.drained], trivial⟩
  refine (hs.recorded he).imp_right (.imp_right fun hm ↦ ?_)
  rw [hphase] at hm
  cases hm

/-- The step in which `Close` looks for a loop to join. -/
def Label.isCloseStop : Label V E → Bool
  | .closeStop => true
  | _ => false

/-- **The condition.** When `Close` looks for a loop to join, every other loop has exited. -/
def JoinsEveryLoop (s : State V E) (l : Label V E) : Prop :=
  l.isCloseStop = true → ∀ i < s.loops.length, s.exited i = true ∨ s.cleanupDone = some i

/-- The loops that still run are listed in the state. -/
instance (s : State V E) (l : Label V E) : Decidable (JoinsEveryLoop s l) :=
  inferInstanceAs (Decidable (_ → _))

/-- `Close` joins the loops, if the one it looks for is the only one. -/
theorem Orderly.closeStop (hs : Orderly s) (hjoin : JoinsEveryLoop s .closeStop)
    (h : s.closeStop = some t) : Orderly t := by
  unfold State.closeStop at h
  split at h <;> try contradiction
  next hphase =>
  cases h
  have hstop := hs.stopCleanup
  have hpool : s.stopCleanup.pool = s.pool := by unfold State.stopCleanup; split <;> rfl
  have hsame : s.stopCleanup.closePhase = s.closePhase := by
    unfold State.stopCleanup; split <;> rfl
  refine ⟨fun _ ↦ ?_, hstop.running, fun he ↦ ?_, by simp [ClosePhase.drained], fun l hl ↦ ?_⟩
  · rw [hpool]
    exact hs.flagged (by rw [hphase]; rfl)
  · refine (hstop.recorded he).imp_right (.imp_right fun hm ↦ ?_)
    rw [hsame, hphase] at hm
    cases hm
  · have hlen : s.stopCleanup.loops.length = s.loops.length := by
      unfold State.stopCleanup
      split
      · exact length_modify _ _ _
      · rfl
    have hl' : l < s.loops.length := hlen ▸ hl
    refine (hjoin rfl l hl').imp_left fun hex ↦ ?_
    unfold State.stopCleanup
    split
    · obtain ⟨lp, hlp, hlpex⟩ := exited_eq_true.1 hex
      obtain ⟨stop, hstop⟩ := getElem?_stop hlp
      exact exited_eq_true.2 ⟨_, hstop, hlpex⟩
    · exact hex

/-- The drain is after the loops. -/
theorem Orderly.closeDrain (hs : Orderly s) {order : List String}
    (h : s.closeDrain order = some t) : Orderly t := by
  unfold State.closeDrain at h
  split at h <;> try contradiction
  next done hphase =>
  split at h <;> try contradiction
  next hguard =>
  cases h
  have hq := hs.quiesced
  unfold Quiesced at hq
  rw [hphase] at hq
  have hall : ∀ l < s.loops.length, s.exited l = true := by
    intro l hl
    rcases hq l hl with hex | hdone
    · exact hex
    · exact hguard.1 l hdone
  refine ⟨fun _ ↦ ?_, fun {l i} hm ↦ ?_, fun {err} he ↦ ?_,
    fun _ ↦ (Pool.keeps_drain order).cleanupErrs, hall⟩
  · exact (Pool.keeps_drain order).closed.trans (hs.flagged (by rw [hphase]; rfl))
  · rcases mem_append.1 hm with hm | hm
    · exact hs.running hm
    · obtain ⟨j, -, heq⟩ := mem_map.1 hm
      exact absurd (Prod.mk.inj heq).1 (by simp)
  · rcases hs.recorded he with hm | hl | hm
    · exact .inr (.inr hm)
    · exact .inr (.inl hl)
    · rw [hphase] at hm
      cases hm

theorem Orderly.closeReturn (hs : Orderly s) (h : s.closeReturn = some t) : Orderly t := by
  unfold State.closeReturn at h
  split at h <;> try contradiction
  next errs hphase =>
  split at h <;> try contradiction
  cases h
  refine ⟨fun _ ↦ hs.flagged (by rw [hphase]; rfl), hs.running, fun he ↦ ?_,
    fun _ ↦ hs.taken (by rw [hphase]; rfl), ?_⟩
  · have hrec := hs.recorded he
    rwa [hphase] at hrec
  · have hq := hs.quiesced
    unfold Quiesced at hq ⊢
    rw [hphase] at hq
    exact hq

/-! ### What Close guarantees -/

variable {maxSize idleTTL : ℤ}

/-- Every step with the condition keeps the invariant. -/
theorem Orderly.step (hs : Orderly s) {l : Label V E} (hjoin : JoinsEveryLoop s l)
    (h : s.step l = some t) : Orderly t := by
  cases l with
  | getOrCreate key now => exact hs.aside (some_inj.1 h ▸ aside_getOrCreate key now)
  | giveUp k => exact hs.aside (aside_giveUp h)
  | await k => exact hs.aside (aside_await h)
  | claimSeed k => exact hs.aside (aside_claimSeed h)
  | release k => exact hs.aside (aside_release h)
  | installCreated c value now => exact hs.aside (aside_installCreated h)
  | failCreate c err => exact hs.aside (aside_failCreate h)
  | remove key => exact hs.aside (some_inj.1 h ▸ aside_remove key)
  | runCloser task err => exact hs.runCloser h
  | startCleanup interval => exact some_inj.1 h ▸ hs.startCleanup interval
  | stopCleanup => exact some_inj.1 h ▸ hs.stopCleanup
  | tick l now order => exact hs.tick h
  | note l => exact hs.note h
  | endPass l => exact hs.endPass h
  | exitLoop l => exact hs.exitLoop h
  | closeFlag => exact hs.closeFlag h
  | closeStop => exact hs.closeStop hjoin h
  | closeDrain order => exact hs.closeDrain h
  | closeReturn => exact hs.closeReturn h

/-- The invariant holds along every run with the condition. -/
theorem reach_orderly (hs : (system V E maxSize idleTTL).Reach JoinsEveryLoop s) : Orderly s := by
  refine StepSystem.Reach.invariant ?_ (fun s l t _ hc hp ht ↦ hp.step hc ht) hs
  rintro s rfl
  exact ⟨fun h ↦ absurd h (by simp [State.start, ClosePhase.called]),
    fun h ↦ absurd h (by simp [State.start]), fun h ↦ absurd h (by simp [State.start]), fun _ ↦ rfl,
    trivial⟩

/-- `Close` returns once, for good. -/
theorem State.returned_step {errs : List E} (hret : s.closePhase = .returned errs) {l : Label V E}
    (h : s.step l = some t) : t.closePhase = .returned errs := by
  rw [← hret]
  cases l with
  | getOrCreate key now => exact some_inj.1 h ▸ (aside_getOrCreate key now).closePhase
  | giveUp k => exact (aside_giveUp h).closePhase
  | await k => exact (aside_await h).closePhase
  | claimSeed k => exact (aside_claimSeed h).closePhase
  | release k => exact (aside_release h).closePhase
  | installCreated c value now => exact (aside_installCreated h).closePhase
  | failCreate c err => exact (aside_failCreate h).closePhase
  | remove key => exact some_inj.1 h ▸ (aside_remove key).closePhase
  | runCloser task err =>
    simp only [step, runCloser] at h
    split at h <;> try contradiction
    obtain ⟨task, i⟩ := task
    cases task with
    | release | birth | orphan | evicted =>
      cases h
      rfl
    | loop l =>
      dsimp only at h
      split at h <;> try contradiction
      split at h <;> cases h <;> rfl
    | close =>
      -- The closes of the drain are over by then.
      rw [hret] at h
      contradiction
  | startCleanup interval =>
    cases h
    unfold startCleanup
    split
    · rfl
    split <;> rfl
  | stopCleanup =>
    cases h
    unfold stopCleanup
    split <;> rfl
  | tick l now order =>
    simp only [step, tick] at h
    split at h <;> try contradiction
    split at h <;> try contradiction
    cases h
    rfl
  | note l =>
    simp only [step, note] at h
    split at h <;> try contradiction
    cases h
    rfl
  | endPass l =>
    simp only [step, endPass] at h
    split at h <;> try contradiction
    split at h <;> try contradiction
    cases h
    rfl
  | exitLoop l =>
    simp only [step, exitLoop] at h
    split at h <;> try contradiction
    cases h
    rfl
  | closeFlag => simp [step, closeFlag, hret] at h
  | closeStop => simp [step, closeStop, hret] at h
  | closeDrain order => simp [step, closeDrain, hret] at h
  | closeReturn => simp [step, closeReturn, hret] at h

/-- A stopped loop is still inside its pass, one of its Closers having failed, when `StartCleanup`
starts the next loop; `Close` joins only the new loop and returns no error, while the old loop has a
Closer call outstanding and the failure not recorded yet. -/
theorem close_returns_before_stopped_loop : ∃ s : State Unit String,
    (system Unit String 0 1).Reachable s ∧ s.closePhase.errs = [] ∧
    (∃ errs, s.closePhase = .returned errs) ∧ (.loop 0, 1) ∈ s.closing ∧
    s.passErrs = ["close failed"] := by
  have hrun : (system Unit String 0 1).run (.start 0 1) [.getOrCreate "a" 0, .giveUp 0,
      .installCreated 0 () 0, .getOrCreate "b" 0, .giveUp 1, .installCreated 1 () 0,
      .startCleanup 1, .tick 0 5 ["b", "a"], .stopCleanup,
      .runCloser (.loop 0, 0) (some "close failed"), .startCleanup 1, .closeFlag, .closeStop,
      .exitLoop 1, .closeDrain [], .closeReturn] = some _ := rfl
  exact ⟨_, StepSystem.reach_of_run (.init rfl) hrun, rfl, ⟨_, rfl⟩, by decide, rfl⟩

/-- **Close joins the cleanup.** In every run in which `Close`, when it looks for a loop to join,
finds every other loop exited: once it has returned, and in every state after that, no cleanup loop
is running a Closer or can still do so, a `StartCleanup` starts none, and every failure an
idle-cleanup pass produced is in the error it returned. -/
theorem close_joins_cleanup (hs : (system V E maxSize idleTTL).Reach JoinsEveryLoop s)
    {errs : List E} (hret : s.closePhase = .returned errs) :
    (∀ l i, (.loop l, i) ∉ s.closing) ∧ (∀ l < s.loops.length, s.exited l = true) ∧
    (∀ interval, (s.startCleanup interval).loops = s.loops) ∧ (∀ err ∈ s.passErrs, err ∈ errs) ∧
    ∀ l t, s.step l = some t → t.closePhase = .returned errs := by
  have ho := reach_orderly hs
  have hdrained : s.closePhase.drained = true := by rw [hret]; rfl
  have hexited : ∀ l < s.loops.length, s.exited l = true := fun l hl ↦ ho.quiesced.exited hdrained
    hl
  -- an exited loop is in no pass and holds no failure
  have hout : ∀ {l : ℕ} {lp : Loop E}, s.loops[l]? = some lp → lp.phase.isExited = true := by
    intro l lp hlp
    obtain ⟨lp', hlp', hex⟩ := exited_eq_true.1
      (hexited l (List.getElem?_eq_some_iff.1 hlp).1)
    cases hlp.symm.trans hlp'
    exact hex
  refine ⟨fun l i hm ↦ ?_, hexited, fun interval ↦ ?_, fun err he ↦ ?_,
    fun l t ht ↦ returned_step hret ht⟩
  · obtain ⟨lp, hlp, hpass⟩ := ho.running hm
    have hex := hout hlp
    obtain ⟨stop, ph⟩ := lp
    cases ph <;> simp_all [LoopPhase.inPass, LoopPhase.isExited]
  · have hclosed := ho.flagged (by rw [hret]; rfl)
    rw [State.startCleanup, if_pos (Or.inr (Or.inr hclosed))]
  · rcases ho.recorded he with hm | ⟨l, stop, hl⟩ | hm
    · rw [ho.taken hdrained] at hm
      exact absurd hm (by simp)
    · exact absurd (hout hl) (by simp [LoopPhase.isExited])
    · rw [hret] at hm
      exact hm

/-- One loop, whose pass fails to close an entry before `Close` is called. -/
theorem close_joins_cleanup_one_loop : ∃ s : State Unit String,
    (system Unit String 0 1).Reach JoinsEveryLoop s ∧ s.closePhase = .returned ["close failed"] ∧
    s.passErrs = ["close failed"] ∧ ∀ err ∈ s.passErrs, err ∈ ["close failed"] := by
  have hrun : ((system Unit String 0 1).restrict JoinsEveryLoop).run (.start 0 1)
      [.getOrCreate "a" 0, .giveUp 0, .installCreated 0 () 0, .startCleanup 1, .tick 0 5 ["a"],
      .closeFlag, .closeStop, .runCloser (.loop 0, 0) (some "close failed"), .note 0, .endPass 0,
      .exitLoop 0, .closeDrain [], .closeReturn] = some _ := rfl
  have hs : (system Unit String 0 1).Reach JoinsEveryLoop _ :=
    .of_restrict (StepSystem.reach_of_run (.init rfl) hrun)
  exact ⟨_, hs, rfl, rfl, (close_joins_cleanup hs rfl).2.2.2.1⟩

end ResourcePool
