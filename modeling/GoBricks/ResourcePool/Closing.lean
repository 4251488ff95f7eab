import GoBricks.ResourcePool.Leases

/-!
# No double close, no close under a borrower, no leak

The balanced books of `GoBricks.ResourcePool.Leases`, carried along every run, give the three
promises of the pool about a created value:

* its Closer runs at most once, `Remove` handing it back counted as a run;
* never while a caller holds a lease on it;
* and, once it is out of the map and nobody waits for it or holds it, exactly once.

The last one needs a link the books do not have: an open entry that nobody holds and that is not in
the map must have been **detached**, so that its final release, or whoever detached it, closed it.
`Anchored` is that link.
-/

namespace ResourcePool

open List Function Option State

variable {V E : Type*}

namespace Pool

variable {p q : Pool V E} {h : List Event}

/-- An entry that is not detached has a position in the list. -/
def Anchored (p : Pool V E) : Prop :=
  ∀ i e, p.heap i = some e → e.detached = false → e.element ≠ none

theorem Anchored.congr (hp : Anchored p) (hheap : q.heap = p.heap) : Anchored q := by
  intro i e he
  rw [hheap] at he
  exact hp i e he

/-- A sweep detaches what it removes from the list. -/
theorem Anchored.sweep (hp : Anchored p) {cl : List ℕ} (hs : Sweep p q cl) : Anchored q :=
  fun i e he hd ↦ hp i e (hs.heap_of_attached he hd) hd

theorem Anchored.updateEntry (hp : Anchored p) (i : ℕ) {f : Entry V → Entry V}
    (hf : ∀ e, (f e).element = e.element ∧ (f e).detached = e.detached) :
    Anchored (p.updateEntry i f) := by
  intro j e he hd
  rw [heap_updateEntry] at he
  split at he
  · obtain ⟨e₀, he₀, rfl⟩ := map_eq_some_iff.1 he
    rw [(hf e₀).1]
    exact hp j e₀ he₀ ((hf e₀).2.symm.trans hd)
  · exact hp j e he hd

/-- A lease moves its element in the list. -/
theorem Anchored.leaseOrJoin (hp : Anchored p) (key : String) (now : ℤ) :
    Anchored (p.leaseOrJoin key now).1 := by
  unfold Pool.leaseOrJoin
  split
  · exact hp
  split
  · next i _ =>
    have hq := hp.updateEntry i (f := fun e ↦ { e with lastUsed := now, refs := e.refs + 1 })
      fun _ ↦ ⟨rfl, rfl⟩
    exact hq.congr rfl
  · split <;> exact hp.congr rfl

theorem Anchored.claimSeed (hp : Anchored p) (i : ℕ) : Anchored (p.claimSeed i).1 := by
  unfold Pool.claimSeed
  split
  · split
    · exact hp
    · exact hp.updateEntry i fun _ ↦ ⟨rfl, rfl⟩
  · exact hp

theorem Anchored.releaseEntry (hp : Anchored p) (i : ℕ) : Anchored (p.releaseEntry i).1 := by
  unfold Pool.releaseEntry
  split
  · have hq := hp.updateEntry i (f := fun e ↦ { e with refs := e.refs - 1 }) fun _ ↦ ⟨rfl, rfl⟩
    split
    · exact hq.updateEntry i fun _ ↦ ⟨rfl, rfl⟩
    · exact hq
  · exact hp

/-- A value detached at birth needs no position. -/
theorem Anchored.allocate (hp : Anchored p) (c : ℕ) (pc : PendingCreate E) (value : V) (now : ℤ) :
    Anchored ((p.endCreateLocked pc.key c).allocate c pc value now true) := by
  intro i e he hd
  change update p.heap c _ i = some e at he
  by_cases hi : i = c
  · rw [hi, update_self, some_inj] at he
    exact absurd (he ▸ hd) (by simp [newEntry])
  · rw [update_of_ne hi] at he
    exact hp i e he hd

theorem Anchored.installCreated (hp : Anchored p) (hsh : Shape p h) {c : ℕ} {pc : PendingCreate E}
    (hc : p.creates[c]? = some pc) (hset : pc.settled = false) (value : V) (now : ℤ) :
    Anchored (p.installCreated c pc value now).1 := by
  rcases installCreated_cases (p := p) c pc value now with
    ⟨-, heq⟩ | ⟨-, -, -, heq⟩ | ⟨-, -, -, heq⟩ | ⟨-, -, heq⟩
  · rw [heq]
    exact hp.congr rfl
  · rw [heq]
    exact (hp.allocate c pc value now).updateEntry c fun _ ↦ ⟨rfl, rfl⟩
  · rw [heq]
    exact hp.allocate c pc value now
  · rw [heq]
    have hs := sweep_evictIfNeeded (hsh.allocate hc hset value now false).linked
    set q := (p.endCreateLocked pc.key c).allocate c pc value now false
    intro i e he hd
    change (q.evictIfNeeded.1.updateEntry c _).heap i = some e at he
    rw [heap_updateEntry] at he
    split at he
    · obtain ⟨e₀, -, rfl⟩ := map_eq_some_iff.1 he
      simp
    · next hi =>
      -- an older entry, which the eviction left alone
      have he₀ := hs.heap_of_attached he hd
      change update p.heap c _ i = some e at he₀
      rw [update_of_ne hi] at he₀
      exact hp i e he₀ hd

end Pool

/-- Every effect keeps the elements. -/
theorem Pool.Anchored.effect {s : State V E} {p : Pool V E} {callers : List (Caller E)}
    {cl : List ℕ} {ev : List Event} (hp : Pool.Anchored s.pool)
    (hsh : Pool.Shape s.pool s.history) (he : Effect s p callers cl ev) : Pool.Anchored p := by
  cases he with
  | quiet => exact hp.congr rfl
  | getOrCreate key now => exact hp.leaseOrJoin key now
  | giveUp => exact hp.congr rfl
  | awaitErr | await => exact hp
  | claimSeed => exact hp.claimSeed _
  | release => exact hp.releaseEntry _
  | installCreated value now hc hset => exact hp.installCreated hsh hc hset value now
  | failCreate => exact hp.congr rfl
  | remove key =>
    obtain ⟨q, hs, -, heq⟩ := Pool.sweep_remove hsh.linked key
    rw [heq]
    exact (hp.sweep hs).congr rfl
  | cleanupIdle now order => exact hp.sweep (Pool.sweep_cleanupIdle now order)
  | closeFlag => exact hp.congr rfl
  | drain order => exact hp.sweep (Pool.sweep_drain order)

/-- Every effect keeps the balance. -/
theorem Balanced.effect {s : State V E} {p : Pool V E} {callers : List (Caller E)} {cl : List ℕ}
    {ev : List Event} (hb : Balanced s.pool s.callers s.closes s.history)
    (hsh : Pool.Shape s.pool s.history) (he : Effect s p callers cl ev) :
    Balanced p callers (fun i ↦ s.closes i + cl.count i) (ev ++ s.history) := by
  cases he with
  | quiet => exact hb
  | getOrCreate key now => exact hb.leaseOrJoin hsh key now
  | giveUp hk hc hset => exact hb.giveUp hk hc hset
  | awaitErr hk hc hset herr =>
    refine hb.awaitErr hk hc hset ?_ _
    rcases hheap : s.pool.heap _ with - | e
    · rfl
    · obtain ⟨pc', hpc', -, -, hnone, -⟩ := hsh.settlement.owner hheap
      cases hc.symm.trans hpc'
      exact absurd (herr.symm.trans hnone) (by simp)
  | @await k c i pc hk hc hset herr hi =>
    have hlife := hsh.settlement.life hc
    generalize hkey : s.pool.keyAt c = o at hlife
    cases hlife with
    | running hs => exact absurd (hset.symm.trans hs) (by simp)
    | failed err _ hnone => exact absurd (hi.symm.trans hnone) (by simp)
    | built _ hself =>
      obtain rfl : i = c := some_inj.1 (hi.symm.trans hself)
      obtain ⟨e, he, -⟩ := map_eq_some_iff.1 hkey
      exact hb.await hk he
  | claimSeed hk => exact hb.claimSeed hk
  | release hk => exact hb.release hk
  | installCreated value now hc hset => exact hb.installCreated hsh hc hset value now
  | failCreate err hc hset =>
    have hq : Balanced { s.pool with errors := s.pool.errors + 1 } s.callers s.closes s.history :=
      hb
    exact hq.fail hc hset (.create err)
  | remove key =>
    obtain ⟨q, hs, -, heq⟩ := Pool.sweep_remove hsh.linked key
    refine (hb.sweep hsh.linked hs).congr fun d ↦ ?_
    rw [heq]
    ext1 <;> try rfl
    simp [books]
  | cleanupIdle now order => exact hb.sweep hsh.linked (Pool.sweep_cleanupIdle now order)
  | closeFlag => exact hb
  | drain order => exact hb.sweep hsh.linked (Pool.sweep_drain order)

/-! ### Every reachable state -/

variable {maxSize idleTTL : ℤ} {s : State V E}

/-- The elements are kept along every run. -/
theorem reachable_anchored (hs : (system V E maxSize idleTTL).Reachable s) :
    Pool.Anchored s.pool := by
  refine StepSystem.Reach.invariant (P := fun s ↦ Pool.Anchored s.pool) ?_ ?_ hs
  · rintro s rfl i e he
    exact absurd he (by simp [State.start, Pool.new])
  · intro s l t hr _ hp ht
    obtain ⟨cl, ev, heff, -, -⟩ := step_effect ht
    exact hp.effect (reachable_shape hr) heff

/-- The balance is kept along every run. -/
theorem reachable_balanced (hs : (system V E maxSize idleTTL).Reachable s) :
    Balanced s.pool s.callers s.closes s.history := by
  refine StepSystem.Reach.invariant
    (P := fun s ↦ Balanced s.pool s.callers s.closes s.history) ?_ ?_ hs
  · rintro s rfl c
    exact .absent rfl rfl rfl rfl rfl rfl rfl
  · intro s l t hr _ hb ht
    obtain ⟨cl, ev, heff, hcloses, hh⟩ := step_effect ht
    rw [hh, funext hcloses]
    exact hb.effect (reachable_shape hr) heff

/-- No value is closed twice, and none under a lease. -/
theorem Account.closes_le {b : Books V E} (hb : Account b) :
    b.closes ≤ 1 ∧ (0 < b.leased → b.closes = 0) := by
  cases hb with
  | absent _ _ _ _ _ hcl | running _ _ _ _ _ _ hcl => exact ⟨by omega, fun _ ↦ hcl⟩
  | failed _ _ _ _ hl hcl =>
    rw [hcl]
    exact ⟨Bool.toNat_le _, fun hpos ↦ absurd hl (by omega)⟩
  | live _ _ _ _ _ _ _ hcl => exact ⟨by omega, fun _ ↦ hcl⟩
  | closed _ _ _ _ hl hcl => exact ⟨by omega, fun hpos ↦ absurd hl (by omega)⟩

/-- **Closed at most once, and under no borrower.** In every reachable state the calls of the Closer
for a value, made or decided, are at most one together, `Remove` handing the value back being one of
them; and while any caller holds a lease on the value there is none. -/
theorem closed_once_not_under_lease (hs : (system V E maxSize idleTTL).Reachable s) (c : ℕ) :
    (s.closing.map Prod.snd).count c + s.closeLog.count c ≤ 1 ∧
    ∀ k : ℕ, s.callers[k]? = some (.leased c) → c ∉ s.closeLog ∧ ∀ task, (task, c) ∉ s.closing := by
  obtain ⟨hle, hlease⟩ := (reachable_balanced hs c).closes_le
  refine ⟨hle, fun k hk ↦ ?_⟩
  have hzero : s.closes c = 0 :=
    hlease (countP_pos_of_getElem? hk (by simp [Caller.isLeased]))
  rw [State.closes, Nat.add_eq_zero_iff, count_eq_zero, count_eq_zero] at hzero
  exact ⟨hzero.2, fun task hmem ↦ hzero.1 (mem_map.2 ⟨_, hmem, rfl⟩)⟩

/-- A lease held across `Close`: the map is drained and the value is open, with no close decided. -/
theorem closed_once_not_under_lease_across_close : ∃ s : State Unit Unit,
    (system Unit Unit 1 0).Reachable s ∧ s.pool.closed = true ∧
    s.pool.entries.lookup "k" = none ∧ s.callers[0]? = some (.leased 0) ∧
    0 ∉ s.closeLog ∧ ∀ task, (task, 0) ∉ s.closing := by
  have hrun : (system Unit Unit 1 0).run (.start 1 0) [.getOrCreate "k" 0, .installCreated 0 () 1,
      .await 0, .claimSeed 0, .closeFlag, .closeStop, .closeDrain ["k"]] = some _ := rfl
  have hs := StepSystem.reach_of_run (.init rfl) hrun
  exact ⟨_, hs, by decide, by decide, rfl, (closed_once_not_under_lease hs 0).2 0 rfl⟩

/-- An open entry is cached, or leased. -/
theorem cached_or_leased (hs : (system V E maxSize idleTTL).Reachable s) {i : ℕ} {e : Entry V}
    (he : s.pool.heap i = some e) (hopen : e.closed = false) :
    s.pool.entries.lookup e.key = some i ∨ 0 < e.refs := by
  obtain ⟨pc, -, -, -, -, hdet, -⟩ := (reachable_balanced hs).live he hopen
  rcases hd : e.detached with - | -
  · obtain ⟨n, hn⟩ := ne_none_iff_exists'.1 (reachable_anchored hs i e he hd)
    exact Or.inl ((reachable_shape hs).linked.attached he hn hd)
  · exact Or.inr (hdet hd)

/-- **No leak.** In every reachable state the seeds of an open entry are between zero and its
references, and the difference is the number of leases handed out and not released. So a value that
was created, is not in the map, and on which nobody waits and nobody holds a lease, is closed
exactly once: one Closer call has been decided for it, and none was made or decided besides. -/
theorem no_leak (hs : (system V E maxSize idleTTL).Reachable s) :
    (∀ i e, s.pool.heap i = some e → e.closed = false → 0 ≤ e.seeds ∧ e.seeds ≤ e.refs ∧
      e.refs - e.seeds = s.callers.countP (Caller.isLeased i)) ∧
    ∀ c, .created c ∈ s.history → (∀ k, s.pool.entries.lookup k ≠ some c) →
      (∀ x ∈ s.callers, ¬x.isJoined c ∧ ¬x.isAwaited c ∧ ¬x.isLeased c) →
      (s.closing.map Prod.snd).count c + s.closeLog.count c = 1 ∧
        ((∀ task, (task, c) ∉ s.closing) → s.closeLog.count c = 1) := by
  have hb := reachable_balanced hs
  refine ⟨fun i e he hopen ↦ ?_, fun c hcr hout hnone ↦ ?_⟩
  · obtain ⟨pc, -, -, hseeds, hrefs, -⟩ := hb.live he hopen
    omega
  · have hzero : s.callers.countP (Caller.isJoined c) = 0 ∧
        s.callers.countP (Caller.isAwaited c) = 0 ∧ s.callers.countP (Caller.isLeased c) = 0 :=
      ⟨countP_eq_zero.2 fun x hx ↦ (hnone x hx).1,
        countP_eq_zero.2 fun x hx ↦ (hnone x hx).2.1,
        countP_eq_zero.2 fun x hx ↦ (hnone x hx).2.2⟩
    have hcr' : (books s.pool s.callers s.closes s.history c).created = true := decide_eq_true hcr
    have hone : s.closes c = 1 := by
      cases hb c with
      | absent _ _ _ _ _ _ hno | running _ _ _ _ _ _ _ hno =>
          exact absurd (hcr'.symm.trans hno) (by simp)
      | failed _ _ _ _ _ hcl =>
        rw [hcr'] at hcl
        exact hcl
      | @live pc e _ _ hentry hopen hseeds hrefs _ _ _ =>
        -- open and not cached, so leased: but nobody is left to hold the lease
        rcases cached_or_leased hs hentry hopen with hcached | hpos
        · exact absurd hcached (hout _)
        · simp only [books] at hseeds hrefs
          omega
      | closed _ _ _ _ _ hcl => exact hcl
    refine ⟨hone, fun hidle ↦ ?_⟩
    have hcount : (s.closing.map Prod.snd).count c = 0 := by
      refine count_eq_zero.2 fun hmem ↦ ?_
      obtain ⟨⟨task, d⟩, htask, rfl⟩ := mem_map.1 hmem
      exact hidle task htask
    rw [State.closes, hcount, Nat.zero_add] at hone
    exact hone

/-- `Remove` overtakes the create of its key while the only waiter gives up: the value is detached
at birth, nobody will ever release it, and its one Closer call is decided by the install. -/
theorem no_leak_detached_at_birth : ∃ s : State Unit Unit,
    (system Unit Unit 1 0).Reachable s ∧ s.closing = [(.birth, 0)] ∧
    (s.closing.map Prod.snd).count 0 + s.closeLog.count 0 = 1 := by
  have hrun : ∃ s, (system Unit Unit 1 0).run (.start 1 0) [.getOrCreate "k" 0, .remove "k",
      .giveUp 0, .installCreated 0 () 1] = some s ∧ s.closing = [(.birth, 0)] ∧
      .created 0 ∈ s.history ∧ s.pool.entries = ∅ ∧ s.callers = [.failed .ctx] :=
    ⟨_, rfl, by decide, by decide, rfl, rfl⟩
  obtain ⟨s, hrun, hclosing, hcr, hentries, hcallers⟩ := hrun
  have hs := StepSystem.reach_of_run (.init rfl) hrun
  refine ⟨s, hs, hclosing, ((no_leak hs).2 0 hcr (fun k ↦ by simp [hentries]) fun x hx ↦ ?_).1⟩
  rw [hcallers, mem_singleton] at hx
  subst hx
  exact ⟨by simp [Caller.isJoined], by simp [Caller.isAwaited], by simp [Caller.isLeased]⟩

end ResourcePool
