import GoBricks.ResourcePool.Shape

/-!
# The bookkeeping of keys

A key in the map costs an entry, which is evicted. What the pool keeps beside the map, to tell a
create that `Remove` has overtaken, has to go away by itself: with the last create of its key.
-/

namespace ResourcePool

open List AList State

variable {V E : Type*} {maxSize idleTTL : ℤ} {s : State V E}

namespace Pool

variable {p q : Pool V E} {h : List Event}

/-- The pool counts no key at zero, and keeps no generation for a key that it does not count. -/
structure Tidy (p : Pool V E) : Prop where
  inFlight : ∀ k n, p.inFlight.lookup k = some n → 0 < n
  generation : ∀ k, p.inFlight.lookup k = none → p.generation.lookup k = none

theorem Tidy.congr (hp : Tidy p) (hinFlight : q.inFlight = p.inFlight)
    (hgeneration : q.generation = p.generation) : Tidy q :=
  ⟨hinFlight ▸ hp.inFlight, hinFlight ▸ hgeneration ▸ hp.generation⟩

/-- A key is counted, and the others stay as they are. -/
theorem Tidy.insert (hp : Tidy p) {key : String} {n : ℤ} (hn : 0 < n)
    (hinFlight : q.inFlight = p.inFlight.insert key n)
    (hgeneration : ∀ k, k ≠ key → q.generation.lookup k = p.generation.lookup k) : Tidy q := by
  have := hp.inFlight
  have := hp.generation
  constructor <;> intro k <;> by_cases hk : k = key <;> grind [lookup_insert, lookup_insert_ne]

/-- The end of a create drops its count, and the generation with the last. -/
theorem Tidy.endCreateLocked (hp : Tidy p) (key : String) (c : ℕ) :
    Tidy (p.endCreateLocked key c) := by
  have := hp.inFlight
  have := hp.generation
  constructor <;> intro k <;> by_cases hk : k = key <;>
    grind [Pool.endCreateLocked, lookup_erase, lookup_erase_ne, lookup_insert, lookup_insert_ne]

theorem Tidy.leaseOrJoin (hp : Tidy p) (hsh : Shape p h) (key : String) (now : ℤ) :
    Tidy (p.leaseOrJoin key now).1 := by
  unfold Pool.leaseOrJoin
  split
  · exact hp
  split
  · exact hp.congr rfl rfl
  split
  · exact hp.congr rfl rfl
  · have hcount := hsh.gens.inFlight key
    exact hp.insert (by omega) rfl fun _ _ ↦ rfl

end Pool

/-- Every effect keeps the maps tidy. -/
theorem Pool.Tidy.effect {p : Pool V E} {callers : List (Caller E)} {cl : List ℕ}
    {ev : List Event} (hp : Pool.Tidy s.pool) (hsh : Pool.Shape s.pool s.history)
    (he : Effect s p callers cl ev) : Pool.Tidy p := by
  have hsweep {p q : Pool V E} {cl : List ℕ} (hp : Pool.Tidy p) (h : Pool.Sweep p q cl) :
      Pool.Tidy q := hp.congr h.same.inFlight h.same.generation
  cases he with
  | quiet | giveUp | awaitErr | await | closeFlag => exact hp.congr rfl rfl
  | getOrCreate key now => exact hp.leaseOrJoin hsh key now
  | claimSeed | release =>
    simp only [Pool.claimSeed, Pool.releaseEntry]
    repeat' split
    all_goals exact hp.congr rfl rfl
  | @installCreated c pc value now hc hset =>
    have hend := hp.endCreateLocked pc.key c
    rcases Pool.installCreated_cases (p := s.pool) c pc value now with
      ⟨-, heq⟩ | ⟨-, -, -, heq⟩ | ⟨-, -, -, heq⟩ | ⟨-, -, heq⟩
    all_goals rw [heq]
    iterate 3 exact hend.congr rfl rfl
    · have hl := (hsh.allocate hc hset value now false).linked
      have hsame := (Pool.sweep_evictIfNeeded hl).same
      exact hend.congr hsame.inFlight hsame.generation
  | @failCreate c pc err hc hset => exact (hp.endCreateLocked pc.key c).congr rfl rfl
  | remove key =>
    obtain ⟨q, hq, -, heq⟩ := Pool.sweep_remove hsh.linked key
    rw [heq]
    refine ⟨(hsweep hp hq).inFlight, fun k hk ↦ ?_⟩
    have hnone := (hsweep hp hq).generation k hk
    have habsent : s.pool.inFlight.lookup k = none := hq.same.inFlight ▸ hk
    dsimp only
    split
    · next hpos =>
      have hne : k ≠ key := by
        rintro rfl
        simp [Pool.inFlightOf, habsent] at hpos
      exact (lookup_insert_ne hne).trans hnone
    · exact hnone
  | cleanupIdle now order => exact hsweep hp (Pool.sweep_cleanupIdle now order)
  | drain order => exact hsweep hp (Pool.sweep_drain order)

/-- **No key leaves anything behind.** In every reachable state the pool counts for each key exactly
its creates that are running. With none running for a key, it has no entry for it in `inFlight`,
`generation` or `pending`, however often the key was created, removed or failed before. -/
theorem bookkeeping_exact (hs : (system V E maxSize idleTTL).Reachable s) (k : String) :
    let n := s.pool.creates.countP (PendingCreate.runsFor k)
    s.pool.inFlight.lookup k = (if n = 0 then none else some (n : ℤ)) ∧
      (n = 0 → s.pool.generation.lookup k = none ∧ s.pool.pending.lookup k = none) := by
  intro n
  have hgens := (reachable_shape hs).gens
  have htidy : Pool.Tidy s.pool := by
    refine hs.invariant (P := fun s ↦ Pool.Tidy s.pool) ?_ ?_
    · rintro s rfl
      exact ⟨nofun, fun _ _ ↦ rfl⟩
    · intro s l t hr _ hp ht
      obtain ⟨cl, ev, heff, -, -⟩ := step_effect ht
      exact hp.effect (reachable_shape hr) heff
  have hcount : (s.pool.inFlight.lookup k).getD 0 = n := hgens.inFlight k
  have hlookup : s.pool.inFlight.lookup k = if n = 0 then none else some (n : ℤ) := by
    cases hk : s.pool.inFlight.lookup k with
    | none => grind
    | some m => grind [htidy.inFlight k m hk]
  refine ⟨hlookup, fun hzero ↦ ⟨htidy.generation k (by rw [hlookup, if_pos hzero]), ?_⟩⟩
  refine Option.eq_none_iff_forall_not_mem.2 fun c hc ↦ ?_
  obtain ⟨pc, hpc, hset, rfl⟩ := hgens.pending hc
  exact absurd (hgens.inFlight_pos hpc hset) (by rw [hgens.inFlight]; omega)

/-- A key with two creates, one of them overtaken by `Remove`, and a key that is forgotten. -/
theorem bookkeeping_exact_overtaken : ∃ s : State Unit Unit, (system Unit Unit 1 0).Reachable s ∧
    s.pool.inFlight.lookup "k" = some 2 ∧ s.pool.generation.lookup "j" = none := by
  have hrun : (system Unit Unit 1 0).run (.start 1 0) [.getOrCreate "j" 0, .remove "j",
      .failCreate 0 (), .getOrCreate "k" 0, .remove "k", .getOrCreate "k" 0] = some _ := rfl
  have hs := StepSystem.reach_of_run (.init rfl) hrun
  exact ⟨_, hs, (bookkeeping_exact hs "k").1, ((bookkeeping_exact hs "j").2 rfl).1⟩

end ResourcePool
