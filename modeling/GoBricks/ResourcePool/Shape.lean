import GoBricks.ResourcePool.Generation

/-!
# The shape of a reachable pool

Three invariants that hold each other up. Agreement of map and list (`Linked`) survives an install
only because an install never finds its key occupied; that follows from the bookkeeping of creates
(`Generations`), which survives eviction only because map and list agree; and both need to know that
a running create owns no entry yet (`Settlement`). `Shape` is their conjunction, and
`Reachable.shape` the statement that every reachable pool has it.

The module ends with what this says about **caching**: a create is cached exactly when its key was
not removed since it began.
-/

namespace ResourcePool

open List Function Option AList State

variable {V E : Type*}

/-- The life of a create, with the key of the entry it owns: it runs, or it failed and owns none, or
its entry is its own number. -/
inductive Life (c : ℕ) (pc : PendingCreate E) : Option String → Prop
  | running : pc.settled = false → pc.e = none → pc.err = none → Life c pc none
  | failed (err : PoolErr E) : pc.settled = true → pc.e = none → pc.err = some err → Life c pc none
  | built : pc.settled = true → pc.e = some c → pc.err = none → Life c pc (some pc.key)

/-- A step of the number of waiters does not change the life of a create. -/
theorem Life.waiters {c : ℕ} {pc : PendingCreate E} {o : Option String} (h : Life c pc o) (n : ℤ) :
    Life c { pc with waiters := n } o := by
  cases h with
  | running hs he herr => exact .running hs he herr
  | failed err hs he herr => exact .failed err hs he herr
  | built hs he herr => exact .built hs he herr

namespace Pool

variable {p q : Pool V E} {h : List Event}

/-- The key of the entry at an address. -/
def keyAt (p : Pool V E) (i : ℕ) : Option String :=
  (p.heap i).map Entry.key

/-- Every create is where its life says, and nothing else was allocated. -/
structure Settlement (p : Pool V E) : Prop where
  life : ∀ {c : ℕ} {pc : PendingCreate E}, p.creates[c]? = some pc → Life c pc (p.keyAt c)
  fresh : ∀ {i : ℕ}, p.creates.length ≤ i → p.heap i = none

theorem settlement_new (maxSize idleTTL : ℤ) : Settlement (new maxSize idleTTL : Pool V E) where
  life h := by simp [new] at h
  fresh _ := rfl

theorem keyAt_eq_none {i : ℕ} : p.keyAt i = none ↔ p.heap i = none :=
  map_eq_none_iff

/-- The running create owns nothing. -/
theorem Settlement.running (hp : Settlement p) {c : ℕ} {pc : PendingCreate E}
    (hc : p.creates[c]? = some pc) (hset : pc.settled = false) :
    pc.e = none ∧ pc.err = none ∧ p.heap c = none := by
  have hlife := hp.life hc
  generalize hk : p.keyAt c = o at hlife
  cases hlife with
  | running _ he herr => exact ⟨he, herr, keyAt_eq_none.1 hk⟩
  | failed _ hs | built hs => exact absurd (hset.symm.trans hs) (by simp)

/-- An allocated entry is the result of the create of its number. -/
theorem Settlement.owner (hp : Settlement p) {i : ℕ} {e : Entry V} (he : p.heap i = some e) :
    ∃ pc, p.creates[i]? = some pc ∧ pc.settled = true ∧ pc.e = some i ∧ pc.err = none ∧
      pc.key = e.key := by
  rcases hpc : p.creates[i]? with - | pc
  · exact absurd (he.symm.trans (hp.fresh (List.getElem?_eq_none_iff.1 hpc))) (by simp)
  · have hlife := hp.life hpc
    have hk : p.keyAt i = some e.key := by rw [keyAt, he, map_some]
    rw [hk] at hlife
    generalize ho : some e.key = o at hlife
    cases hlife with
    | running | failed => exact absurd ho (by simp)
    | built hs he herr => exact ⟨pc, rfl, hs, he, herr, (some_inj.1 ho).symm⟩

/-- Settlement looks at the creates and at the keys in the heap. -/
theorem Settlement.congr (hp : Settlement p) (hcreates : q.creates = p.creates)
    (hkeys : ∀ i, q.keyAt i = p.keyAt i) : Settlement q where
  life hc := by
    rw [hcreates] at hc
    rw [hkeys]
    exact hp.life hc
  fresh hi := by
    rw [hcreates] at hi
    rw [← keyAt_eq_none, hkeys, keyAt_eq_none]
    exact hp.fresh hi

theorem keyAt_updateEntry (i j : ℕ) {f : Entry V → Entry V} (hf : ∀ e, (f e).key = e.key) :
    (p.updateEntry i f).keyAt j = p.keyAt j := by
  rw [keyAt, keyAt, heap_updateEntry]
  split
  · rw [Option.map_map]
    exact congrArg (Option.map · _) (funext hf)
  · rfl

theorem keyAt_removeEntryLocked (key : String) (j : ℕ) :
    (p.removeEntryLocked key).1.keyAt j = p.keyAt j := by
  rcases hl : p.entries.lookup key with - | i
  · rw [removeEntryLocked_of_none hl]
  · rw [removeEntryLocked_of_some hl]
    exact keyAt_updateEntry i j fun _ ↦ rfl

theorem Sweep.keyAt {cl : List ℕ} (hs : Sweep p q cl) (j : ℕ) : q.keyAt j = p.keyAt j := by
  induction hs with
  | refl => rfl
  | stats _ _ _ _ _ _ ih => exact ih
  | keep _ _ _ _ ih => rw [keyAt_removeEntryLocked, ih]
  | close _ _ _ _ ih =>
    rw [markClosed, keyAt_updateEntry, keyAt_removeEntryLocked, ih]
    exact fun _ ↦ rfl

/-- A write through one create pointer, with what it does to the heap. -/
theorem Settlement.set (hp : Settlement p) {c : ℕ} {pc pc' : PendingCreate E}
    (hc : p.creates[c]? = some pc) (hcreates : q.creates = p.creates.set c pc')
    (hlife : Life c pc' (q.keyAt c)) (hkeys : ∀ i, i ≠ c → q.keyAt i = p.keyAt i) :
    Settlement q where
  life := by
    intro j pc'' hj
    rw [hcreates, List.getElem?_set_eq_some hc] at hj
    rcases hj with ⟨rfl, rfl⟩ | ⟨hne, hj⟩
    · exact hlife
    · rw [hkeys j hne]
      exact hp.life hj
  fresh := by
    intro i hi
    rw [hcreates, length_set] at hi
    have hne : i ≠ c := by
      rintro rfl
      exact absurd (List.getElem?_eq_some_iff.1 hc).1 (by omega)
    rw [← keyAt_eq_none, hkeys i hne, keyAt_eq_none]
    exact hp.fresh hi

theorem Settlement.begin (hp : Settlement p) (key : String) :
    Settlement (p.beginCreateLocked key).1 where
  life := by
    intro c pc hc
    rcases List.getElem?_concat_eq_some.1 hc with hc | ⟨rfl, rfl⟩
    · exact hp.life hc
    · have hnone : (p.beginCreateLocked key).1.keyAt p.creates.length = none :=
        keyAt_eq_none.2 (hp.fresh le_rfl)
      rw [hnone]
      exact .running rfl rfl rfl
  fresh := by
    intro i hi
    change (p.creates ++ _).length ≤ i at hi
    rw [length_append] at hi
    exact hp.fresh (by omega)

theorem Settlement.updateWaiters (hp : Settlement p) (c : ℕ) (g : ℤ → ℤ) :
    Settlement (p.updateCreate c fun pc ↦ { pc with waiters := g pc.waiters }) := by
  rcases hc : p.creates[c]? with - | pc
  · refine hp.congr ?_ fun _ ↦ rfl
    show p.creates.modify c _ = _
    rw [modify_eq_set_getElem?, hc]
    rfl
  · exact hp.set hc (modify_eq_set_of_getElem? hc _) ((hp.life hc).waiters _) fun _ _ ↦ rfl

/-! ### The conjunction -/

/-- The shape of a reachable pool. -/
structure Shape (p : Pool V E) (h : List Event) : Prop where
  linked : Linked p
  gens : Generations p h
  settlement : Settlement p

theorem shape_new (maxSize idleTTL : ℤ) : Shape (new maxSize idleTTL : Pool V E) [] :=
  ⟨linked_new _ _, generations_new _ _, settlement_new _ _⟩

/-- A sweep keeps the shape. -/
theorem Shape.sweep (hp : Shape p h) {cl : List ℕ} (hs : Sweep p q cl) : Shape q h :=
  ⟨hs.linked hp.linked, hp.gens.sweep hs, hp.settlement.congr hs.same.creates hs.keyAt⟩

/-- A write to the counters of an entry. -/
theorem Shape.updateEntry (hp : Shape p h) (i : ℕ) {f : Entry V → Entry V}
    (hf : ∀ e, (f e).key = e.key ∧ (f e).element = e.element ∧ (f e).detached = e.detached ∧
      (f e).closed = e.closed) : Shape (p.updateEntry i f) h :=
  ⟨hp.linked.updateEntry i hf, hp.gens.congr rfl rfl rfl rfl fun hk ↦ ⟨_, hk⟩,
    hp.settlement.congr rfl fun j ↦ keyAt_updateEntry i j fun e ↦ (hf e).1⟩

/-- Closing an entry that is not cached. -/
theorem Shape.markClosed (hp : Shape p h) {i : ℕ} (hi : ∀ k, p.entries.lookup k ≠ some i) :
    Shape (p.markClosed i) h :=
  ⟨hp.linked.markClosed hi, hp.gens.congr rfl rfl rfl rfl fun hk ↦ ⟨_, hk⟩,
    hp.settlement.congr rfl fun j ↦ keyAt_updateEntry i j fun _ ↦ rfl⟩

theorem Shape.updateWaiters (hp : Shape p h) (c : ℕ) (g : ℤ → ℤ) :
    Shape (p.updateCreate c fun pc ↦ { pc with waiters := g pc.waiters }) h :=
  ⟨hp.linked.congr rfl rfl rfl, hp.gens.updateCreate c fun _ ↦ ⟨rfl, rfl, rfl⟩,
    hp.settlement.updateWaiters c g⟩

theorem Shape.event (hp : Shape p h) {ev : Event} (hb : ∀ c, ev ≠ .began c)
    (hr : ∀ k, ev ≠ .removed k) : Shape p (ev :: h) :=
  ⟨hp.linked, hp.gens.event hb hr, hp.settlement⟩

/-- A caller that comes keeps the shape. -/
theorem Shape.leaseOrJoin (hp : Shape p h) (key : String) (now : ℤ) :
    Shape (p.leaseOrJoin key now).1 (Event.ofJoined (p.leaseOrJoin key now).2 ++ h) := by
  unfold Pool.leaseOrJoin
  split
  · exact hp
  split
  · next i hl =>
    have hq : Shape (p.updateEntry i fun e ↦ { e with lastUsed := now, refs := e.refs + 1 }) h :=
      hp.updateEntry i fun _ ↦ ⟨rfl, rfl, rfl, rfl⟩
    have hmove : Shape { p.updateEntry i fun e ↦ { e with lastUsed := now, refs := e.refs + 1 } with
        lru := (p.elementOf i).elim p.lru p.lru.moveToFront } h :=
      ⟨hq.linked.moveToFront _, hq.gens.congr rfl rfl rfl rfl fun hk ↦ ⟨_, hk⟩,
        hq.settlement.congr rfl fun _ ↦ rfl⟩
    exact hmove.event (by simp) (by simp)
  · next hentry =>
    split
    · exact hp.updateWaiters _ (· + 1)
    · next hpend =>
      have hbegin : Shape (p.beginCreateLocked key).1 (.began p.creates.length :: h) :=
        ⟨hp.linked.congr rfl rfl rfl, hp.gens.begin hentry hpend, hp.settlement.begin key⟩
      exact hbegin.updateWaiters _ (· + 1)

theorem Shape.claimSeed (hp : Shape p h) (i : ℕ) : Shape (p.claimSeed i).1 h := by
  unfold Pool.claimSeed
  split
  · split
    · exact hp
    · exact hp.updateEntry i fun _ ↦ ⟨rfl, rfl, rfl, rfl⟩
  · exact hp

theorem Shape.releaseEntry (hp : Shape p h) (i : ℕ) : Shape (p.releaseEntry i).1 h := by
  unfold Pool.releaseEntry
  split
  · next e he =>
    have hq : Shape (p.updateEntry i fun e ↦ { e with refs := e.refs - 1 }) h :=
      hp.updateEntry i fun _ ↦ ⟨rfl, rfl, rfl, rfl⟩
    split
    · next hcl =>
      refine hq.markClosed fun k hk ↦ ?_
      -- the entry is detached, and a cached one is not
      obtain ⟨e', -, he', -, -, -, hd, -⟩ := hp.linked.cached hk
      rw [he, some_inj] at he'
      rw [← he', hcl.1] at hd
      exact absurd hd (by simp)
    · exact hq
  · exact hp

theorem Shape.remove (hp : Shape p h) (key : String) :
    Shape (p.remove key).1 (.removed key :: h) := by
  obtain ⟨q, hs, -, heq⟩ := sweep_remove hp.linked key
  have hq := hp.sweep hs
  refine ⟨?_, hp.gens.remove hp.linked key, ?_⟩
  · rw [heq]
    exact hq.linked.congr rfl rfl rfl
  · rw [heq]
    exact hq.settlement.congr rfl fun _ ↦ rfl

/-! ### Finishing a create -/

section Finish

variable {c : ℕ} {pc : PendingCreate E} {value : V} {now : ℤ}

/-- Two writes through one create pointer. -/
theorem creates_endCreateLocked_updateCreate (hc : p.creates[c]? = some pc) (key : String)
    (f : PendingCreate E → PendingCreate E) :
    ((p.endCreateLocked key c).updateCreate c f).creates =
      p.creates.set c (f { pc with settled := true }) := by
  have hc' : (p.endCreateLocked key c).creates[c]? = some { pc with settled := true } := by
    rw [creates_endCreateLocked hc]
    exact (List.getElem?_set_eq_some hc).2 (Or.inl ⟨rfl, rfl⟩)
  show (p.endCreateLocked key c).creates.modify c f = _
  rw [modify_eq_set_of_getElem? hc', creates_endCreateLocked hc, set_set]

/-- A create that ends without a value. -/
theorem Shape.fail (hp : Shape p h) (hc : p.creates[c]? = some pc) (hset : pc.settled = false)
    (err : PoolErr E) :
    Shape ((p.endCreateLocked pc.key c).updateCreate c fun pc ↦ { pc with err := some err }) h := by
  obtain ⟨he, -, hheap⟩ := hp.settlement.running hc hset
  refine ⟨hp.linked.congr rfl rfl rfl,
    (hp.gens.endCreate hc hset).updateCreate c fun _ ↦ ⟨rfl, rfl, rfl⟩,
    hp.settlement.set hc (creates_endCreateLocked_updateCreate hc _ _) ?_ fun _ _ ↦ rfl⟩
  show Life c _ (p.keyAt c)
  rw [keyAt_eq_none.2 hheap]
  exact .failed err rfl he rfl

theorem Shape.failCreate (hp : Shape p h) (hc : p.creates[c]? = some pc) (hset : pc.settled = false)
    (err : E) : Shape (p.failCreate pc.key c err) h := by
  have hq : Shape { p with errors := p.errors + 1 } h :=
    ⟨hp.linked.congr rfl rfl rfl, hp.gens.congr rfl rfl rfl rfl fun hk ↦ ⟨_, hk⟩,
      hp.settlement.congr rfl fun _ ↦ rfl⟩
  exact hq.fail hc hset (.create err)

/-- A create that ends with a value: its entry exists and is in no map yet. -/
theorem Shape.allocate (hp : Shape p h) (hc : p.creates[c]? = some pc) (hset : pc.settled = false)
    (value : V) (now : ℤ) (detached : Bool) :
    Shape ((p.endCreateLocked pc.key c).allocate c pc value now detached) h := by
  obtain ⟨he, herr, hheap⟩ := hp.settlement.running hc hset
  refine ⟨hp.linked.alloc hheap rfl rfl rfl rfl, ?_, ?_⟩
  · have hwrite := (hp.gens.endCreate hc hset).updateCreate c
      (f := fun pc ↦ { pc with e := some c }) fun _ ↦ ⟨rfl, rfl, rfl⟩
    exact hwrite.congr rfl rfl rfl rfl fun hk ↦ ⟨_, hk⟩
  · refine hp.settlement.set hc (creates_endCreateLocked_updateCreate hc _ _) ?_ fun i hi ↦ ?_
    · have hkey : ((p.endCreateLocked pc.key c).allocate c pc value now detached).keyAt c =
          some pc.key := by
        show (update p.heap c _ c).map Entry.key = _
        rw [update_self]
        rfl
      rw [hkey]
      exact .built rfl rfl herr
    · show (update p.heap c _ i).map Entry.key = _
      rw [update_of_ne hi]
      rfl

/-- The entry just allocated is cached under no key. -/
theorem Shape.allocate_not_cached (hp : Shape p h) (hc : p.creates[c]? = some pc)
    (hset : pc.settled = false) (value : V) (now : ℤ) (detached : Bool) (k : String) :
    ((p.endCreateLocked pc.key c).allocate c pc value now detached).entries.lookup k ≠ some c := by
  intro hk
  obtain ⟨e, -, he, -⟩ := hp.linked.cached (k := k) (i := c) hk
  exact absurd (he.symm.trans (hp.settlement.running hc hset).2.2) (by simp)

/-- Caching under a key with neither an entry nor a create to join. -/
theorem Shape.cache (hp : Shape p h) {key : String} {e : Entry V}
    (hentry : p.entries.lookup key = none) (hpend : p.pending.lookup key = none)
    (hc : p.heap c = some e) (hkey : e.key = key) (helem : e.element = none)
    (hd : e.detached = false) (hcl : e.closed = false) : Shape (p.cache key c) h := by
  refine ⟨hp.linked.cache hentry hc hkey helem hd hcl, ?_,
    hp.settlement.congr rfl fun j ↦ keyAt_updateEntry c j fun _ ↦ rfl⟩
  refine ⟨hp.gens.inFlight, fun hc hset ↦ ?_, hp.gens.pending, fun {k i} hk ↦ ?_⟩
  · obtain ⟨hle, hval, hsince, hbegan⟩ := hp.gens.valid hc hset
    exact ⟨hle, hval, hsince, hbegan⟩
  by_cases hkk : k = key
  · rw [hkk]
    exact hpend
  · rw [show (p.cache key c).entries.lookup k = p.entries.lookup k from lookup_insert_ne hkk]
      at hk
    exact hp.gens.exclusive hk

/-- A current create is its key's pending one, so its key is free. -/
theorem Shape.free_of_current (hp : Shape p h) (hc : p.creates[c]? = some pc)
    (hset : pc.settled = false) (hcur : p.generationOf pc.key = pc.gen) :
    p.pending.lookup pc.key = some c ∧ p.entries.lookup pc.key = none := by
  have hpend := (hp.gens.valid hc hset).pending.1 hcur.symm
  refine ⟨hpend, ?_⟩
  rcases hl : p.entries.lookup pc.key with - | i
  · rfl
  · exact absurd (hpend.symm.trans (hp.gens.exclusive hl)) (by simp)

/-- What `installCreated` does: orphan the value on a closed pool, keep it out of the map when it is
stale, and cache it otherwise. -/
theorem installCreated_cases (c : ℕ) (pc : PendingCreate E) (value : V) (now : ℤ) :
    (p.closed = true ∧ p.installCreated c pc value now =
      ((p.endCreateLocked pc.key c).updateCreate c fun pc ↦ { pc with err := some .poolClosed },
        [(.orphan, c)])) ∨
    (p.closed = false ∧ p.generationOf pc.key ≠ pc.gen ∧ pc.waiters = 0 ∧
      p.installCreated c pc value now =
        (((p.endCreateLocked pc.key c).allocate c pc value now true).markClosed c,
          [(.birth, c)])) ∨
    (p.closed = false ∧ p.generationOf pc.key ≠ pc.gen ∧ pc.waiters ≠ 0 ∧
      p.installCreated c pc value now =
        ((p.endCreateLocked pc.key c).allocate c pc value now true, [])) ∨
    (p.closed = false ∧ p.generationOf pc.key = pc.gen ∧
      p.installCreated c pc value now =
        (((p.endCreateLocked pc.key c).allocate c pc value now false).evictIfNeeded.1.cache pc.key
        c,
          ((p.endCreateLocked pc.key c).allocate c pc value now false).evictIfNeeded.2)) := by
  have hclosed : (p.endCreateLocked pc.key c).closed = p.closed := rfl
  unfold installCreated
  simp only [hclosed]
  rcases hcl : p.closed with - | -
  · by_cases hgen : p.generationOf pc.key = pc.gen
    · simp [hgen]
    · by_cases hw : pc.waiters = 0
      · simp [hgen, hw]
      · simp [hgen, hw]
  · simp

/-- The eviction before caching leaves the new entry and the freed key alone. -/
theorem Shape.cache_allocate (hp : Shape p h) (hc : p.creates[c]? = some pc)
    (hset : pc.settled = false) (hcur : p.generationOf pc.key = pc.gen) :
    Shape (((p.endCreateLocked pc.key c).allocate c pc value now false).evictIfNeeded.1.cache
      pc.key c) h := by
  obtain ⟨hpend, hentry⟩ := hp.free_of_current hc hset hcur
  have hq := hp.allocate hc hset value now false
  have hnot := hp.allocate_not_cached hc hset value now false
  set q := (p.endCreateLocked pc.key c).allocate c pc value now false with hqdef
  have hs := sweep_evictIfNeeded hq.linked
  have hheap : q.evictIfNeeded.1.heap c = some (newEntry pc value now false) := by
    rw [hs.heap_of_not_cached hnot]
    exact update_self _ _ _
  refine (hq.sweep hs).cache ?_ ?_ hheap rfl rfl rfl rfl
  · rcases hl : q.evictIfNeeded.1.entries.lookup pc.key with - | i
    · rfl
    · exact absurd (hentry.symm.trans (hs.lookup hl)) (by simp)
  · rw [hs.same.pending]
    show (p.endCreateLocked pc.key c).pending.lookup pc.key = none
    rw [lookup_pending_endCreateLocked, if_pos ⟨rfl, hpend⟩]

/-- A create that succeeds keeps the shape. -/
theorem Shape.installCreated (hp : Shape p h) (hc : p.creates[c]? = some pc)
    (hset : pc.settled = false) (value : V) (now : ℤ) :
    Shape (p.installCreated c pc value now).1 h := by
  rcases installCreated_cases (p := p) c pc value now with
    ⟨-, heq⟩ | ⟨-, -, -, heq⟩ | ⟨-, -, -, heq⟩ | ⟨-, hcur, heq⟩
  · rw [heq]
    exact hp.fail hc hset .poolClosed
  · rw [heq]
    exact (hp.allocate hc hset value now true).markClosed (hp.allocate_not_cached hc hset _ _ _)
  · rw [heq]
    exact hp.allocate hc hset value now true
  · rw [heq]
    exact hp.cache_allocate hc hset hcur

end Finish

end Pool

/-! ### Every reachable pool has the shape -/

/-- Every effect keeps the shape. -/
theorem Pool.Shape.effect {s : State V E} {p : Pool V E} {callers : List (Caller E)} {cl : List ℕ}
    {ev : List Event} (hp : Pool.Shape s.pool s.history) (he : Effect s p callers cl ev) :
    Pool.Shape p (ev ++ s.history) := by
  cases he with
  | quiet =>
    exact ⟨hp.linked.congr rfl rfl rfl, hp.gens.congr rfl rfl rfl rfl fun hk ↦ ⟨_, hk⟩,
      hp.settlement.congr rfl fun _ ↦ rfl⟩
  | getOrCreate key now => exact hp.leaseOrJoin key now
  | giveUp => exact hp.updateWaiters _ (· - 1)
  | awaitErr | await => exact hp
  | claimSeed => exact hp.claimSeed _
  | release => exact hp.releaseEntry _
  | installCreated value now hc hset =>
    exact ((hp.installCreated hc hset value now).event (by simp) (by simp)).event
      (by simp) (by simp)
  | failCreate err hc hset => exact hp.failCreate hc hset err
  | remove key => exact hp.remove key
  | cleanupIdle now order => exact hp.sweep (Pool.sweep_cleanupIdle now order)
  | closeFlag =>
    exact ⟨hp.linked.congr rfl rfl rfl, hp.gens.congr rfl rfl rfl rfl fun hk ↦ ⟨_, hk⟩,
      hp.settlement.congr rfl fun _ ↦ rfl⟩
  | drain order => exact hp.sweep (Pool.sweep_drain order)

variable {maxSize idleTTL : ℤ} {s t : State V E}

/-- The shape is kept along every run. -/
theorem reachable_shape (hs : (system V E maxSize idleTTL).Reachable s) :
    Pool.Shape s.pool s.history := by
  refine StepSystem.Reach.invariant (P := fun s ↦ Pool.Shape s.pool s.history) ?_ ?_ hs
  · rintro s rfl
    exact Pool.shape_new maxSize idleTTL
  · intro s l t _ _ hp ht
    obtain ⟨cl, ev, heff, -, hh⟩ := step_effect ht
    rw [hh]
    exact hp.effect heff

/-! ### What is cached -/

/-- In flight, and no `Remove` has made it stale. -/
def Pool.Current (p : Pool V E) (pc : PendingCreate E) : Prop :=
  pc.settled = false ∧ pc.gen = p.generationOf pc.key

/-- A membership in what was noted since. -/
instance (h : List Event) (c : ℕ) (key : String) : Decidable (RemovedSince h c key) :=
  inferInstanceAs (Decidable (_ ∈ _))

namespace Pool

variable {p : Pool V E} {h : List Event} {c : ℕ} {pc : PendingCreate E}

/-- A current create is cached, under its free key. -/
theorem Shape.install_current (hp : Shape p h) (hc : p.creates[c]? = some pc)
    (hcur : p.Current pc) (hopen : p.closed = false) (value : V) (now : ℤ) :
    p.entries.lookup pc.key = none ∧
      (p.installCreated c pc value now).1.entries.lookup pc.key = some c := by
  refine ⟨(hp.free_of_current hc hcur.1 hcur.2.symm).2, ?_⟩
  rcases installCreated_cases (p := p) c pc value now with
    ⟨hcl, -⟩ | ⟨-, hgen, -⟩ | ⟨-, hgen, -⟩ | ⟨-, -, heq⟩
  · exact absurd (hopen.symm.trans hcl) (by simp)
  · exact absurd hcur.2.symm hgen
  · exact absurd hcur.2.symm hgen
  · rw [heq]
    exact lookup_insert _

/-- A stale create leaves the map as it is, and is not in it. -/
theorem Shape.install_stale (hp : Shape p h) (hc : p.creates[c]? = some pc)
    (hset : pc.settled = false) (hgen : pc.gen ≠ p.generationOf pc.key) (value : V) (now : ℤ)
    (k : String) :
    (p.installCreated c pc value now).1.entries = p.entries ∧ p.entries.lookup k ≠ some c := by
  refine ⟨?_, fun hk ↦ ?_⟩
  · rcases installCreated_cases (p := p) c pc value now with
      ⟨-, heq⟩ | ⟨-, -, -, heq⟩ | ⟨-, -, -, heq⟩ | ⟨-, hcur, -⟩
    · rw [heq]; rfl
    · rw [heq]; rfl
    · rw [heq]; rfl
    · exact absurd hcur.symm hgen
  · obtain ⟨e, -, he, -⟩ := hp.linked.cached hk
    exact absurd (he.symm.trans (hp.settlement.running hc hset).2.2) (by simp)

end Pool

theorem State.installCreated_eq_some {c : ℕ} {value : V} {now : ℤ}
    (h : s.step (.installCreated c value now) = some t) : ∃ pc, s.pool.creates[c]? = some pc ∧
      pc.settled = false ∧ t.pool = (s.pool.installCreated c pc value now).1 := by
  change s.installCreated c value now = some t at h
  unfold State.installCreated at h
  split at h <;> try contradiction
  next pc hpc =>
  split at h <;> try contradiction
  next hset =>
  cases h
  exact ⟨pc, hpc, by simpa using hset, rfl⟩

/-- **A create is cached exactly when its key was not removed since it began**, although the counter
that decides this is deleted and restarts: in every reachable state no key has both an entry and a
create to join, a key has at most one current create, and an install on an open pool caches its
value if and only if no `Remove` of the key ran since the create began, never replacing an entry
that is there. -/
theorem cached_iff_not_removedSince (hs : (system V E maxSize idleTTL).Reachable s) :
    (∀ k, s.pool.entries.lookup k = none ∨ s.pool.pending.lookup k = none) ∧
    (∀ (c c' : ℕ) (pc pc' : PendingCreate E), s.pool.creates[c]? = some pc →
      s.pool.creates[c']? = some pc' → s.pool.Current pc → s.pool.Current pc' → pc.key = pc'.key →
      c = c') ∧
    ∀ c value now t, s.step (.installCreated c value now) = some t → s.pool.closed = false →
      ∃ pc, s.pool.creates[c]? = some pc ∧ .began c ∈ s.history ∧
        (t.pool.entries.lookup pc.key = some c ↔ ¬RemovedSince s.history c pc.key) ∧
        ∀ i, s.pool.entries.lookup pc.key = some i → t.pool.entries.lookup pc.key = some i := by
  have hp := reachable_shape hs
  refine ⟨fun k ↦ ?_, fun c c' pc pc' hc hc' hcur hcur' hkey ↦ ?_, fun c value now t ht hopen ↦ ?_⟩
  · rcases hl : s.pool.entries.lookup k with - | i
    · exact Or.inl rfl
    · exact Or.inr (hp.gens.exclusive hl)
  · -- both are their key's pending create
    have hpend := (hp.gens.valid hc hcur.1).pending.1 hcur.2
    have hpend' := (hp.gens.valid hc' hcur'.1).pending.1 hcur'.2
    rw [hkey, hpend', some_inj] at hpend
    exact hpend.symm
  · obtain ⟨pc, hc, hset, hpool⟩ := installCreated_eq_some ht
    have hval := hp.gens.valid hc hset
    refine ⟨pc, hc, hval.began, ?_⟩
    rw [hpool, ← hval.since]
    by_cases hgen : pc.gen = s.pool.generationOf pc.key
    · obtain ⟨hfree, hcached⟩ := hp.install_current hc ⟨hset, hgen⟩ hopen value now
      refine ⟨iff_of_true hcached hgen, fun i hi ↦ ?_⟩
      exact absurd (hfree.symm.trans hi) (by simp)
    · obtain ⟨hsame, hnot⟩ := hp.install_stale hc hset hgen value now pc.key
      rw [hsame]
      exact ⟨iff_of_false hnot hgen, fun i hi ↦ hi⟩

/-- A key removed and created again while its first create is still running: the first create is
installed last and stays out of the cache, the second is cached. -/
theorem cached_iff_not_removedSince_two_creates : ∃ s t : State Unit Unit,
    (system Unit Unit 1 0).Reachable s ∧
    s.step (.installCreated 0 () 3) = some t ∧ RemovedSince s.history 0 "k" ∧
    s.pool.entries.lookup "k" = some 1 ∧ t.pool.entries.lookup "k" = some 1 := by
  have hrun : ∃ s, (system Unit Unit 1 0).run (.start 1 0) [.getOrCreate "k" 0, .remove "k",
      .getOrCreate "k" 1, .installCreated 1 () 2] = some s ∧
      (∃ t, s.step (.installCreated 0 () 3) = some t) ∧ RemovedSince s.history 0 "k" ∧
      s.pool.entries.lookup "k" = some 1 ∧ s.pool.closed = false ∧
      s.pool.creates[0]?.map PendingCreate.key = some "k" :=
    ⟨_, rfl, ⟨_, rfl⟩, by decide, by decide, by decide, by decide⟩
  obtain ⟨s, hrun, ⟨t, ht⟩, hrem, hentry, hopen, hkey⟩ := hrun
  have hs := StepSystem.reach_of_run (.init rfl) hrun
  obtain ⟨pc, hpc, -, -, hkeep⟩ := (cached_iff_not_removedSince hs).2.2 0 () 3 t ht hopen
  rw [hpc, map_some, some_inj] at hkey
  exact ⟨s, t, hs, ht, hrem, hentry, hkey ▸ hkeep 1 (hkey.symm ▸ hentry)⟩

end ResourcePool
