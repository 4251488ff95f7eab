import GoBricks.ResourcePool.Shape

/-!
# Capacity and recency

The LRU list of a reachable pool is the map in **order of last use**. That the two have the same
members is a consequence of their agreement (`Linked.values_perm`); the order is an invariant over
the history: walking the list from the front, the last install-or-lease event of an entry lies ever
further back. The entry at the back is then the one used longest ago, which is what makes it the
right victim, and evicting it before every insertion at capacity keeps the map within `maxSize`.

A lease event is a `GetOrCreate` that finds the key cached. The leases of the callers waiting for a
create are reserved by the install itself, and claiming one is not a use.
-/

namespace ResourcePool

open List Option AList State

variable {V E : Type*}

/-- How many events ago entry `i` was last installed or leased. The history is newest first. -/
def idleSince (h : List Event) (i : ℕ) : ℕ :=
  h.idxOf (.touched i)

@[simp] theorem idleSince_touched (h : List Event) (i : ℕ) : idleSince (.touched i :: h) i = 0 :=
  idxOf_cons_self

variable {i : ℕ}

theorem idleSince_cons {h : List Event} {ev : Event} (hev : ev ≠ .touched i) :
    idleSince (ev :: h) i = idleSince h i + 1 :=
  idxOf_cons_ne h hev

/-- Using `i` puts it before everything else. -/
theorem pairwise_idleSince_touched {h : List Event} {l : List ℕ} (hi : i ∉ l)
    (hl : l.Pairwise fun j k ↦ idleSince h j < idleSince h k) :
    (i :: l).Pairwise fun j k ↦ idleSince (.touched i :: h) j < idleSince (.touched i :: h) k := by
  have hne : ∀ {j}, j ∈ l → Event.touched i ≠ .touched j := by
    rintro j hj heq
    exact hi (Event.touched.inj heq ▸ hj)
  refine pairwise_cons.2 ⟨fun j hj ↦ ?_, hl.imp_of_mem fun hj hk hlt ↦ ?_⟩
  · rw [idleSince_touched, idleSince_cons (hne hj)]
    omega
  · rw [idleSince_cons (hne hj), idleSince_cons (hne hk)]
    omega

variable {cl : List ℕ}

namespace Pool

variable {p q : Pool V E} {h : List Event}

/-! ### Map and list have the same members -/

/-- The list has the cached entries. -/
theorem Linked.mem_values (hp : Linked p) :
    i ∈ p.lru.values ↔ ∃ k, p.entries.lookup k = some i := by
  constructor
  · intro hi
    obtain ⟨⟨n, j⟩, hmem, rfl⟩ := mem_map.1 hi
    obtain ⟨e, -, -, hl⟩ := hp.listed hmem
    exact ⟨e.key, hl⟩
  · rintro ⟨k, hk⟩
    obtain ⟨e, n, -, -, -, hmem, -⟩ := hp.cached hk
    exact mem_map.2 ⟨(n, i), hmem, rfl⟩

theorem Linked.values_nodup (hp : Linked p) : p.lru.values.Nodup := by
  refine List.Nodup.map_on ?_ (List.Nodup.of_map _ p.lru.nodup)
  rintro ⟨n, i⟩ hn ⟨m, j⟩ hm hij
  obtain rfl : i = j := hij
  -- both nodes are the entry's own
  obtain ⟨e, he, hen, -⟩ := hp.listed hn
  obtain ⟨e', he', hem, -⟩ := hp.listed hm
  rw [he, some_inj] at he'
  rw [← he', hen, some_inj] at hem
  rw [hem]

/-- The entries the map leads to. -/
def cachedEntries (p : Pool V E) : List ℕ :=
  p.entries.entries.map Sigma.snd

theorem mem_cachedEntries : i ∈ p.cachedEntries ↔ ∃ k, p.entries.lookup k = some i := by
  simp only [cachedEntries, List.mem_map, Sigma.exists, exists_eq_right]
  exact exists_congr fun k ↦ mem_lookup_iff.symm

/-- The list is a permutation of the map. -/
theorem Linked.values_perm (hp : Linked p) : p.lru.values.Perm p.cachedEntries := by
  have hnodup : p.cachedEntries.Nodup := by
    refine List.Nodup.map_on ?_ p.entries.nodupKeys.nodup
    rintro ⟨k, i⟩ hk ⟨k', j⟩ hk' hij
    obtain rfl : i = j := hij
    rw [hp.key_unique (mem_lookup_iff.2 hk) (mem_lookup_iff.2 hk')]
  refine (perm_ext_iff_of_nodup hp.values_nodup hnodup).2 fun i ↦ ?_
  rw [hp.mem_values, mem_cachedEntries]

/-! ### The size of the map -/

theorem keys_length_removeEntryLocked (key : String) :
    (p.removeEntryLocked key).1.entries.keys.length ≤ p.entries.keys.length := by
  rcases hl : p.entries.lookup key with - | i
  · rw [removeEntryLocked_of_none hl]
  · rw [removeEntryLocked_of_some hl]
    rw [keys_erase]
    exact length_erase_le

theorem Sweep.keys_length (hs : Sweep p q cl) : q.entries.keys.length ≤ p.entries.keys.length := by
  induction hs with
  | refl => exact le_rfl
  | stats _ _ _ _ _ _ ih => exact ih
  | keep _ _ _ _ ih | close _ _ _ _ ih => exact Nat.le_trans (keys_length_removeEntryLocked _) ih

theorem keys_length_removeEntryLocked_of_some {key : String} (hl : p.entries.lookup key = some i) :
    (p.removeEntryLocked key).1.entries.keys.length + 1 = p.entries.keys.length := by
  have hmem : key ∈ p.entries.keys := by
    rw [← AList.mem_keys, ← not_not (a := key ∈ p.entries), ← AList.lookup_eq_none, hl]
    simp
  have hpos := length_pos_of_mem hmem
  rw [removeEntryLocked_of_some hl]
  rw [keys_erase, length_erase_of_mem hmem]
  omega

/-! ### Eviction -/

/-- What eviction does when the list and the map agree: nothing below capacity, and otherwise it
takes out the entry at the back. -/
theorem Linked.evictIfNeeded_cases (hp : Linked p) :
    ((p.maxSize ≤ 0 ∨ (p.entries.keys.length : ℤ) < p.maxSize) ∧ p.evictIfNeeded.1 = p) ∨
    ∃ n i e, p.lru.back = some (n, i) ∧ p.heap i = some e ∧ p.entries.lookup e.key = some i ∧
      p.evictIfNeeded.1.entries = (p.removeEntryLocked e.key).1.entries := by
  by_cases hcap : p.maxSize ≤ 0 ∨ (p.entries.keys.length : ℤ) < p.maxSize
  · exact Or.inl ⟨hcap, by rw [evictIfNeeded, if_pos hcap]⟩
  · right
    have hne : p.entries.keys ≠ [] := by
      intro hnil
      rw [hnil, length_nil] at hcap
      omega
    obtain ⟨k, hk⟩ := exists_mem_of_ne_nil _ hne
    obtain ⟨i, hi⟩ := isSome_iff_exists.1 (lookup_isSome.2 (mem_keys.2 hk))
    obtain ⟨-, m, -, -, -, hmem, -⟩ := hp.cached hi
    rcases hback : p.lru.back with - | ⟨n, j⟩
    · rw [ElementList.back, List.getLast?_eq_none_iff] at hback
      exact absurd (hback ▸ hmem) (by simp)
    · obtain ⟨e, he, -, hl⟩ := hp.listed (mem_of_getLast? hback)
      refine ⟨n, j, e, rfl, he, hl, ?_⟩
      simp only [evictIfNeeded, if_neg hcap, hback, he]
      split <;> rfl

/-- Room for one more. -/
theorem Linked.keys_length_evictIfNeeded (hp : Linked p) (hpos : 0 < p.maxSize)
    (hcap : (p.entries.keys.length : ℤ) ≤ p.maxSize) :
    (p.evictIfNeeded.1.entries.keys.length : ℤ) < p.maxSize := by
  rcases hp.evictIfNeeded_cases with ⟨hlt, heq⟩ | ⟨n, i, e, -, -, hl, heq⟩
  · rw [heq]
    omega
  · have := keys_length_removeEntryLocked_of_some hl
    rw [heq]
    omega

/-- The victim is at the back. -/
theorem Linked.back_of_evicted (hp : Linked p) {k : String} (hl : p.entries.lookup k = some i)
    (hgone : p.evictIfNeeded.1.entries.lookup k ≠ some i) : ∃ n, p.lru.back = some (n, i) := by
  rcases hp.evictIfNeeded_cases with ⟨-, heq⟩ | ⟨n, j, e, hback, -, hj, heq⟩
  · rw [heq] at hgone
    exact absurd hl hgone
  · rw [heq, removeEntryLocked_of_some hj] at hgone
    by_cases hk : k = e.key
    · rw [hk, hj, some_inj] at hl
      exact ⟨n, hl ▸ hback⟩
    · rw [lookup_erase_ne hk] at hgone
      exact absurd hl hgone

/-! ### The order of the list -/

/-- The list is in order of last use, and the map within its capacity. -/
structure Recency (p : Pool V E) (h : List Event) : Prop where
  touched : ∀ {i : ℕ}, i ∈ p.lru.values → .touched i ∈ h
  ordered : p.lru.values.Pairwise fun i j ↦ idleSince h i < idleSince h j
  capacity : 0 < p.maxSize → (p.entries.keys.length : ℤ) ≤ p.maxSize

theorem recency_new (maxSize idleTTL : ℤ) : Recency (new maxSize idleTTL : Pool V E) [] where
  touched hi := by simp [new, ElementList.values] at hi
  ordered := by simp [new, ElementList.values]
  capacity h := by simpa [new] using Int.le_of_lt h

theorem Recency.congr (hp : Recency p h) (hlru : q.lru = p.lru) (hentries : q.entries = p.entries)
    (hmax : q.maxSize = p.maxSize) : Recency q h where
  touched := by rw [hlru]; exact hp.touched
  ordered := by rw [hlru]; exact hp.ordered
  capacity := by rw [hentries, hmax]; exact hp.capacity

/-- A sweep keeps the order. -/
theorem Recency.sweep (hp : Recency p h) (hs : Sweep p q cl) : Recency q h where
  touched hi := hp.touched (hs.values_sublist.subset hi)
  ordered := hp.ordered.sublist hs.values_sublist
  capacity hpos := by
    have hcap := hp.capacity (hs.same.maxSize ▸ hpos)
    have hlen := hs.keys_length
    rw [hs.same.maxSize]
    omega

/-- An event that uses no listed entry moves everything back by one. -/
theorem Recency.event (hp : Recency p h) {ev : Event}
    (hev : ∀ i ∈ p.lru.values, ev ≠ .touched i) : Recency p (ev :: h) where
  touched hi := mem_cons_of_mem _ (hp.touched hi)
  ordered := hp.ordered.imp_of_mem fun hi hj hlt ↦ by
    rw [idleSince_cons (hev _ hi), idleSince_cons (hev _ hj)]
    omega
  capacity := hp.capacity

/-- A hit moves the entry to the front of the list and of the order. -/
theorem Recency.lease (hp : Recency p h) (hl : Linked p) {k : String}
    (hi : p.entries.lookup k = some i)
    (hlru : q.lru = (p.elementOf i).elim p.lru p.lru.moveToFront) (hentries : q.entries = p.entries)
    (hmax : q.maxSize = p.maxSize) : Recency q (.touched i :: h) := by
  obtain ⟨e, n, he, -, hn, hmem, -⟩ := hl.cached hi
  have helem : p.elementOf i = some n := by rw [elementOf, he, bind_some, hn]
  have hvalues : q.lru.values = i :: (p.lru.remove n).values := by
    rw [hlru, helem, elim_some, ElementList.values, ElementList.nodes_moveToFront hmem]
    rfl
  have hnot : i ∉ (p.lru.remove n).values := by
    intro hmem'
    obtain ⟨⟨m, j⟩, hm, rfl⟩ := mem_map.1 hmem'
    obtain ⟨hm, hmn⟩ := ElementList.mem_remove.1 hm
    obtain ⟨e', he', hem, -⟩ := hl.listed hm
    rw [he, some_inj] at he'
    rw [← he', hn, some_inj] at hem
    exact hmn hem.symm
  have hsub : (p.lru.remove n).values.Sublist p.lru.values := ElementList.values_remove_sublist n
  refine ⟨fun {j} hj ↦ ?_, ?_, by rw [hentries, hmax]; exact hp.capacity⟩
  · rw [hvalues, mem_cons] at hj
    rcases hj with rfl | hj
    · exact mem_cons_self
    · exact mem_cons_of_mem _ (hp.touched (hsub.subset hj))
  · rw [hvalues]
    exact pairwise_idleSince_touched hnot (hp.ordered.sublist hsub)

/-- Caching a new entry puts it in front. -/
theorem Recency.cache (hp : Recency p h) {c : ℕ} (key : String) (hc : c ∉ p.lru.values)
    (hroom : 0 < p.maxSize → (p.entries.keys.length : ℤ) < p.maxSize) :
    Recency (p.cache key c) (.touched c :: h) where
  touched {j} hj := by
    rcases mem_cons.1 hj with rfl | hj
    · exact mem_cons_self
    · exact mem_cons_of_mem _ (hp.touched hj)
  ordered := pairwise_idleSince_touched hc hp.ordered
  capacity hpos := by
    have hlt := hroom hpos
    show ((p.entries.insert key c).keys.length : ℤ) ≤ p.maxSize
    rw [keys_insert, length_cons]
    have := length_erase_le (a := key) (l := p.entries.keys)
    omega

/-- A lease is the most recent. -/
theorem Recency.leaseOrJoin (hp : Recency p h) (hl : Linked p) (key : String) (now : ℤ) :
    Recency (p.leaseOrJoin key now).1 (Event.ofJoined (p.leaseOrJoin key now).2 ++ h) := by
  unfold Pool.leaseOrJoin
  split
  · exact hp
  split
  · next i hi => exact hp.lease hl hi rfl rfl rfl
  · split
    · exact hp.congr rfl rfl rfl
    · have hq : Recency p (.began p.creates.length :: h) := hp.event (by simp)
      exact hq.congr rfl rfl rfl

/-- A new entry is the most recent, and evicts the least. -/
theorem Recency.installCreated (hp : Recency p h) (hsh : Shape p h) {c : ℕ} {pc : PendingCreate E}
    (hc : p.creates[c]? = some pc) (hset : pc.settled = false) (value : V) (now : ℤ) :
    Recency (p.installCreated c pc value now).1 (.touched c :: .created c :: h) := by
  have hnot : c ∉ p.lru.values := by
    rw [hsh.linked.mem_values]
    rintro ⟨k, hk⟩
    obtain ⟨e, -, he, -⟩ := hsh.linked.cached hk
    exact absurd (he.symm.trans (hsh.settlement.running hc hset).2.2) (by simp)
  have hcreated : Recency p (.created c :: h) := hp.event (by simp)
  have htouched : Recency p (.touched c :: .created c :: h) := by
    refine hcreated.event fun i hi heq ↦ ?_
    exact hnot (Event.touched.inj heq ▸ hi)
  rcases installCreated_cases (p := p) c pc value now with
    ⟨-, heq⟩ | ⟨-, -, -, heq⟩ | ⟨-, -, -, heq⟩ | ⟨-, -, heq⟩
  · rw [heq]
    exact htouched.congr rfl rfl rfl
  · rw [heq]
    exact htouched.congr rfl rfl rfl
  · rw [heq]
    exact htouched.congr rfl rfl rfl
  · have hq := hsh.allocate hc hset value now false
    rw [heq]
    set q := (p.endCreateLocked pc.key c).allocate c pc value now false
    have hs := sweep_evictIfNeeded hq.linked
    have hrec : Recency q (.created c :: h) := hcreated.congr rfl rfl rfl
    refine (hrec.sweep hs).cache pc.key (fun hmem ↦ hnot (hs.values_sublist.subset hmem)) fun hpos
      ↦ ?_
    rw [hs.same.maxSize] at hpos ⊢
    exact hq.linked.keys_length_evictIfNeeded hpos (hrec.capacity hpos)

/-- Everything listed was used after the entry at the back. -/
theorem Recency.lt_back (hp : Recency p h) {n j : ℕ} (hback : p.lru.back = some (n, i))
    (hj : j ∈ p.lru.values) (hne : j ≠ i) : idleSince h j < idleSince h i := by
  obtain ⟨front, hnodes⟩ := List.getLast?_eq_some_iff.1 hback
  have hvalues : p.lru.values = front.map Prod.snd ++ [i] := by
    rw [ElementList.values, hnodes, map_append]
    rfl
  have hord := hp.ordered
  rw [hvalues] at hord hj
  rcases mem_append.1 hj with hfront | hlast
  · exact (pairwise_append.1 hord).2.2 j hfront i (mem_singleton.2 rfl)
  · exact absurd (mem_singleton.1 hlast) hne

/-- An install takes an entry out of the map by evicting the one at the back. -/
theorem Shape.back_of_install (hp : Shape p h) {c : ℕ} {pc : PendingCreate E}
    (hc : p.creates[c]? = some pc) (hset : pc.settled = false) {value : V} {now : ℤ} {k : String}
    (hk : p.entries.lookup k = some i)
    (hgone : (p.installCreated c pc value now).1.entries.lookup k ≠ some i) :
    ∃ n, p.lru.back = some (n, i) := by
  rcases installCreated_cases (p := p) c pc value now with
    ⟨-, heq⟩ | ⟨-, -, -, heq⟩ | ⟨-, -, -, heq⟩ | ⟨-, hcur, heq⟩
  · rw [heq] at hgone
    exact absurd hk hgone
  · rw [heq] at hgone
    exact absurd hk hgone
  · rw [heq] at hgone
    exact absurd hk hgone
  · -- the key cached by the install was free, so the entry at `k` left by eviction
    rw [heq] at hgone
    have hkey : k ≠ pc.key := by
      rintro rfl
      exact absurd (hk.symm.trans (hp.free_of_current hc hset hcur).2) (by simp)
    refine (hp.allocate hc hset value now false).linked.back_of_evicted hk fun hstay ↦ hgone ?_
    exact (lookup_insert_ne hkey).trans hstay

theorem Shape.maxSize_effect {s : State V E} {callers : List (Caller E)} {ev : List Event}
    (hp : Shape s.pool s.history) (he : Effect s p callers cl ev) : p.maxSize = s.pool.maxSize := by
  cases he with
  | quiet => rfl
  | getOrCreate key now =>
    unfold Pool.leaseOrJoin
    split
    · rfl
    split
    · rfl
    split <;> rfl
  | giveUp | awaitErr | await => rfl
  | claimSeed =>
    unfold Pool.claimSeed
    split
    · split <;> rfl
    · rfl
  | release =>
    unfold Pool.releaseEntry
    split
    · split <;> rfl
    · rfl
  | @installCreated c pc value now hc hset =>
    rcases installCreated_cases (p := s.pool) c pc value now with
      ⟨-, heq⟩ | ⟨-, -, -, heq⟩ | ⟨-, -, -, heq⟩ | ⟨-, -, heq⟩
    · rw [heq]; rfl
    · rw [heq]; rfl
    · rw [heq]; rfl
    · rw [heq]
      exact (sweep_evictIfNeeded (hp.allocate hc hset value now false).linked).same.maxSize
  | failCreate => rfl
  | remove key =>
    obtain ⟨q, hs, -, heq⟩ := sweep_remove hp.linked key
    rw [heq]
    exact hs.same.maxSize
  | cleanupIdle now order => exact (sweep_cleanupIdle now order).same.maxSize
  | closeFlag => rfl
  | drain order => exact (sweep_drain order).same.maxSize

end Pool

/-! ### Every reachable pool is in order -/

/-- Every effect keeps the order. -/
theorem Pool.Recency.effect {s : State V E} {p : Pool V E} {callers : List (Caller E)}
    {ev : List Event} (hp : Pool.Recency s.pool s.history) (hsh : Pool.Shape s.pool s.history)
    (he : Effect s p callers cl ev) : Pool.Recency p (ev ++ s.history) := by
  cases he with
  | quiet => exact hp.congr rfl rfl rfl
  | getOrCreate key now => exact hp.leaseOrJoin hsh.linked key now
  | giveUp => exact hp.congr rfl rfl rfl
  | awaitErr | await => exact hp
  | @claimSeed k i =>
    unfold Pool.claimSeed
    split
    · split
      · exact hp
      · exact hp.congr rfl rfl rfl
    · exact hp
  | @release k i =>
    unfold Pool.releaseEntry
    split
    · split <;> exact hp.congr rfl rfl rfl
    · exact hp
  | installCreated value now hc hset => exact hp.installCreated hsh hc hset value now
  | failCreate => exact hp.congr rfl rfl rfl
  | remove key =>
    obtain ⟨q, hs, -, heq⟩ := Pool.sweep_remove hsh.linked key
    have hq : Pool.Recency q (.removed key :: s.history) := (hp.sweep hs).event (by simp)
    rw [heq]
    exact hq.congr rfl rfl rfl
  | cleanupIdle now order => exact hp.sweep (Pool.sweep_cleanupIdle now order)
  | closeFlag => exact hp.congr rfl rfl rfl
  | drain order => exact hp.sweep (Pool.sweep_drain order)

variable {maxSize idleTTL : ℤ} {s : State V E}

/-- The order is kept along every run. -/
theorem reachable_recency (hs : (system V E maxSize idleTTL).Reachable s) :
    Pool.Recency s.pool s.history := by
  refine StepSystem.Reach.invariant (P := fun s ↦ Pool.Recency s.pool s.history) ?_ ?_ hs
  · rintro s rfl
    exact Pool.recency_new maxSize idleTTL
  · intro s l t hr _ hp ht
    obtain ⟨cl, ev, heff, -, hh⟩ := step_effect ht
    rw [hh]
    exact hp.effect (reachable_shape hr) heff

/-- The capacity is never written. -/
theorem reachable_maxSize (hs : (system V E maxSize idleTTL).Reachable s) :
    s.pool.maxSize = maxSize := by
  refine StepSystem.Reach.invariant (P := fun s ↦ s.pool.maxSize = maxSize) ?_ ?_ hs
  · rintro s rfl
    rfl
  · intro s l t hr _ hmax ht
    obtain ⟨cl, ev, heff, -, -⟩ := step_effect ht
    rw [← hmax]
    exact (reachable_shape hr).maxSize_effect heff

/-- **Capacity and eviction order.** In every reachable state the list is a permutation of the map
and a cached entry's element is its own node; a positive capacity is never exceeded; and an entry
that an install takes out of the map was last installed or leased before every other cached
entry. -/
theorem lru_permutation_capacity_victim (hs : (system V E maxSize idleTTL).Reachable s) :
    s.pool.lru.values.Perm s.pool.cachedEntries ∧
    (∀ k i, s.pool.entries.lookup k = some i → .touched i ∈ s.history ∧
      ∃ e n, s.pool.heap i = some e ∧ e.element = some n ∧ (n, i) ∈ s.pool.lru.nodes) ∧
    (0 < maxSize → (s.pool.entries.keys.length : ℤ) ≤ maxSize) ∧
    ∀ c value now t, s.step (.installCreated c value now) = some t →
      ∀ k i, s.pool.entries.lookup k = some i → t.pool.entries.lookup k ≠ some i →
      ∀ k' j, s.pool.entries.lookup k' = some j → j ≠ i →
        idleSince s.history j < idleSince s.history i := by
  have hp := reachable_shape hs
  have hr := reachable_recency hs
  refine ⟨hp.linked.values_perm, fun k i hk ↦ ⟨hr.touched (hp.linked.mem_values.2 ⟨k, hk⟩), ?_⟩,
    ?_, ?_⟩
  · obtain ⟨e, n, he, -, hn, hmem, -⟩ := hp.linked.cached hk
    exact ⟨e, n, he, hn, hmem⟩
  · rw [← reachable_maxSize hs]
    exact hr.capacity
  · intro c value now t ht k i hk hgone k' j hk' hji
    obtain ⟨pc, hc, hset, hpool⟩ := installCreated_eq_some ht
    rw [hpool] at hgone
    obtain ⟨n, hback⟩ := hp.back_of_install hc hset hk hgone
    exact hr.lt_back hback (hp.linked.mem_values.2 ⟨k', hk'⟩) hji

/-- Capacity two: `"a"` is installed before `"b"` but leased after it, so installing `"c"` evicts
`"b"`. -/
theorem lru_permutation_capacity_victim_lease_order : ∃ s t : State Unit Unit,
    (system Unit Unit 2 0).Reachable s ∧ s.step (.installCreated 2 () 6) = some t ∧
    s.pool.entries.lookup "a" = some 0 ∧ s.pool.entries.lookup "b" = some 1 ∧
    t.pool.entries.lookup "b" = none ∧ idleSince s.history 0 < idleSince s.history 1 := by
  have hrun : (system Unit Unit 2 0).run (.start 2 0) [.getOrCreate "a" 0,
      .installCreated 0 () 1, .getOrCreate "b" 2, .installCreated 1 () 3, .getOrCreate "a" 4,
      .getOrCreate "c" 5] = some _ := rfl
  have hs := StepSystem.reach_of_run (.init rfl) hrun
  exact ⟨_, _, hs, rfl, by decide, by decide, by decide, (lru_permutation_capacity_victim
    hs).2.2.2 2 () 6 _ rfl "b" 1 (by decide) (by decide) "a" 0 (by decide) (by decide)⟩

end ResourcePool
