import GoBricks.ResourcePool.Pool

/-!
# The ways out of the map

Eviction, `Remove`, idle cleanup and the drain of `Close` all do the same to an entry: take it out
of the map and the list, and then either leave it to its final release or mark it closed. `Sweep`
says that once, so that an invariant is carried through the four of them by one induction with two
real cases.

A sweep is only ever taken from a pool whose map and list agree (`Linked`): eviction picks its
victim from the list and removes it by key from the map, and that hits the same entry only because
the two correspond.
-/

namespace ResourcePool

open Function Option AList

variable {i : ℕ} {key : String} {cl : List ℕ}

namespace Pool

variable {V E : Type*} {p q : Pool V E}

/-! ### Map and list agree -/

/-- The map, the list and the entries point at each other. The entry of a running `installCreated`
has no list position yet, which is why `attached` speaks of entries that have one. -/
structure Linked (p : Pool V E) : Prop where
  /-- A cached entry carries its key, is neither detached nor closed, and its element is its own
  node. -/
  cached : ∀ {k : String} {i : ℕ}, p.entries.lookup k = some i → ∃ e n, p.heap i = some e ∧
    e.key = k ∧ e.element = some n ∧ (n, i) ∈ p.lru.nodes ∧ e.detached = false ∧ e.closed = false
  /-- A node leads to an entry cached under its key. -/
  listed : ∀ {n i : ℕ}, (n, i) ∈ p.lru.nodes → ∃ e, p.heap i = some e ∧ e.element = some n ∧
    p.entries.lookup e.key = some i
  /-- An entry with a list position is cached until it is detached. -/
  attached : ∀ {i n : ℕ} {e : Entry V}, p.heap i = some e → e.element = some n →
    e.detached = false → p.entries.lookup e.key = some i

/-- An entry is cached under one key. -/
theorem Linked.key_unique (h : Linked p) {k k' : String} (hk : p.entries.lookup k = some i)
    (hk' : p.entries.lookup k' = some i) : k = k' := by
  obtain ⟨e, -, he, rfl, -⟩ := h.cached hk
  obtain ⟨e', -, he', rfl, -⟩ := h.cached hk'
  rw [he, some_inj] at he'
  rw [he']

theorem linked_new (maxSize idleTTL : ℤ) : Linked (new maxSize idleTTL : Pool V E) where
  cached h := by simp [new] at h
  listed h := by simp [new] at h
  attached h := by simp [new] at h

/-- Agreement only looks at four fields. -/
theorem Linked.congr (h : Linked p) (hentries : q.entries = p.entries) (hheap : q.heap = p.heap)
    (hlru : q.lru = p.lru) : Linked q := by
  constructor
  · intro k i
    rw [hentries, hheap, hlru]
    exact h.cached
  · intro n i
    rw [hentries, hheap, hlru]
    exact h.listed
  · intro i n e
    rw [hentries, hheap]
    exact h.attached

theorem heap_updateEntry (i j : ℕ) (f : Entry V → Entry V) :
    (p.updateEntry i f).heap j = if j = i then (p.heap j).map f else p.heap j := by
  show update p.heap i _ j = _
  split
  · next h => rw [h, update_self]
  · next h => rw [update_of_ne h]

/-- A write that keeps an entry's key, position and flags keeps the agreement. -/
theorem Linked.updateEntry (h : Linked p) (i : ℕ) {f : Entry V → Entry V}
    (hf : ∀ e, (f e).key = e.key ∧ (f e).element = e.element ∧ (f e).detached = e.detached ∧
      (f e).closed = e.closed) : Linked (p.updateEntry i f) := by
  constructor
  · intro k j hj
    obtain ⟨e, n, he, hk, hn, hmem, hd, hc⟩ := h.cached (k := k) (i := j) hj
    by_cases hji : j = i
    · refine ⟨f e, n, ?_, (hf e).1.trans hk, (hf e).2.1.trans hn, hmem, (hf e).2.2.1.trans hd,
        (hf e).2.2.2.trans hc⟩
      rw [heap_updateEntry, if_pos hji, he, map_some]
    · exact ⟨e, n, by rw [heap_updateEntry, if_neg hji, he], hk, hn, hmem, hd, hc⟩
  · intro n j hj
    obtain ⟨e, he, hn, hk⟩ := h.listed (n := n) (i := j) hj
    by_cases hji : j = i
    · refine ⟨f e, ?_, (hf e).2.1.trans hn, ?_⟩
      · rw [heap_updateEntry, if_pos hji, he, map_some]
      · rw [(hf e).1]; exact hk
    · exact ⟨e, by rw [heap_updateEntry, if_neg hji, he], hn, hk⟩
  · intro j n e he hn hd
    rw [heap_updateEntry] at he
    split at he
    · obtain ⟨e₀, he₀, rfl⟩ := map_eq_some_iff.1 he
      rw [(hf e₀).1]
      exact h.attached he₀ ((hf e₀).2.1.symm.trans hn) ((hf e₀).2.2.1.symm.trans hd)
    · exact h.attached he hn hd

/-- Reordering the list keeps the agreement. -/
theorem Linked.moveToFront (h : Linked p) (n : Option ℕ) :
    Linked { p with lru := n.elim p.lru p.lru.moveToFront } := by
  cases n with
  | none => exact h.congr rfl rfl rfl
  | some n =>
    constructor
    · intro k i hi
      simpa using h.cached (k := k) (i := i) hi
    · intro m i hi
      exact h.listed (ElementList.mem_moveToFront.1 hi)
    · intro i m e
      exact h.attached

/-- Allocating an entry without a list position keeps the agreement. -/
theorem Linked.alloc (h : Linked p) {c : ℕ} (hc : p.heap c = none) {e : Entry V}
    (he : e.element = none) (hentries : q.entries = p.entries)
    (hheap : q.heap = update p.heap c (some e)) (hlru : q.lru = p.lru) : Linked q := by
  have hne : ∀ {i e'}, p.heap i = some e' → i ≠ c := by
    rintro i e' hi rfl
    exact absurd (hc.symm.trans hi) (by simp)
  constructor
  · intro k i hi
    rw [hentries] at hi
    obtain ⟨e', n, he', hrest⟩ := h.cached hi
    rw [hheap, hlru]
    exact ⟨e', n, by rw [update_of_ne (hne he'), he'], hrest⟩
  · intro n i hi
    rw [hlru] at hi
    obtain ⟨e', he', hrest⟩ := h.listed hi
    rw [hheap, hentries]
    exact ⟨e', by rw [update_of_ne (hne he'), he'], hrest⟩
  · intro i n e' he' hn hd
    rw [hheap] at he'
    rw [hentries]
    by_cases hic : i = c
    · subst hic
      rw [update_self, some_inj] at he'
      rw [← he', he] at hn
      exact absurd hn (by simp)
    · rw [update_of_ne hic] at he'
      exact h.attached he' hn hd

/-! ### Detaching one entry -/

theorem removeEntryLocked_of_none (h : p.entries.lookup key = none) :
    p.removeEntryLocked key = (p, none) := by
  simp only [removeEntryLocked, h]

/-- A cached entry is detached and taken off the list. -/
theorem removeEntryLocked_of_some (h : p.entries.lookup key = some i) :
    p.removeEntryLocked key =
      ({ p.updateEntry i fun e ↦ { e with detached := true } with
        lru := (p.elementOf i).elim p.lru p.lru.remove
        entries := p.entries.erase key }, some i) := by
  simp only [removeEntryLocked, h]

/-- Detaching keeps the agreement: the node removed is the entry's own. -/
theorem Linked.removeEntryLocked (h : Linked p) (key : String) :
    Linked (p.removeEntryLocked key).1 := by
  rcases hl : p.entries.lookup key with - | i
  · rw [removeEntryLocked_of_none hl]
    exact h
  obtain ⟨e, n, he, hk, hn, hmem, -, -⟩ := h.cached hl
  have helem : p.elementOf i = some n := by rw [elementOf, he, bind_some, hn]
  rw [removeEntryLocked_of_some hl]
  constructor
  · intro k j hj
    have hkk : k ≠ key := by
      rintro rfl
      exact absurd (hj.symm.trans (lookup_erase _ _)) (by simp)
    rw [lookup_erase_ne hkk] at hj
    obtain ⟨e', m, he', hk', hm, hmem', hd, hc⟩ := h.cached hj
    have hji : j ≠ i := by
      rintro rfl
      exact hkk (h.key_unique hj hl)
    refine ⟨e', m, ?_, hk', hm, ?_, hd, hc⟩
    · rw [heap_updateEntry, if_neg hji, he']
    · simp only [helem, elim_some, ElementList.mem_remove]
      refine ⟨hmem', fun hmn ↦ hji ?_⟩
      obtain rfl : m = n := hmn
      exact ElementList.eq_of_mem hmem' hmem
  · intro m j hj
    simp only [helem, elim_some, ElementList.mem_remove] at hj
    obtain ⟨e', he', hm, hk'⟩ := h.listed hj.1
    have hji : j ≠ i := by
      rintro rfl
      rw [he, some_inj] at he'
      rw [← he', hn, some_inj] at hm
      exact hj.2 hm.symm
    refine ⟨e', ?_, hm, ?_⟩
    · rw [heap_updateEntry, if_neg hji, he']
    · have hkk : e'.key ≠ key := by
        rintro hek
        rw [hek, hl, some_inj] at hk'
        exact hji hk'.symm
      rw [lookup_erase_ne hkk]
      exact hk'
  · intro j m e' he' hm hd
    have hji : j ≠ i := by
      rintro rfl
      rw [heap_updateEntry, if_pos rfl, he, map_some, some_inj] at he'
      rw [← he'] at hd
      exact absurd hd (by simp)
    rw [heap_updateEntry, if_neg hji] at he'
    have hlk := h.attached he' hm hd
    rw [lookup_erase_ne, hlk]
    rintro hek
    rw [hek, hl, some_inj] at hlk
    exact hji hlk.symm

/-- Closing an entry that is not cached keeps the agreement. -/
theorem Linked.markClosed (h : Linked p) (hi : ∀ k, p.entries.lookup k ≠ some i) :
    Linked (p.markClosed i) := by
  have hupd : ∀ {j}, j ≠ i → (p.markClosed i).heap j = p.heap j := by
    intro j hj
    rw [Pool.markClosed, heap_updateEntry, if_neg hj]
  constructor
  · intro k j hj
    obtain ⟨e, n, he, hrest⟩ := h.cached (k := k) (i := j) hj
    exact ⟨e, n, (hupd fun hji ↦ hi k (hji ▸ hj)).trans he, hrest⟩
  · intro n j hj
    obtain ⟨e, he, hn, hk⟩ := h.listed (n := n) (i := j) hj
    exact ⟨e, (hupd fun hji ↦ hi _ (hji ▸ hk)).trans he, hn, hk⟩
  · intro j n e he hn hd
    by_cases hji : j = i
    · subst hji
      rw [Pool.markClosed, heap_updateEntry, if_pos rfl] at he
      obtain ⟨e₀, he₀, rfl⟩ := map_eq_some_iff.1 he
      exact absurd (h.attached he₀ hn hd) (hi _)
    · rw [hupd hji] at he
      exact h.attached he hn hd

/-- A detached entry is cached under no key. -/
theorem Linked.not_cached_removeEntryLocked (h : Linked p) (hl : p.entries.lookup key = some i)
    (k : String) : (p.removeEntryLocked key).1.entries.lookup k ≠ some i := by
  rw [removeEntryLocked_of_some hl]
  intro hk
  by_cases hkk : k = key
  · rw [hkk, lookup_erase] at hk
    exact absurd hk (by simp)
  · rw [lookup_erase_ne hkk] at hk
    exact hkk (h.key_unique hk hl)

/-- Caching a detached-from-nothing entry under a free key keeps the agreement. -/
theorem Linked.cache (h : Linked p) {c : ℕ} {e : Entry V} (hfree : p.entries.lookup key = none)
    (hc : p.heap c = some e) (hkey : e.key = key) (helem : e.element = none)
    (hd : e.detached = false) (hcl : e.closed = false) : Linked (p.cache key c) := by
  have hself : (p.cache key c).heap c = some { e with element := some p.lru.next } := by
    show (p.updateEntry c _).heap c = _
    rw [heap_updateEntry, if_pos rfl, hc]
    rfl
  have hother : ∀ {j}, j ≠ c → (p.cache key c).heap j = p.heap j := by
    intro j hj
    show (p.updateEntry c _).heap j = _
    rw [heap_updateEntry, if_neg hj]
  have hlisted : ∀ {n j}, (n, j) ∈ p.lru.nodes → j ≠ c := by
    rintro n j hj rfl
    obtain ⟨e', he', hn, -⟩ := h.listed hj
    rw [hc, some_inj] at he'
    rw [← he', helem] at hn
    exact absurd hn (by simp)
  have hne : ∀ {k j}, p.entries.lookup k = some j → k ≠ key := by
    rintro k j hj rfl
    exact absurd (hj.symm.trans hfree) (by simp)
  have hlookup : ∀ {k}, k ≠ key → (p.cache key c).entries.lookup k = p.entries.lookup k :=
    fun hk ↦ lookup_insert_ne hk
  constructor
  · intro k j hj
    by_cases hk : k = key
    · subst hk
      obtain rfl : c = j := some_inj.1 ((lookup_insert p.entries).symm.trans hj)
      exact ⟨_, p.lru.next, hself, hkey, rfl, ElementList.mem_pushFront.2 (Or.inl rfl), hd, hcl⟩
    · rw [hlookup hk] at hj
      obtain ⟨e', n, he', hk', hn, hmem, hrest⟩ := h.cached hj
      exact ⟨e', n, (hother (hlisted hmem)).trans he', hk', hn,
        ElementList.mem_pushFront.2 (Or.inr hmem), hrest⟩
  · intro n j hj
    rcases ElementList.mem_pushFront.1 hj with hnew | hold
    · obtain ⟨rfl, rfl⟩ := Prod.mk.inj hnew
      refine ⟨_, hself, rfl, ?_⟩
      show (p.entries.insert key j).lookup e.key = _
      rw [hkey, lookup_insert]
    · obtain ⟨e', he', hn, hk⟩ := h.listed hold
      exact ⟨e', (hother (hlisted hold)).trans he', hn, (hlookup (hne hk)).trans hk⟩
  · intro j n e' he' hn hd'
    by_cases hj : j = c
    · subst hj
      rw [hself, some_inj] at he'
      rw [← he']
      show (p.entries.insert key j).lookup e.key = _
      rw [hkey, lookup_insert]
    · rw [hother hj] at he'
      have hk := h.attached he' hn hd'
      exact (hlookup (hne hk)).trans hk

/-! ### Sweeps -/

/-- `q` is `p` after taking some entries out of the map, those in `cl` being marked closed on the
way. A detached entry is left open only while it is leased, and closed only when no borrower holds
it; the drain of `Close` is the one path that discounts unclaimed seeds, in both directions. -/
inductive Sweep (p : Pool V E) : Pool V E → List ℕ → Prop
  | refl : Sweep p p []
  /-- Statistics move freely. -/
  | stats {q : Pool V E} {cl : List ℕ} (evictions removals idleCleanups errors : ℕ)
    (errs : List E) :
    Sweep p q cl → Sweep p { q with
      evictions := evictions, removals := removals, idleCleanups := idleCleanups
      errors := errors, cleanupErrs := errs } cl
  /-- Still leased: the close is left to the final release. -/
  | keep {q : Pool V E} {cl : List ℕ} {key : String} {i : ℕ} {e : Entry V} : Sweep p q cl →
    q.entries.lookup key = some i → q.heap i = some e → 0 < e.refs ∨ 0 < e.liveLeases →
    Sweep p (q.removeEntryLocked key).1 cl
  /-- Unleased, or leased by unclaimed seeds alone: closed now. -/
  | close {q : Pool V E} {cl : List ℕ} {key : String} {i : ℕ} {e : Entry V} : Sweep p q cl →
    q.entries.lookup key = some i → q.heap i = some e → e.refs ≤ 0 ∨ e.liveLeases ≤ 0 →
    Sweep p ((q.removeEntryLocked key).1.markClosed i) (cl ++ [i])

/-- What a sweep leaves alone. -/
structure SameCreates (p q : Pool V E) : Prop where
  pending : q.pending = p.pending
  generation : q.generation = p.generation
  inFlight : q.inFlight = p.inFlight
  creates : q.creates = p.creates
  maxSize : q.maxSize = p.maxSize
  idleTTL : q.idleTTL = p.idleTTL
  closed : q.closed = p.closed
  next : q.lru.next = p.lru.next

theorem SameCreates.removeEntryLocked {r : Pool V E} (h : SameCreates p r) (key : String) :
    SameCreates p (r.removeEntryLocked key).1 := by
  rcases hl : r.entries.lookup key with - | i
  · rw [removeEntryLocked_of_none hl]
    exact h
  · rw [removeEntryLocked_of_some hl]
    refine ⟨h.pending, h.generation, h.inFlight, h.creates, h.maxSize, h.idleTTL, h.closed, ?_⟩
    rw [← h.next]
    cases r.elementOf i <;> rfl

/-- A sweep touches no create. -/
theorem Sweep.same (h : Sweep p q cl) : SameCreates p q := by
  induction h with
  | refl => exact ⟨rfl, rfl, rfl, rfl, rfl, rfl, rfl, rfl⟩
  | stats _ _ _ _ _ _ ih =>
    exact ⟨ih.pending, ih.generation, ih.inFlight, ih.creates, ih.maxSize, ih.idleTTL, ih.closed,
      ih.next⟩
  | keep _ _ _ _ ih => exact ih.removeEntryLocked _
  | @close r _ key _ _ _ _ _ _ ih =>
    have h := ih.removeEntryLocked key
    exact ⟨h.pending, h.generation, h.inFlight, h.creates, h.maxSize, h.idleTTL, h.closed, h.next⟩

/-- A sweep keeps the map and the list linked. -/
theorem Sweep.linked (h : Sweep p q cl) (hp : Linked p) : Linked q := by
  induction h with
  | refl => exact hp
  | stats _ _ _ _ _ _ ih => exact ih.congr rfl rfl rfl
  | keep _ _ _ _ ih => exact ih.removeEntryLocked _
  | close _ hl _ _ ih => exact (ih.removeEntryLocked _).markClosed (ih.not_cached_removeEntryLocked
    hl)

/-- A sweep only takes keys out. -/
theorem lookup_of_removeEntryLocked {k : String}
    (h : (p.removeEntryLocked key).1.entries.lookup k = some i) : p.entries.lookup k = some i := by
  rcases hl : p.entries.lookup key with - | j
  · rwa [removeEntryLocked_of_none hl] at h
  · rw [removeEntryLocked_of_some hl] at h
    by_cases hk : k = key
    · rw [hk, lookup_erase] at h
      exact absurd h (by simp)
    · rwa [lookup_erase_ne hk] at h

theorem Sweep.lookup (h : Sweep p q cl) {k : String} (hq : q.entries.lookup k = some i) :
    p.entries.lookup k = some i := by
  induction h with
  | refl => exact hq
  | stats _ _ _ _ _ _ ih => exact ih hq
  | keep _ _ _ _ ih | close _ _ _ _ ih => exact ih (lookup_of_removeEntryLocked hq)

theorem heap_removeEntryLocked_of_ne {j : ℕ} (hl : p.entries.lookup key = some i) (hj : j ≠ i) :
    (p.removeEntryLocked key).1.heap j = p.heap j := by
  rw [removeEntryLocked_of_some hl]
  rw [heap_updateEntry, if_neg hj]

theorem heap_removeEntryLocked_self {e : Entry V} (hl : p.entries.lookup key = some i)
    (he : p.heap i = some e) :
    (p.removeEntryLocked key).1.heap i = some { e with detached := true } := by
  rw [removeEntryLocked_of_some hl]
  rw [heap_updateEntry, if_pos rfl, he]
  rfl

theorem heap_markClosed_of_ne {j : ℕ} (hj : j ≠ i) : (p.markClosed i).heap j = p.heap j := by
  rw [Pool.markClosed, heap_updateEntry, if_neg hj]

theorem heap_markClosed_self {e : Entry V} (he : p.heap i = some e) :
    (p.markClosed i).heap i = some { e with closed := true } := by
  rw [Pool.markClosed, heap_updateEntry, if_pos rfl, he]
  rfl

/-- Only cached entries are touched. -/
theorem Sweep.heap_of_not_cached (h : Sweep p q cl) {j : ℕ}
    (hj : ∀ k, p.entries.lookup k ≠ some j) : q.heap j = p.heap j := by
  induction h with
  | refl => rfl
  | stats _ _ _ _ _ _ ih => exact ih
  | @keep r _ key i _ hs hl _ _ ih =>
    have hji : j ≠ i := fun hji ↦ hj key (hji ▸ hs.lookup hl)
    rw [heap_removeEntryLocked_of_ne hl hji, ih]
  | @close r _ key i _ hs hl _ _ ih =>
    have hji : j ≠ i := fun hji ↦ hj key (hji ▸ hs.lookup hl)
    rw [heap_markClosed_of_ne hji, heap_removeEntryLocked_of_ne hl hji, ih]

/-- An entry that a sweep leaves attached it leaves untouched. -/
theorem Sweep.heap_of_attached (h : Sweep p q cl) {e : Entry V} (he : q.heap i = some e)
    (hd : e.detached = false) : p.heap i = some e := by
  induction h generalizing e with
  | refl => exact he
  | stats _ _ _ _ _ _ ih => exact ih he hd
  | @keep r _ key j e' _ hl he' _ ih =>
    by_cases hij : i = j
    · subst hij
      rw [heap_removeEntryLocked_self hl he', some_inj] at he
      exact absurd (he ▸ hd) (by simp)
    · rw [heap_removeEntryLocked_of_ne hl hij] at he
      exact ih he hd
  | @close r _ key j e' _ hl he' _ ih =>
    by_cases hij : i = j
    · subst hij
      rw [heap_markClosed_self (heap_removeEntryLocked_self hl he'), some_inj] at he
      exact absurd (he ▸ hd) (by simp)
    · rw [heap_markClosed_of_ne hij, heap_removeEntryLocked_of_ne hl hij] at he
      exact ih he hd

/-- The list keeps its order. -/
theorem Sweep.values_sublist (h : Sweep p q cl) : q.lru.values.Sublist p.lru.values := by
  have hstep : ∀ (r : Pool V E) (key : String),
      (r.removeEntryLocked key).1.lru.values.Sublist r.lru.values := by
    intro r key
    rcases hl : r.entries.lookup key with - | i
    · rw [removeEntryLocked_of_none hl]
    · rw [removeEntryLocked_of_some hl]
      cases r.elementOf i with
      | none => exact List.Sublist.refl _
      | some n => exact ElementList.values_remove_sublist n
  induction h with
  | refl => exact List.Sublist.refl _
  | stats _ _ _ _ _ _ ih => exact ih
  | keep _ _ _ _ ih | close _ _ _ _ ih => exact (hstep _ _).trans ih

/-! ### The four paths are sweeps -/

/-- An eviction is a sweep. -/
theorem sweep_evictIfNeeded (hp : Linked p) :
    Sweep p p.evictIfNeeded.1 (p.evictIfNeeded.2.map Prod.snd) := by
  unfold evictIfNeeded
  split
  · exact .refl
  split
  · exact .refl
  next n i hback =>
  obtain ⟨e, he, -, hl⟩ := hp.listed (List.mem_of_getLast? hback)
  simp only [he]
  split
  · next hrefs => exact .stats _ _ _ _ _ (.keep .refl hl he (Or.inl hrefs))
  · next hrefs => exact .stats _ _ _ _ _ (.close .refl hl he (Or.inl (by omega)))

/-- Visiting one key extends a sweep of the pool so far. -/
theorem sweep_cleanupKey {now : ℤ} {acc : Pool V E × List ℕ} (key : String)
    (h : Sweep p acc.1 acc.2) : Sweep p (cleanupKey now acc key).1 (cleanupKey now acc key).2 := by
  unfold cleanupKey
  split
  · exact h
  next i e hie =>
  obtain ⟨i', hl, hmap⟩ := bind_eq_some_iff.1 hie
  obtain ⟨e', he, hpair⟩ := map_eq_some_iff.1 hmap
  cases hpair
  split
  · split
    · next hrefs => exact .stats _ _ _ _ _ (.keep h hl he (Or.inl hrefs))
    · next hrefs => exact .stats _ _ _ _ _ (.close h hl he (Or.inl (by omega)))
  · exact h

theorem sweep_cleanupIdle (now : ℤ) (order : List String) :
    Sweep p (p.cleanupIdle now order).1 (p.cleanupIdle now order).2 := by
  unfold cleanupIdle
  split
  · exact .refl
  · exact List.foldlRecOn order (cleanupKey now) (motive := fun acc ↦ Sweep p acc.1 acc.2)
      (b := (p, [])) .refl fun _ h key _ ↦ sweep_cleanupKey key h

theorem sweep_drainKey {acc : Pool V E × List ℕ} (key : String) (h : Sweep p acc.1 acc.2) :
    Sweep p (drainKey acc key).1 (drainKey acc key).2 := by
  unfold drainKey
  split
  · exact h
  next i e hie =>
  obtain ⟨i', hl, hmap⟩ := bind_eq_some_iff.1 hie
  obtain ⟨e', he, hpair⟩ := map_eq_some_iff.1 hmap
  cases hpair
  split
  · next hlive => exact .keep h hl he (Or.inr hlive)
  · next hlive => exact .close h hl he (Or.inr (by omega))

/-- So is the drain. -/
theorem sweep_drain (order : List String) : Sweep p (p.drain order).1 (p.drain order).2 :=
  List.foldlRecOn order drainKey (motive := fun acc ↦ Sweep p acc.1 acc.2)
    (b := ({ p with cleanupErrs := [] }, [])) (.stats _ _ _ _ _ .refl)
    fun _ h key _ ↦ sweep_drainKey key h

/-- `Remove` is a sweep of at most one entry, and with a create in flight also moves the generation
and forgets the pending create. -/
theorem sweep_remove (hp : Linked p) (key : String) : ∃ q,
    Sweep p q (p.remove key).2.toList ∧ q.entries.lookup key = none ∧
    (p.remove key).1 = { q with
      generation := if 0 < p.inFlightOf key then q.generation.insert key (q.generationOf key + 1)
        else q.generation
      pending := if 0 < p.inFlightOf key then q.pending.erase key else q.pending } := by
  rcases hl : p.entries.lookup key with - | i
  · -- nothing cached under the key
    have hrem := removeEntryLocked_of_none hl
    by_cases hfl : 0 < p.inFlightOf key
    · refine ⟨{ p with removals := p.removals + 1 }, ?_, hl, ?_⟩
      · simp only [remove, hl, hrem, hfl, Option.bind_none]
        exact .stats _ _ _ _ _ .refl
      · simp only [remove, hl, hrem, hfl, Option.bind_none, not_true_eq_false, and_false, if_false,
          if_true]
        rfl
    · refine ⟨p, ?_, hl, ?_⟩
      · simp only [remove, hl, hrem, hfl, not_false_eq_true, and_self, if_true]
        exact .refl
      · simp only [remove, hl, hrem, hfl, not_false_eq_true, and_self, if_true, if_false]
  · obtain ⟨e, -, he, -, -, -, -, hopen⟩ := hp.cached hl
    have hfree : (p.removeEntryLocked key).1.entries.lookup key = none := by
      rw [removeEntryLocked_of_some hl]
      exact AList.lookup_erase _ _
    have hself := heap_removeEntryLocked_self hl he
    have hinFlight : (p.removeEntryLocked key).1.inFlightOf key = p.inFlightOf key := by
      rw [inFlightOf, inFlightOf, ((Sweep.refl : Sweep p p []).same.removeEntryLocked key).inFlight]
    set r := (p.removeEntryLocked key).1 with hr
    by_cases hrefs : e.refs ≤ 0
    · refine ⟨{ r.markClosed i with removals := r.removals + 1 }, ?_⟩
      simp only [remove, hl, ← hr, hinFlight, hself, hrefs, hopen, reduceCtorEq, false_and,
        if_false, Option.bind_some, Option.map_some, Bool.false_eq_true, not_false_eq_true,
        and_self, if_true]
      exact ⟨.stats _ _ _ _ _ (.close .refl hl he (Or.inl hrefs)), hfree, rfl⟩
    · refine ⟨{ r with removals := r.removals + 1 }, ?_⟩
      simp only [remove, hl, ← hr, hinFlight, hself, hrefs, reduceCtorEq, false_and, if_false,
        Option.bind_some, Option.map_some]
      exact ⟨.stats _ _ _ _ _ (.keep .refl hl he (Or.inl (by omega))), hfree, rfl⟩

end Pool

end ResourcePool
