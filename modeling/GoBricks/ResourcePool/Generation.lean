import GoBricks.Lib.ListUpdate
import GoBricks.ResourcePool.Effect
import GoBricks.ResourcePool.Sweep

/-!
# Generations: which creates may still be cached

`Remove(key)` moves the key's generation so that a create already in flight is delivered to its
waiters but never cached. The counter is deleted with the last create in flight and then restarts
from zero, so comparing it with a captured value is sound only because **no create outlives the
counter it captured from**. The invariant that carries this is `Generations`: for every create in
flight, "its captured value is current", "it is the key's pending create" and "no `Remove` of the
key since it began" are one and the same.
-/

namespace ResourcePool

open List Option AList

variable {V E : Type*}

/-- The create is still in flight, for `key`. -/
def PendingCreate.runsFor (key : String) (pc : PendingCreate E) : Bool :=
  !pc.settled && pc.key = key

/-- `Remove(key)` ran since create `c` began. The history is newest first. -/
def RemovedSince (h : List Event) (c : ℕ) (key : String) : Prop :=
  .removed key ∈ h.takeWhile (· ≠ .began c)

section RemovedSince

variable {h : List Event} {c : ℕ} {key : String}

/-- A create that just began saw no removal. -/
theorem not_removedSince_began : ¬RemovedSince (.began c :: h) c key := by
  simp [RemovedSince]

theorem removedSince_removed : RemovedSince (.removed key :: h) c key := by
  simp [RemovedSince]

/-- An event other than these two changes nothing. -/
theorem removedSince_cons {ev : Event} (hb : ev ≠ .began c) (hr : ev ≠ .removed key) :
    RemovedSince (ev :: h) c key ↔ RemovedSince h c key := by
  simp [RemovedSince, hb, hr.symm]

end RemovedSince

namespace Pool

variable {p q : Pool V E} {h : List Event}

/-- What a create in flight knows about its key. -/
structure Valid (p : Pool V E) (h : List Event) (c : ℕ) (pc : PendingCreate E) : Prop where
  /-- Generations only move forward while somebody can compare. -/
  le : pc.gen ≤ p.generationOf pc.key
  /-- Current means joinable. -/
  pending : pc.gen = p.generationOf pc.key ↔ p.pending.lookup pc.key = some c
  /-- Current means not removed since. -/
  since : pc.gen = p.generationOf pc.key ↔ ¬RemovedSince h c pc.key
  /-- The beginning is on record. -/
  began : .began c ∈ h

/-- The bookkeeping of creates in flight. -/
structure Generations (p : Pool V E) (h : List Event) : Prop where
  /-- `inFlight` counts the unsettled creates. -/
  inFlight : ∀ k, p.inFlightOf k = p.creates.countP (PendingCreate.runsFor k)
  valid : ∀ {c : ℕ} {pc : PendingCreate E}, p.creates[c]? = some pc → pc.settled = false →
    Valid p h c pc
  /-- A joinable create is in flight for its key. -/
  pending : ∀ {k : String} {c : ℕ}, p.pending.lookup k = some c →
    ∃ pc, p.creates[c]? = some pc ∧ pc.settled = false ∧ pc.key = k
  /-- A cached key has no create to join. -/
  exclusive : ∀ {k : String} {i : ℕ}, p.entries.lookup k = some i → p.pending.lookup k = none

theorem generations_new (maxSize idleTTL : ℤ) :
    Generations (new maxSize idleTTL : Pool V E) [] where
  inFlight k := by simp [new, inFlightOf]
  valid h := by simp [new] at h
  pending h := by simp [new] at h
  exclusive h := by simp [new] at h

/-- With no create in flight for `k`, none is unsettled for it. -/
theorem Generations.key_ne (hp : Generations p h) {k : String} (hk : p.inFlightOf k ≤ 0) {c : ℕ}
    {pc : PendingCreate E} (hc : p.creates[c]? = some pc) (hset : pc.settled = false) :
    pc.key ≠ k := by
  rintro rfl
  have hpos : 0 < p.creates.countP (PendingCreate.runsFor pc.key) :=
    countP_pos_iff.2 ⟨pc, mem_of_getElem? hc, by simp [PendingCreate.runsFor, hset]⟩
  rw [hp.inFlight] at hk
  omega

/-- A create in flight is counted. -/
theorem Generations.inFlight_pos (hp : Generations p h) {c : ℕ} {pc : PendingCreate E}
    (hc : p.creates[c]? = some pc) (hset : pc.settled = false) : 0 < p.inFlightOf pc.key := by
  by_contra hle
  exact hp.key_ne (Int.not_lt.1 hle) hc hset rfl

/-- Nothing but the creates' bookkeeping and the cached keys matters. -/
theorem Generations.congr (hp : Generations p h) (hpending : q.pending = p.pending)
    (hgeneration : q.generation = p.generation) (hinFlight : q.inFlight = p.inFlight)
    (hcreates : q.creates = p.creates)
    (hentries : ∀ {k i}, q.entries.lookup k = some i → ∃ j, p.entries.lookup k = some j) :
    Generations q h where
  inFlight k := by rw [inFlightOf, hinFlight, hcreates]; exact hp.inFlight k
  valid := by
    intro c pc hc hset
    rw [hcreates] at hc
    obtain ⟨hle, hpend, hsince, hbegan⟩ := hp.valid hc hset
    refine ⟨?_, ?_, ?_, hbegan⟩
    · rw [generationOf, hgeneration]; exact hle
    · rw [generationOf, hgeneration, hpending]; exact hpend
    · rw [generationOf, hgeneration]; exact hsince
  pending := by
    intro k c hk
    rw [hpending] at hk
    rw [hcreates]
    exact hp.pending hk
  exclusive := by
    intro k i hk
    obtain ⟨j, hj⟩ := hentries hk
    rw [hpending]
    exact hp.exclusive hj

/-- A sweep is no removal. -/
theorem Generations.sweep (hp : Generations p h) {cl : List ℕ} (hs : Sweep p q cl) :
    Generations q h :=
  hp.congr hs.same.pending hs.same.generation hs.same.inFlight hs.same.creates
    fun hk ↦ ⟨_, hs.lookup hk⟩

/-- An event that begins or removes nothing is invisible here. -/
theorem Generations.event (hp : Generations p h) {ev : Event} (hb : ∀ c, ev ≠ .began c)
    (hr : ∀ k, ev ≠ .removed k) : Generations p (ev :: h) := by
  refine ⟨hp.inFlight, fun hc hset ↦ ?_, hp.pending, hp.exclusive⟩
  obtain ⟨hle, hpend, hsince, hbegan⟩ := hp.valid hc hset
  exact ⟨hle, hpend, by rw [removedSince_cons (hb _) (hr _)]; exact hsince,
    mem_cons_of_mem _ hbegan⟩

/-- A write through a create pointer that keeps key, generation and settlement. -/
theorem Generations.updateCreate (hp : Generations p h) (c : ℕ)
    {f : PendingCreate E → PendingCreate E}
    (hf : ∀ pc, (f pc).key = pc.key ∧ (f pc).gen = pc.gen ∧ (f pc).settled = pc.settled) :
    Generations (p.updateCreate c f) h := by
  have hread : ∀ {j : ℕ} {pc' : PendingCreate E}, (p.updateCreate c f).creates[j]? = some pc' →
    ∃ pc, p.creates[j]? = some pc ∧ pc'.key = pc.key ∧ pc'.gen = pc.gen ∧
      pc'.settled = pc.settled := by
    intro j pc' hj
    change (p.creates.modify c f)[j]? = _ at hj
    rw [List.getElem?_modify] at hj
    obtain ⟨pc, hpc, rfl⟩ := map_eq_some_iff.1 hj
    refine ⟨pc, hpc, ?_⟩
    split
    · exact hf pc
    · exact ⟨rfl, rfl, rfl⟩
  refine ⟨fun k ↦ ?_, fun {j pc'} hj hset ↦ ?_, fun {k j} hk ↦ ?_, hp.exclusive⟩
  · show p.inFlightOf k = ((p.creates.modify c f).countP _ : ℕ)
    rw [countP_modify_of_eq, hp.inFlight]
    intro pc
    rw [PendingCreate.runsFor, PendingCreate.runsFor, (hf pc).1, (hf pc).2.2]
  · obtain ⟨pc, hpc, hkey, hgen, hset'⟩ := hread hj
    obtain ⟨hle, hpend, hsince, hbegan⟩ := hp.valid hpc (hset' ▸ hset)
    rw [← hkey, ← hgen] at hle hpend
    rw [← hkey, ← hgen] at hsince
    exact ⟨hle, hpend, hsince, hbegan⟩
  · obtain ⟨pc, hpc, hset, hkey⟩ := hp.pending hk
    show ∃ pc', (p.creates.modify c f)[j]? = some pc' ∧ _
    rw [List.getElem?_modify, hpc]
    refine ⟨_, rfl, ?_⟩
    split
    · exact ⟨(hf pc).2.2.trans hset, (hf pc).1.trans hkey⟩
    · exact ⟨hset, hkey⟩

/-! ### Beginning and ending a create -/

/-- A create begins for a key that has neither an entry nor a create to join. -/
theorem Generations.begin (hp : Generations p h) {key : String}
    (hentry : p.entries.lookup key = none) (hpend : p.pending.lookup key = none) :
    Generations (p.beginCreateLocked key).1 (.began p.creates.length :: h) := by
  set new : PendingCreate E :=
    { key := key, gen := p.generationOf key, waiters := 0, settled := false, e := none,
      err := none } with hnew
  have hcreates : (p.beginCreateLocked key).1.creates = p.creates ++ [new] := rfl
  have hpending : (p.beginCreateLocked key).1.pending = p.pending.insert key p.creates.length := rfl
  refine ⟨fun k ↦ ?_, fun {c pc} hc hset ↦ ?_, fun {k c} hk ↦ ?_, fun {k i} hk ↦ ?_⟩
  · rw [hcreates, countP_append, countP_singleton]
    show ((p.inFlight.insert key (p.inFlightOf key + 1)).lookup k).getD 0 = _
    by_cases hk : k = key
    · subst hk
      simp [lookup_insert, hp.inFlight, hnew, PendingCreate.runsFor]
    · rw [lookup_insert_ne hk]
      simpa [hnew, PendingCreate.runsFor, Ne.symm hk, inFlightOf] using hp.inFlight k
  · rw [hcreates, List.getElem?_concat_eq_some] at hc
    rcases hc with hc | ⟨rfl, rfl⟩
    · have hne : c ≠ p.creates.length := Nat.ne_of_lt (List.getElem?_eq_some_iff.1 hc).1
      obtain ⟨hle, hval, hsince, hbegan⟩ := hp.valid hc hset
      refine ⟨hle, ?_, ?_, mem_cons_of_mem _ hbegan⟩
      · rw [hpending]
        by_cases hk : pc.key = key
        · -- the older create was no longer joinable, and the new one is pending instead
          rw [hk, lookup_insert, some_inj, eq_comm (a := p.creates.length)]
          rw [hk, hpend] at hval
          simp only [reduceCtorEq, iff_false] at hval
          exact ⟨fun hg ↦ absurd (hk ▸ hg) hval, fun hcl ↦ absurd hcl hne⟩
        · rw [lookup_insert_ne hk]
          exact hval
      · rw [removedSince_cons (by simpa using hne.symm) (by simp)]
        exact hsince
    · exact ⟨Nat.le_refl _, ⟨fun _ ↦ lookup_insert _, fun _ ↦ rfl⟩,
        ⟨fun _ ↦ not_removedSince_began, fun _ ↦ rfl⟩, mem_cons_self⟩
  · rw [hpending] at hk
    by_cases hkk : k = key
    · subst hkk
      rw [lookup_insert, some_inj] at hk
      exact ⟨new, List.getElem?_concat_eq_some.2 (Or.inr ⟨hk.symm, rfl⟩), rfl, rfl⟩
    · rw [lookup_insert_ne hkk] at hk
      obtain ⟨pc, hpc, hrest⟩ := hp.pending hk
      exact ⟨pc, List.getElem?_concat_eq_some.2 (Or.inl hpc), hrest⟩
  · rw [hpending]
    have hkk : k ≠ key := by
      rintro rfl
      exact absurd (hentry.symm.trans hk) (by simp)
    rw [lookup_insert_ne hkk]
    exact hp.exclusive hk

section EndCreate

variable {c : ℕ} {pc : PendingCreate E} {key k : String}

theorem creates_endCreateLocked (hc : p.creates[c]? = some pc) :
    (p.endCreateLocked key c).creates = p.creates.set c { pc with settled := true } :=
  modify_eq_set_of_getElem? hc _

theorem inFlightOf_endCreateLocked (hpos : 0 < p.inFlightOf key) :
    (p.endCreateLocked key c).inFlightOf k =
      if k = key then p.inFlightOf k - 1 else p.inFlightOf k := by
  show ((if p.inFlightOf key - 1 ≤ 0 then p.inFlight.erase key
    else p.inFlight.insert key (p.inFlightOf key - 1)).lookup k).getD 0 = _
  by_cases hk : k = key
  · subst hk
    split
    · simp only [lookup_erase, getD_none, if_true]
      omega
    · simp only [lookup_insert, getD_some, if_true]
  · split
    · rw [lookup_erase_ne hk, inFlightOf]
    · rw [lookup_insert_ne hk, inFlightOf]

theorem lookup_pending_endCreateLocked : (p.endCreateLocked key c).pending.lookup k =
    if k = key ∧ p.pending.lookup key = some c then none else p.pending.lookup k := by
  show (if p.pending.lookup key = some c then p.pending.erase key else p.pending).lookup k = _
  by_cases hk : k = key
  · subst hk
    by_cases hc : p.pending.lookup k = some c
    · rw [if_pos hc, lookup_erase, if_pos ⟨rfl, hc⟩]
    · rw [if_neg hc, if_neg fun h ↦ hc h.2]
  · rw [if_neg (c := k = key ∧ _) fun h ↦ hk h.1]
    split
    · rw [lookup_erase_ne hk]
    · rfl

/-- A generation is kept while creates of its key are in flight. -/
theorem generationOf_endCreateLocked (h : k = key → 1 < p.inFlightOf key) :
    (p.endCreateLocked key c).generationOf k = p.generationOf k := by
  show ((if p.inFlightOf key - 1 ≤ 0 then p.generation.erase key
    else p.generation).lookup k).getD 0 = _
  split
  · next hlast =>
    have hk : k ≠ key := fun hk ↦ by
      have := h hk
      omega
    rw [lookup_erase_ne hk, generationOf]
  · rfl

/-- Settling one create takes it out of its key's count. -/
theorem countP_settle (hc : p.creates[c]? = some pc) (hset : pc.settled = false) (k : String) :
    (p.creates.set c { pc with settled := true }).countP (PendingCreate.runsFor k) +
      (if k = pc.key then 1 else 0) = p.creates.countP (PendingCreate.runsFor k) := by
  have hadd := countP_set_add hc (PendingCreate.runsFor k) { pc with settled := true }
  have hold : PendingCreate.runsFor k pc = decide (k = pc.key) := by
    simp [PendingCreate.runsFor, hset, eq_comm]
  have hnew : PendingCreate.runsFor k { pc with settled := true } = false := by
    simp [PendingCreate.runsFor]
  simpa [hold, hnew] using hadd

/-- Ending `c` removes it from the bookkeeping; the generation goes with the last create in flight,
when nobody is left to compare with it. -/
theorem Generations.endCreate (hp : Generations p h) (hc : p.creates[c]? = some pc)
    (hset : pc.settled = false) : Generations (p.endCreateLocked pc.key c) h := by
  have hpos := hp.inFlight_pos hc hset
  have hinFlight : ∀ k, (p.endCreateLocked pc.key c).inFlightOf k =
      ((p.endCreateLocked pc.key c).creates.countP (PendingCreate.runsFor k) : ℕ) := by
    intro k
    have hcount := countP_settle hc hset k
    have hk := hp.inFlight k
    rw [creates_endCreateLocked hc, inFlightOf_endCreateLocked hpos]
    by_cases hkk : k = pc.key
    · rw [if_pos hkk] at hcount ⊢
      omega
    · rw [if_neg hkk] at hcount ⊢
      omega
  have hread : ∀ {j : ℕ} {pc' : PendingCreate E},
      (p.endCreateLocked pc.key c).creates[j]? = some pc' → pc'.settled = false →
      j ≠ c ∧ p.creates[j]? = some pc' := by
    intro j pc' hj hset'
    rw [creates_endCreateLocked hc, List.getElem?_set_eq_some hc] at hj
    rcases hj with ⟨-, rfl⟩ | hj
    · exact absurd hset' (by simp)
    · exact hj
  refine ⟨hinFlight, fun {j pc'} hj hset' ↦ ?_, fun {k j} hk ↦ ?_, fun {k i} hk ↦ ?_⟩
  · obtain ⟨hjc, hj₀⟩ := hread hj hset'
    obtain ⟨hle, hval, hsince, hbegan⟩ := hp.valid hj₀ hset'
    -- `pc'` is still in flight, so ending `c` leaves its key's generation in place
    have hgen : (p.endCreateLocked pc.key c).generationOf pc'.key = p.generationOf pc'.key := by
      refine generationOf_endCreateLocked fun heq ↦ ?_
      have hpos' := countP_pos_iff.2 ⟨pc', mem_of_getElem? hj,
        show PendingCreate.runsFor pc.key pc' = true by simp [PendingCreate.runsFor, hset', heq]⟩
      have hend := hinFlight pc.key
      rw [inFlightOf_endCreateLocked hpos, if_pos rfl] at hend
      omega
    refine ⟨hgen ▸ hle, ?_, by rw [hgen]; exact hsince, hbegan⟩
    rw [hgen, hval, lookup_pending_endCreateLocked]
    split
    · next hcur =>
      rw [hcur.1, hcur.2]
      simp [Ne.symm hjc]
    · rfl
  · rw [lookup_pending_endCreateLocked] at hk
    split at hk
    · exact absurd hk (by simp)
    · next hcur =>
      obtain ⟨pc', hpc', hset', hkey⟩ := hp.pending hk
      have hjc : j ≠ c := by
        rintro rfl
        rw [hc, some_inj] at hpc'
        rw [← hkey, ← hpc'] at hk hcur
        exact hcur ⟨rfl, hk⟩
      refine ⟨pc', ?_, hset', hkey⟩
      rw [creates_endCreateLocked hc]
      exact (List.getElem?_set_eq_some hc).2 (Or.inr ⟨hjc, hpc'⟩)
  · have hnone := hp.exclusive (k := k) (i := i) hk
    rw [lookup_pending_endCreateLocked, hnone]
    split <;> rfl

end EndCreate

/-! ### Remove -/

/-- Recording a `Remove` of a key with no create in flight. -/
theorem Generations.removed (hp : Generations p h) {key : String} (hkey : p.inFlightOf key ≤ 0) :
    Generations p (.removed key :: h) := by
  refine ⟨hp.inFlight, fun hc hset ↦ ?_, hp.pending, hp.exclusive⟩
  obtain ⟨hle, hval, hsince, hbegan⟩ := hp.valid hc hset
  have hne := hp.key_ne hkey hc hset
  refine ⟨hle, hval, ?_, mem_cons_of_mem _ hbegan⟩
  rw [removedSince_cons (by simp) (by simpa using Ne.symm hne)]
  exact hsince

/-- Moving the generation of a key and forgetting its pending create makes every create in flight
for the key stale, and touches no other. -/
theorem Generations.invalidate (hp : Generations p h) (key : String) :
    Generations { p with
      generation := p.generation.insert key (p.generationOf key + 1)
      pending := p.pending.erase key } (.removed key :: h) := by
  refine ⟨hp.inFlight, fun {c pc} hc hset ↦ ?_, fun {k c} hk ↦ ?_, fun {k i} hk ↦ ?_⟩
  · obtain ⟨hle, hval, hsince, hbegan⟩ := hp.valid hc hset
    have hmem := mem_cons_of_mem (.removed key) hbegan
    by_cases hkey : pc.key = key
    · have hgen : ((p.generation.insert key (p.generationOf key + 1)).lookup pc.key).getD 0 =
          p.generationOf pc.key + 1 := by
        rw [hkey, lookup_insert, getD_some]
      refine ⟨?_, ?_, ?_, hmem⟩
      · rw [generationOf, hgen]
        omega
      · rw [generationOf, hgen, hkey, lookup_erase]
        simp only [reduceCtorEq, iff_false]
        rw [← hkey]
        omega
      · rw [generationOf, hgen, hkey, iff_false_right (not_not.2 removedSince_removed), ← hkey]
        omega
    · have hgen : ((p.generation.insert key (p.generationOf key + 1)).lookup pc.key).getD 0 =
          p.generationOf pc.key := by
        rw [lookup_insert_ne hkey, generationOf]
      refine ⟨?_, ?_, ?_, hmem⟩
      · rw [generationOf, hgen]
        exact hle
      · rw [generationOf, hgen, lookup_erase_ne hkey]
        exact hval
      · rw [generationOf, hgen, removedSince_cons (by simp) (by simpa using Ne.symm hkey)]
        exact hsince
  · by_cases hkey : k = key
    · rw [hkey, lookup_erase] at hk
      exact absurd hk (by simp)
    · rw [lookup_erase_ne hkey] at hk
      exact hp.pending hk
  · by_cases hkey : k = key
    · rw [hkey, lookup_erase]
    · rw [lookup_erase_ne hkey]
      exact hp.exclusive hk

/-- A removal starts a new generation. -/
theorem Generations.remove (hp : Generations p h) (hl : Linked p) (key : String) :
    Generations (p.remove key).1 (.removed key :: h) := by
  obtain ⟨q, hs, -, heq⟩ := sweep_remove hl key
  have hq := hp.sweep hs
  have hfl : q.inFlightOf key = p.inFlightOf key := by
    rw [inFlightOf, inFlightOf, hs.same.inFlight]
  rw [heq]
  by_cases hpos : 0 < p.inFlightOf key
  · simp only [hpos, if_true]
    exact hq.invalidate key
  · simp only [hpos, if_false]
    exact hq.removed (by omega)

end Pool

end ResourcePool
