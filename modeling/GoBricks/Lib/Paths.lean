import Mathlib.Data.List.Dedup

/-!
# Entries by paths

A list of entries, each at a **path** of segments. `heads` are the first segments of the paths, and
`below` is what is left of the entries under one of them: the levels of a tree.

A list is prefix free when no path goes on from another one; then so is what is below a segment
(`PrefixFree.below`).
-/

namespace Paths

variable {σ α : Type}

/-- The values of the entries at the empty path. -/
def here (E : List (List σ × α)) : List α :=
  (E.filter (·.1.isEmpty)).map Prod.snd

variable {E : List (List σ × α)}

theorem mem_here {a : α} : a ∈ here E ↔ ([], a) ∈ E := by
  rw [here, List.mem_map]
  constructor
  · rintro ⟨⟨p, b⟩, hmem, rfl⟩
    obtain ⟨he, hempty⟩ := List.mem_filter.mp hmem
    cases List.isEmpty_iff.mp hempty
    exact he
  · intro h
    exact ⟨([], a), List.mem_filter.mpr ⟨h, rfl⟩, rfl⟩

/-- No path goes on from another one. -/
def PrefixFree (E : List (List σ × α)) : Prop :=
  ∀ e ∈ E, ∀ e' ∈ E, e.1 <+: e'.1 → e.1 = e'.1

/-- The length of the longest path. -/
def depth (E : List (List σ × α)) : ℕ :=
  E.foldr (fun e n ↦ max e.1.length n) 0

theorem length_le_depth {e : List σ × α} (he : e ∈ E) : e.1.length ≤ depth E := by
  induction E with
  | nil => cases he
  | cons e' E ih =>
    rcases List.mem_cons.mp he with rfl | he
    · exact Nat.le_max_left _ _
    · exact Nat.le_trans (ih he) (Nat.le_max_right _ _)

/-- Entries with no two paths alike, all of them at the empty one. -/
theorem eq_singleton (hnodup : (E.map Prod.fst).Nodup) (hpaths : ∀ e ∈ E, e.1 = []) {a : α}
    (ha : ([], a) ∈ E) : E = [([], a)] := by
  have hall : E.map Prod.fst = List.replicate E.length [] := by
    rw [List.eq_replicate_iff]
    refine ⟨List.length_map _, fun p hp ↦ ?_⟩
    obtain ⟨e, he, rfl⟩ := List.mem_map.mp hp
    exact hpaths e he
  rw [hall, List.nodup_replicate] at hnodup
  obtain ⟨e, rfl⟩ := List.length_eq_one_iff.mp
    (Nat.le_antisymm hnodup (List.length_pos_of_mem ha))
  rw [List.mem_singleton.mp ha]

variable [DecidableEq σ]

/-- The first segments of the paths, each of them once. -/
def heads (E : List (List σ × α)) : List σ :=
  (E.filterMap (·.1.head?)).dedup

theorem mem_heads {seg : σ} : seg ∈ heads E ↔ ∃ p a, (seg :: p, a) ∈ E := by
  rw [heads, List.mem_dedup, List.mem_filterMap]
  constructor
  · rintro ⟨⟨p, a⟩, he, hhead⟩
    cases p with
    | nil => cases hhead
    | cons s p =>
      cases hhead
      exact ⟨p, a, he⟩
  · rintro ⟨p, a, he⟩
    exact ⟨(seg :: p, a), he, rfl⟩

/-- An entry under a segment, with the segment taken off. -/
def strip (seg : σ) : List σ × α → Option (List σ × α)
  | ([], _) => none
  | (s :: p, a) => if s = seg then some (p, a) else none

theorem strip_eq_some_iff {seg : σ} {e : List σ × α} {p : List σ} {a : α} :
    strip seg e = some (p, a) ↔ e = (seg :: p, a) := by
  obtain ⟨q, b⟩ := e
  cases q with
  | nil => simp [strip]
  | cons s q =>
    rw [strip]
    by_cases hs : s = seg
    · subst hs
      simp
    · simp [hs]

/-- The entries under a segment. -/
def below (seg : σ) (E : List (List σ × α)) : List (List σ × α) :=
  E.filterMap (strip seg)

theorem mem_below {seg : σ} {p : List σ} {a : α} : (p, a) ∈ below seg E ↔ (seg :: p, a) ∈ E := by
  rw [below, List.mem_filterMap]
  simp only [strip_eq_some_iff]
  exact ⟨fun ⟨e, he, heq⟩ ↦ heq ▸ he, fun h ↦ ⟨_, h, rfl⟩⟩

theorem nodup_below {seg : σ} (h : (E.map Prod.fst).Nodup) :
    ((below seg E).map Prod.fst).Nodup := by
  induction E with
  | nil => exact List.nodup_nil
  | cons e E ih =>
    obtain ⟨hnot, hnodup⟩ := List.nodup_cons.mp h
    rw [below, List.filterMap_cons]
    split
    · exact ih hnodup
    · next x hx =>
      rw [strip_eq_some_iff] at hx
      subst hx
      refine List.nodup_cons.mpr ⟨fun hmem ↦ hnot ?_, ih hnodup⟩
      obtain ⟨⟨q, b⟩, hq, heq⟩ := List.mem_map.mp hmem
      cases heq
      exact List.mem_map.mpr ⟨_, mem_below.mp hq, rfl⟩

theorem PrefixFree.below (h : PrefixFree E) (seg : σ) : PrefixFree (below seg E) := by
  rintro ⟨p, a⟩ he ⟨q, b⟩ he' hpre
  have heq := h _ (mem_below.mp he) _ (mem_below.mp he') ((List.prefix_cons_inj seg).mpr hpre)
  exact (List.cons.inj heq).2

end Paths
