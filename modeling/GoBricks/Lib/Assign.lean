import Mathlib.Data.List.Induction

/-!
# Building a map by assignments

A map as the list of its entries, one a key. Assigning a key again replaces its value, so that of a
list of assignments the map holds the last one for each key (`mem_assignAll`).
-/

namespace Assign

open List

variable {κ α : Type}

section Assignment

variable [DecidableEq κ]

/-- The map after `m[key] = a`. -/
def assign (key : κ) (a : α) : List (κ × α) → List (κ × α)
  | [] => [(key, a)]
  | e :: es => if e.1 = key then (key, a) :: es else e :: assign key a es

/-- The map after assignments to an empty one. -/
def assignAll (l : List (κ × α)) : List (κ × α) :=
  l.foldl (fun m e ↦ assign e.1 e.2 m) []

end Assignment

/-- The last assignment to the key is that of `a`. -/
def IsLast (l : List (κ × α)) (key : κ) (a : α) : Prop :=
  ∃ before after, l = before ++ (key, a) :: after ∧ ∀ e ∈ after, e.1 ≠ key

variable {l : List (κ × α)} {key : κ}

theorem IsLast.mem {a : α} (h : IsLast l key a) : (key, a) ∈ l := by
  obtain ⟨before, after, rfl, -⟩ := h
  simp

theorem isLast_append_singleton {key' : κ} {a a' : α} :
    IsLast (l ++ [(key', a')]) key a ↔
      (key = key' ∧ a = a') ∨ (key ≠ key' ∧ IsLast l key a) := by
  constructor
  · rintro ⟨before, after, h, hafter⟩
    rcases eq_nil_or_concat after with rfl | ⟨after, e, rfl⟩
    · left
      simpa [eq_comm] using (append_inj' h rfl).2
    · right
      have h : l ++ [(key', a')] = (before ++ (key, a) :: after) ++ [e] := by simpa using h
      obtain ⟨rfl, he⟩ := append_inj' h rfl
      cases he
      exact ⟨fun heq ↦ hafter (key', a') (by simp) heq.symm, before, after, rfl,
        fun e he ↦ hafter e (by simp [he])⟩
  · rintro (⟨rfl, rfl⟩ | ⟨hne, before, after, rfl, hafter⟩)
    · exact ⟨l, [], rfl, by simp⟩
    · refine ⟨before, after ++ [(key', a')], by simp, ?_⟩
      intro e he
      rcases mem_append.mp he with he | he
      · exact hafter e he
      · rw [mem_singleton.mp he]
        exact hne.symm

theorem IsLast.unique {a a' : α} (h : IsLast l key a) (h' : IsLast l key a') : a = a' := by
  induction l using List.reverseRecOn with
  | nil => simpa using h.mem
  | append_singleton l e ih =>
    rcases isLast_append_singleton.mp h with ⟨hk, rfl⟩ | ⟨hk, h⟩
    · rcases isLast_append_singleton.mp h' with ⟨-, rfl⟩ | ⟨hk', -⟩
      · rfl
      · exact absurd hk hk'
    · rcases isLast_append_singleton.mp h' with ⟨hk', -⟩ | ⟨-, h'⟩
      · exact absurd hk' hk
      · exact ih h h'

/-- The last assignment after a map over the values. -/
theorem isLast_map {β : Type} {g : κ → α → β} {b : β} :
    IsLast (l.map fun e ↦ (e.1, g e.1 e.2)) key b ↔ ∃ a, IsLast l key a ∧ g key a = b := by
  constructor
  · rintro ⟨before, after, h, hafter⟩
    obtain ⟨before', rest, rfl, -, hrest⟩ := map_eq_append_iff.mp h
    obtain ⟨e, after', rfl, he, rfl⟩ := map_eq_cons_iff.mp hrest
    cases he
    exact ⟨e.2, ⟨before', after', rfl, fun e he ↦ hafter _ (mem_map_of_mem he)⟩, rfl⟩
  · rintro ⟨a, ⟨before, after, rfl, hafter⟩, rfl⟩
    refine ⟨before.map fun e ↦ (e.1, g e.1 e.2), after.map fun e ↦ (e.1, g e.1 e.2), by simp, ?_⟩
    intro e he
    obtain ⟨e', he', rfl⟩ := mem_map.mp he
    exact hafter e' he'

variable [DecidableEq κ]

theorem mem_keys_assign {m : List (κ × α)} {key' : κ} {a : α} :
    key' ∈ (assign key a m).map Prod.fst ↔ key' = key ∨ key' ∈ m.map Prod.fst := by
  induction m with
  | nil => simp [assign]
  | cons e es ih =>
    rw [assign]
    by_cases he : e.1 = key
    · simp [he]
    · rw [if_neg he, map_cons, mem_cons, ih, map_cons, mem_cons]
      exact or_left_comm

theorem nodup_assign {m : List (κ × α)} (hm : (m.map Prod.fst).Nodup) (key : κ) (a : α) :
    ((assign key a m).map Prod.fst).Nodup := by
  induction m with
  | nil => simp [assign]
  | cons e es ih =>
    obtain ⟨hne, hes⟩ := nodup_cons.mp hm
    rw [assign]
    by_cases he : e.1 = key
    · rw [if_pos he]
      exact nodup_cons.mpr ⟨he ▸ hne, hes⟩
    · rw [if_neg he]
      refine nodup_cons.mpr ⟨?_, ih hes⟩
      rw [mem_keys_assign]
      exact not_or.mpr ⟨he, hne⟩

theorem mem_assign {m : List (κ × α)} {key' : κ} {a a' : α} (hm : (m.map Prod.fst).Nodup) :
    (key, a) ∈ assign key' a' m ↔ (key = key' ∧ a = a') ∨ (key ≠ key' ∧ (key, a) ∈ m) := by
  induction m with
  | nil => simp [assign]
  | cons e es ih =>
    obtain ⟨hne, hes⟩ := List.nodup_cons.mp hm
    have hnot : ∀ b, (e.1, b) ∉ es := fun b hb ↦ hne (List.mem_map.mpr ⟨_, hb, rfl⟩)
    rw [assign]
    by_cases he : e.1 = key'
    · subst he
      by_cases hk : key = e.1
      · subst hk
        simp [hnot]
      · simp [hk, Prod.ext_iff]
    · rw [if_neg he, List.mem_cons, ih hes, List.mem_cons]
      by_cases hk : key = key'
      · subst hk
        simp [Prod.ext_iff, Ne.symm he]
      · simp [hk]

/-- **Of several assignments to a key the last one holds.** -/
theorem mem_assignAll {a : α} : (key, a) ∈ assignAll l ↔ IsLast l key a := by
  suffices h : ((assignAll l).map Prod.fst).Nodup ∧
      ∀ key a, (key, a) ∈ assignAll l ↔ IsLast l key a from h.2 key a
  induction l using List.reverseRecOn with
  | nil => exact ⟨nodup_nil, by simp [assignAll, IsLast]⟩
  | append_singleton l e ih =>
    have heq : assignAll (l ++ [e]) = assign e.1 e.2 (assignAll l) := by simp [assignAll]
    rw [heq]
    refine ⟨nodup_assign ih.1 _ _, fun key a ↦ ?_⟩
    rw [mem_assign ih.1, isLast_append_singleton, ih.2]

theorem assignAll_append_singleton (l : List (κ × α)) (e : κ × α) :
    assignAll (l ++ [e]) = assign e.1 e.2 (assignAll l) := by
  rw [assignAll, foldl_append]
  rfl

theorem nodup_assignAll (l : List (κ × α)) : ((assignAll l).map Prod.fst).Nodup := by
  induction l using List.reverseRecOn with
  | nil => exact nodup_nil
  | append_singleton l e ih =>
    rw [assignAll_append_singleton]
    exact nodup_assign ih _ _

theorem mem_keys_assignAll : key ∈ (assignAll l).map Prod.fst ↔ key ∈ l.map Prod.fst := by
  induction l using List.reverseRecOn with
  | nil => exact Iff.rfl
  | append_singleton l e ih =>
    rw [assignAll_append_singleton, mem_keys_assign, ih, map_append, mem_append,
      map_singleton, mem_singleton]
    exact or_comm

/-- Assignments that do not contradict one another all hold. -/
theorem mem_assignAll_of_agree (hagree : ∀ y ∈ l, ∀ z ∈ l, y.1 = z.1 → y = z) {e : κ × α} :
    e ∈ assignAll l ↔ e ∈ l := by
  refine ⟨fun h ↦ (mem_assignAll.mp h).mem, fun h ↦ ?_⟩
  obtain ⟨e', he', hkey⟩ := mem_map.mp (mem_keys_assignAll.mpr (mem_map_of_mem h))
  cases hagree e' (mem_assignAll.mp he').mem e h hkey
  exact he'

end Assign
