import Mathlib.Data.List.Basic

/-!
# Updating a list at one position

A list used as a store: an index is an address, `set` and `modify` write through it, and appending
allocates. The lemmas say what a read finds afterwards and how the number of elements with a
property moves, in the additive form that integer arithmetic can use directly.
-/

namespace List

variable {α : Type*} {l : List α} {i j : ℕ} {a b c : α}

theorem modify_eq_set_of_getElem? (h : l[i]? = some a) (f : α → α) :
    l.modify i f = l.set i (f a) := by
  rw [modify_eq_set_getElem?, h]
  rfl

/-- A read after a write. -/
theorem getElem?_set_eq_some (h : l[i]? = some a) :
    (l.set i b)[j]? = some c ↔ (j = i ∧ c = b) ∨ (j ≠ i ∧ l[j]? = some c) := by
  have hi : i < l.length := (getElem?_eq_some_iff.1 h).1
  by_cases hij : i = j
  · subst hij
    simp [hi, eq_comm]
  · simp [hij, Ne.symm hij]

/-- A read after an allocation. -/
theorem getElem?_concat_eq_some :
    (l ++ [a])[j]? = some c ↔ l[j]? = some c ∨ (j = l.length ∧ c = a) := by
  rcases Nat.lt_trichotomy j l.length with hlt | rfl | hgt
  · rw [getElem?_append_left hlt]
    simp [Nat.ne_of_lt hlt]
  · simp [eq_comm]
  · rw [getElem?_eq_none (by simp; omega), getElem?_eq_none (by omega)]
    simp [Nat.ne_of_gt hgt]

/-- One write moves the count by what it took away and what it put there. -/
theorem countP_set_add (h : l[i]? = some a) (p : α → Bool) (b : α) :
    (l.set i b).countP p + (if p a then 1 else 0) = l.countP p + (if p b then 1 else 0) := by
  obtain ⟨hi, rfl⟩ := getElem?_eq_some_iff.1 h
  have hle : (if p l[i] then 1 else 0) ≤ l.countP p := by
    split
    · next hp => exact one_le_countP_iff.2 ⟨_, getElem_mem hi, hp⟩
    · exact Nat.zero_le _
  rw [countP_set hi]
  omega

/-- A write that keeps the property at one place keeps the count. -/
theorem countP_set_of_eq (h : l[i]? = some a) {p : α → Bool} (hp : p b = p a) :
    (l.set i b).countP p = l.countP p := by
  have hadd := countP_set_add h p b
  rw [hp] at hadd
  omega

/-- A write that keeps the property everywhere keeps the count. -/
theorem countP_modify_of_eq (p : α → Bool) {f : α → α} (hf : ∀ x, p (f x) = p x) :
    (l.modify i f).countP p = l.countP p := by
  rcases h : l[i]? with - | a
  · rw [modify_eq_set_getElem?, h]
    rfl
  · rw [modify_eq_set_of_getElem? h]
    exact countP_set_of_eq h (hf a)

end List
