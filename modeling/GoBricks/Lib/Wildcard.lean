import Mathlib.Data.List.Forall2
import Mathlib.Data.List.Induction

/-!
# Patterns with wildcards

A pattern is a list of items. An item takes one symbol that fits it, or, if it is a **many**, any
number of symbols. A text is matched by a pattern if it can be cut into parts that the items take
(`Matches`).

`scan` decides that in one pass over the pattern. It keeps, for each front of the text, whether the
pattern so far matches it, and needs no backtracking (`scan_iff`).
-/

namespace Wildcard

open List

variable {π α : Type} (isMany : π → Bool) (fits : π → α → Bool)

/-- What an item takes. -/
def Takes (p : π) (part : List α) : Prop :=
  isMany p = true ∨ isMany p = false ∧ ∃ a, part = [a] ∧ fits p a

/-- A text can be cut into parts, one for each item of a pattern. -/
def Matches (pattern : List π) (text : List α) : Prop :=
  ∃ parts, parts.flatten = text ∧ List.Forall₂ (Takes isMany fits) pattern parts

/-- Whether some flag has been set so far. -/
def accumulate : Bool → List Bool → List Bool
  | _, [] => []
  | matched, r :: reach => (matched || r) :: accumulate (matched || r) reach

/-- What fronts of the text a pattern with one more item matches. -/
def advance (text : List α) (reach : List Bool) (p : π) : List Bool :=
  if isMany p then accumulate false reach
  else false :: List.zipWith (fun r a ↦ r && fits p a) reach text

/-- Whether the pattern matches the text, from what fronts of the text it matches. -/
def scan (pattern : List π) (text : List α) : Bool :=
  let reach := pattern.foldl (advance isMany fits text) (true :: List.replicate text.length false)
  reach.getD text.length false

variable {isMany} {fits} {pattern : List π} {text : List α} {p : π}

theorem matches_nil : Matches isMany fits ([] : List π) text ↔ text = [] := by
  constructor
  · rintro ⟨parts, rfl, h⟩
    rw [forall₂_nil_left_iff.1 h]
    rfl
  · rintro rfl
    exact ⟨[], rfl, .nil⟩

/-- The last item takes what is left at the end. -/
theorem matches_append :
    Matches isMany fits (pattern ++ [p]) text ↔
      ∃ front part, front ++ part = text ∧ Matches isMany fits pattern front ∧
        Takes isMany fits p part := by
  constructor
  · rintro ⟨parts, rfl, h⟩
    obtain ⟨parts, last, rfl⟩ : ∃ init last, parts = init ++ [last] := by
      have hne : parts ≠ [] := by
        rintro rfl
        exact absurd h.length_eq (by simp)
      exact ⟨_, _, (dropLast_append_getLast hne).symm⟩
    have hlength : pattern.length = parts.length := by simpa using h.length_eq
    have hfront := forall₂_take_append _ _ _ h
    have hlast := forall₂_drop_append _ _ _ h
    rw [← hlength, take_left] at hfront
    rw [← hlength, drop_left] at hlast
    exact ⟨parts.flatten, last, by simp, ⟨parts, rfl, hfront⟩, (forall₂_cons.1 hlast).1⟩
  · rintro ⟨front, part, rfl, ⟨parts, rfl, h⟩, hpart⟩
    exact ⟨parts ++ [part], by simp, rel_append h (.cons hpart .nil)⟩

theorem getD_accumulate {reach : List Bool} {m : Bool} {j : ℕ} (hj : j < reach.length) :
    (accumulate m reach).getD j false = true ↔ m = true ∨ ∃ i ≤ j, reach.getD i false = true := by
  induction reach generalizing m j with
  | nil => cases hj
  | cons r reach ih =>
    cases j with
    | zero =>
      show (m || r) = true ↔ _
      simp
    | succ j =>
      show (accumulate (m || r) reach).getD j false = true ↔ _
      rw [ih (Nat.lt_of_succ_lt_succ hj), Bool.or_eq_true, or_assoc]
      refine or_congr_right ⟨?_, ?_⟩
      · rintro (hr | ⟨i, hi, hreach⟩)
        · exact ⟨0, Nat.zero_le _, hr⟩
        · exact ⟨i + 1, Nat.succ_le_succ hi, hreach⟩
      · rintro ⟨i, hi, hreach⟩
        cases i with
        | zero => exact .inl hreach
        | succ i => exact .inr ⟨i, Nat.le_of_succ_le_succ hi, hreach⟩

theorem length_accumulate (m : Bool) (reach : List Bool) :
    (accumulate m reach).length = reach.length := by
  induction reach generalizing m with
  | nil => rfl
  | cons r reach ih => exact congrArg (· + 1) (ih _)

/-- The flags of the fronts of a text that a pattern matches. -/
structure Reaches (isMany : π → Bool) (fits : π → α → Bool) (pattern : List π) (text : List α)
    (reach : List Bool) : Prop where
  length_eq : reach.length = text.length + 1
  iff : ∀ j ≤ text.length, reach.getD j false = true ↔ Matches isMany fits pattern (text.take j)

theorem Reaches.many {reach : List Bool} (h : Reaches isMany fits pattern text reach)
    (hmany : isMany p) :
    Reaches isMany fits (pattern ++ [p]) text (accumulate false reach) := by
  refine ⟨(length_accumulate ..).trans h.length_eq, fun j hj ↦ ?_⟩
  rw [getD_accumulate (by rw [h.length_eq]; omega), matches_append]
  constructor
  · rintro (hfalse | ⟨i, hi, hreach⟩)
    · cases hfalse
    · refine ⟨text.take i, (text.take j).drop i, ?_, (h.iff i (Nat.le_trans hi hj)).1 hreach, .inl
        hmany⟩
      have htake : text.take i = (text.take j).take i := by rw [take_take, Nat.min_eq_left hi]
      rw [htake, take_append_drop]
  · rintro ⟨front, part, hsplit, hfront, -⟩
    -- a front of a front of the text
    have hle : front.length ≤ j := by
      have hlength := congrArg List.length hsplit
      rw [length_append, length_take] at hlength
      omega
    refine .inr ⟨front.length, hle, (h.iff _ (Nat.le_trans hle hj)).2 ?_⟩
    have htake : text.take front.length = front := by
      rw [← Nat.min_eq_left hle, ← take_take, ← hsplit, take_left]
    rw [htake]
    exact hfront

theorem Reaches.one {reach : List Bool} (h : Reaches isMany fits pattern text reach)
    (hone : isMany p = false) :
    Reaches isMany fits (pattern ++ [p]) text
      (false :: List.zipWith (fun r a ↦ r && fits p a) reach text) := by
  have htakes {part : List α} : Takes isMany fits p part ↔ ∃ a, part = [a] ∧ fits p a := by
    rw [Takes, hone]
    simp
  refine ⟨?_, fun j hj ↦ ?_⟩
  · rw [length_cons, length_zipWith, h.length_eq, Nat.min_eq_right (Nat.le_succ _)]
  · rw [matches_append]
    cases j with
    | zero =>
      refine iff_of_false Bool.false_ne_true ?_
      rintro ⟨front, part, hsplit, -, hpart⟩
      obtain ⟨a, rfl, -⟩ := htakes.1 hpart
      simp at hsplit
    | succ j =>
      have hlt : j < text.length := hj
      have hlt' : j < reach.length := by rw [h.length_eq]; omega
      have hget : (List.zipWith (fun r a ↦ r && fits p a) reach text).getD j false =
          (reach.getD j false && fits p text[j]) := by
        simp [getD_eq_getElem?_getD, List.getElem?_zipWith, List.getElem?_eq_getElem hlt,
          List.getElem?_eq_getElem hlt']
      show (List.zipWith (fun r a ↦ r && fits p a) reach text).getD j false = true ↔ _
      rw [hget, Bool.and_eq_true, h.iff j (Nat.le_of_lt hlt), take_succ_eq_append_getElem hlt]
      constructor
      · rintro ⟨hmatches, hfits⟩
        exact ⟨_, _, rfl, hmatches, htakes.2 ⟨_, rfl, hfits⟩⟩
      · rintro ⟨front, part, hsplit, hfront, hpart⟩
        obtain ⟨a, rfl, hfits⟩ := htakes.1 hpart
        obtain ⟨rfl, ha⟩ := append_inj' hsplit rfl
        obtain rfl := singleton_injective ha
        exact ⟨hfront, hfits⟩

theorem reaches_foldl (pattern : List π) (text : List α) :
    Reaches isMany fits pattern text
      (pattern.foldl (advance isMany fits text) (true :: List.replicate text.length false)) := by
  induction pattern using List.reverseRecOn with
  | nil =>
    refine ⟨by simp, fun j hj ↦ ?_⟩
    rw [matches_nil]
    cases j with
    | zero => exact iff_of_true rfl rfl
    | succ j =>
      have hne : text.take (j + 1) ≠ [] := by
        rw [Ne, take_eq_nil_iff]
        rintro (h | rfl)
        · omega
        · cases hj
      refine iff_of_false ?_ hne
      show ¬(List.replicate text.length false).getD j false = true
      rw [getD_eq_getElem?_getD, List.getElem?_replicate]
      split <;> exact Bool.false_ne_true
  | append_singleton pattern p ih =>
    rw [foldl_concat, advance]
    split
    · next hmany => exact ih.many hmany
    · next hone => exact ih.one (eq_false_of_ne_true hone)

/-- One pass over the pattern decides whether it matches. -/
theorem scan_iff (pattern : List π) (text : List α) :
    scan isMany fits pattern text = true ↔ Matches isMany fits pattern text := by
  rw [scan, (reaches_foldl pattern text).iff _ (Nat.le_refl _), List.take_length]

end Wildcard
