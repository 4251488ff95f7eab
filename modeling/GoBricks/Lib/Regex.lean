import Mathlib.Computability.RegularExpressions

/-!
# Patterns with groups

Regular expressions as programs write them, over the expressions of the library: character classes,
literals, optional parts, and literals up to the case of ASCII letters. An anchored pattern is a
list of groups, one after the other; matching a text against it splits the text into what each group
matched (`captures`). A group takes as much as it can, as quantifiers do by default; where only one
split is possible, the order in which they are tried does not matter.
-/

namespace Regex

open RegularExpression

variable {α : Type} [DecidableEq α]

/-- One of the characters. -/
def oneOf (cs : List α) : RegularExpression α :=
  cs.foldr (fun c r ↦ char c + r) 0

/-- A literal. -/
def literal (cs : List α) : RegularExpression α :=
  cs.foldr (fun c r ↦ char c * r) 1

/-- An optional part. -/
def optional (r : RegularExpression α) : RegularExpression α :=
  1 + r

omit [DecidableEq α] in
theorem mem_oneOf {cs w : List α} : w ∈ (oneOf cs).matches' ↔ ∃ c ∈ cs, w = [c] := by
  induction cs with
  | nil => simp [oneOf]
  | cons c cs ih =>
    have h : oneOf (c :: cs) = char c + oneOf cs := rfl
    rw [h, matches'_add, Language.mem_add, ih, matches'_char, List.exists_mem_cons_iff]
    exact Iff.rfl

omit [DecidableEq α] in
theorem mem_literal {cs w : List α} : w ∈ (literal cs).matches' ↔ w = cs := by
  induction cs generalizing w with
  | nil => simp [literal]
  | cons c cs ih =>
    have h : literal (c :: cs) = char c * literal cs := rfl
    rw [h, matches'_mul, Language.mem_mul]
    simp only [matches'_char, ih]
    constructor
    · rintro ⟨a, ha, b, rfl, rfl⟩
      rw [Set.mem_singleton_iff.mp ha]
      rfl
    · rintro rfl
      exact ⟨[c], rfl, cs, rfl, rfl⟩

omit [DecidableEq α] in
theorem mem_optional {r : RegularExpression α} {w : List α} :
    w ∈ (optional r).matches' ↔ w = [] ∨ w ∈ r.matches' := by
  rw [optional, matches'_add, Language.mem_add, matches'_epsilon, Language.mem_one]

/-- The split of a text among groups, of the ways there are the one where earlier groups take the
most. -/
def captures : List (RegularExpression α) → List α → Option (List (List α))
  | [], s => if s = [] then some [] else none
  | r :: rs, s =>
    (List.range (s.length + 1)).reverse.findSome? fun k ↦
      if r.rmatch (s.take k) then (captures rs (s.drop k)).map (s.take k :: ·) else none

/-- The text is split among the groups. -/
def Splits (rs : List (RegularExpression α)) (s : List α) (ws : List (List α)) : Prop :=
  ws.flatten = s ∧ List.Forall₂ (fun r w ↦ w ∈ r.matches') rs ws

theorem splits_of_captures {rs : List (RegularExpression α)} {s : List α} {ws : List (List α)}
    (h : captures rs s = some ws) : Splits rs s ws := by
  induction rs generalizing s ws with
  | nil =>
    rw [captures] at h
    split at h
    · next hs =>
      cases h
      exact ⟨hs.symm, .nil⟩
    · cases h
  | cons r rs ih =>
    obtain ⟨k, -, hk⟩ := List.exists_of_findSome?_eq_some h
    split at hk
    · next hmatch =>
      obtain ⟨ws', hws', rfl⟩ := Option.map_eq_some_iff.mp hk
      obtain ⟨hflat, hall⟩ := ih hws'
      refine ⟨?_, .cons ((rmatch_iff_matches' _ _).mp hmatch) hall⟩
      rw [List.flatten_cons, hflat, List.take_append_drop]
    · cases hk

theorem isSome_captures_of_splits {rs : List (RegularExpression α)} {s : List α}
    {ws : List (List α)} (h : Splits rs s ws) : (captures rs s).isSome := by
  obtain ⟨rfl, h⟩ := h
  induction h with
  | nil => rfl
  | @cons r w rs ws hw _ ih =>
    rw [captures, List.findSome?_isSome_iff]
    refine ⟨w.length, ?_, ?_⟩
    · rw [List.mem_reverse, List.mem_range, List.flatten_cons, List.length_append]
      omega
    · rw [List.flatten_cons, List.take_left', List.drop_left', if_pos, Option.isSome_map]
      · exact ih
      · exact (rmatch_iff_matches' _ _).mpr hw
      · rfl
      · rfl

/-- A text that can be split in one way only is split that way. -/
theorem captures_eq_some {rs : List (RegularExpression α)} {s : List α} {ws : List (List α)}
    (h : Splits rs s ws) (huniq : ∀ ws', Splits rs s ws' → ws' = ws) :
    captures rs s = some ws := by
  obtain ⟨ws', hws'⟩ := Option.isSome_iff_exists.mp (isSome_captures_of_splits h)
  rw [hws', huniq ws' (splits_of_captures hws')]

end Regex
