import Mathlib.Data.List.Infix

/-!
# Texts of segments

A text over any alphabet is split into **segments** by a separator. One text is **below** another
when it is that text or goes on past it at a separator (`below_iff`); put differently, when the
other's segments are the first of its own. Two texts that a third one is below are comparable.

Joining two texts with a separator is not injective: `append_cons_eq_iff` says when two pairs share
their text.
-/

namespace Segments

open List

variable {α : Type*} {sep : α}

theorem intercalate_append {l l' : List (List α)} (hl : l ≠ []) (hl' : l' ≠ []) :
    [sep].intercalate (l ++ l') = [sep].intercalate l ++ sep :: [sep].intercalate l' := by
  induction l with
  | nil => exact absurd rfl hl
  | cons a l ih =>
    cases l with
    | nil =>
      rw [singleton_append, intercalate_cons_of_ne_nil hl', intercalate_singleton,
        append_assoc, singleton_append]
    | cons b l =>
      rw [cons_append, intercalate_cons_of_ne_nil (append_ne_nil_of_left_ne_nil
        (cons_ne_nil b l) l'), ih (cons_ne_nil b l), intercalate_cons_of_ne_nil
        (cons_ne_nil b l)]
      simp only [append_assoc]

theorem intercalate_cons (a : List α) (l : List (List α)) :
    [sep].intercalate (a :: l) = a ++ l.flatMap (sep :: ·) := by
  induction l generalizing a with
  | nil => rw [intercalate_singleton, flatMap_nil, append_nil]
  | cons b l ih =>
    rw [intercalate_cons_of_ne_nil (cons_ne_nil b l), ih, flatMap_cons]
    simp only [append_assoc, cons_append, nil_append]

/-- The pair `(c, d)` cuts the text of the pair `(a, b)` at a later separator. -/
def Shifted (sep : α) (a b c d : List α) : Prop :=
  ∃ m, c = a ++ sep :: m ∧ b = m ++ sep :: d

/-- Two pairs have one text when they are equal or cut it at different separators. -/
theorem append_cons_eq_iff {a b c d : List α} : a ++ sep :: b = c ++ sep :: d ↔
    (a = c ∧ b = d) ∨ Shifted sep a b c d ∨ Shifted sep c d a b := by
  constructor
  · intro h
    rcases append_eq_append_iff.mp h with ⟨m, hc, hb⟩ | ⟨m, ha, hd⟩
    · cases m with
      | nil => exact .inl ⟨by simpa using hc.symm, by simpa using hb⟩
      | cons x m =>
        obtain ⟨rfl, rfl⟩ := cons_eq_cons.mp hb
        exact .inr (.inl ⟨m, hc, rfl⟩)
    · cases m with
      | nil => exact .inl ⟨by simpa using ha, by simpa using hd.symm⟩
      | cons x m =>
        obtain ⟨rfl, rfl⟩ := cons_eq_cons.mp hd
        exact .inr (.inr ⟨m, ha, rfl⟩)
  · rintro (⟨rfl, rfl⟩ | ⟨m, rfl, rfl⟩ | ⟨m, rfl, rfl⟩)
    · rfl
    · simp
    · simp

variable [DecidableEq α] {s p q : List α}

/-- The segments of `p` are the first segments of `s`. -/
def Below (sep : α) (s p : List α) : Prop :=
  p.splitOn sep <+: s.splitOn sep

theorem below_iff : Below sep s p ↔ s = p ∨ ∃ rest, s = p ++ sep :: rest := by
  constructor
  · rintro ⟨l, hl⟩
    have hs : [sep].intercalate (p.splitOn sep ++ l) = s := by rw [hl, intercalate_splitOn]
    by_cases hnil : l = []
    · rw [hnil, append_nil, intercalate_splitOn] at hs
      exact .inl hs.symm
    · rw [intercalate_append (splitOn_ne_nil sep p) hnil, intercalate_splitOn] at hs
      exact .inr ⟨_, hs.symm⟩
  · rintro (rfl | ⟨rest, rfl⟩)
    · exact prefix_refl _
    · rw [Below, splitOn_append_cons_self]
      exact prefix_append _ _

theorem Below.refl (s : List α) : Below sep s s :=
  prefix_refl _

theorem Below.trans (h : Below sep s p) (h' : Below sep p q) : Below sep s q :=
  List.IsPrefix.trans h' h

/-- Two texts that one is below are comparable. -/
theorem Below.comparable (h : Below sep s p) (h' : Below sep s q) :
    Below sep p q ∨ Below sep q p :=
  prefix_or_prefix_of_prefix h' h

end Segments
