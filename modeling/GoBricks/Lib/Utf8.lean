import Mathlib.Data.List.Basic

/-!
# UTF-8 in Go

Go strings are byte strings, and what reads one as text decodes it leniently: a byte that does not
start a well-formed UTF-8 sequence reads as the replacement character U+FFFD, one byte wide.

`decodeRune` and `encodeRune` are `utf8.DecodeRune` and `utf8.AppendRune`, and `runes` is what
ranging over a string yields. Case folding takes Unicode's table as a parameter: `equalFold fold` is
`strings.EqualFold` for the simple case folding `fold`.
-/

/-- A byte string. -/
abbrev Bytes := List UInt8

namespace Utf8

/-- U+FFFD. -/
def replacement : ℕ := 0xFFFD

/-- A continuation byte. -/
def isTail (b : UInt8) : Bool :=
  0x80 ≤ b && b ≤ 0xBF

/-- The six low bits of a continuation byte. -/
def low (b : UInt8) : ℕ :=
  b.toNat % 0x40

/-- The first rune of a byte string and how many bytes it takes. -/
def decodeRune : List UInt8 → ℕ × ℕ
  | [] => (replacement, 0)
  | b₀ :: bs =>
    if b₀ < 0x80 then
      (b₀.toNat, 1)
    else if 0xC2 ≤ b₀ ∧ b₀ ≤ 0xDF then
      match bs with
      | b₁ :: _ => if isTail b₁ then (b₀.toNat % 0x20 * 0x40 + low b₁, 2) else (replacement, 1)
      | _ => (replacement, 1)
    else if 0xE0 ≤ b₀ ∧ b₀ ≤ 0xEF then
      match bs with
      | b₁ :: b₂ :: _ =>
        if isTail b₁ ∧ isTail b₂ ∧ (b₀ = 0xE0 → 0xA0 ≤ b₁) ∧ (b₀ = 0xED → b₁ ≤ 0x9F) then
          (b₀.toNat % 0x10 * 0x1000 + low b₁ * 0x40 + low b₂, 3)
        else
          (replacement, 1)
      | _ => (replacement, 1)
    else if 0xF0 ≤ b₀ ∧ b₀ ≤ 0xF4 then
      match bs with
      | b₁ :: b₂ :: b₃ :: _ =>
        if isTail b₁ ∧ isTail b₂ ∧ isTail b₃ ∧ (b₀ = 0xF0 → 0x90 ≤ b₁) ∧ (b₀ = 0xF4 → b₁ ≤ 0x8F)
        then
          (b₀.toNat % 8 * 0x40000 + low b₁ * 0x1000 + low b₂ * 0x40 + low b₃, 4)
        else
          (replacement, 1)
      | _ => (replacement, 1)
    else
      (replacement, 1)

/-- The runes of a byte string; the first argument bounds their number. -/
def runesFrom : ℕ → List UInt8 → List ℕ
  | 0, _ => []
  | _ + 1, [] => []
  | n + 1, b :: bs =>
    let p := decodeRune (b :: bs)
    p.1 :: runesFrom n ((b :: bs).drop p.2)

/-- The runes of a byte string. -/
def runes (bs : List UInt8) : List ℕ :=
  runesFrom bs.length bs

theorem one_le_decodeRune (b : UInt8) (bs : List UInt8) : 1 ≤ (decodeRune (b :: bs)).2 := by
  unfold decodeRune
  simp only
  repeat' split
  all_goals simp

/-- The bound does not matter if it is large enough. -/
theorem runesFrom_eq_runes {n : ℕ} {bs : List UInt8} (h : bs.length ≤ n) :
    runesFrom n bs = runes bs := by
  suffices ∀ m, bs.length ≤ m → runesFrom n bs = runesFrom m bs from this _ (Nat.le_refl _)
  induction n generalizing bs with
  | zero =>
    intro m _
    rw [List.length_eq_zero_iff.mp (Nat.le_zero.mp h)]
    cases m <;> rfl
  | succ n ih =>
    intro m hm
    cases bs with
    | nil => cases m <;> rfl
    | cons b bs =>
      obtain ⟨m, rfl⟩ : ∃ k, m = k + 1 := ⟨m - 1, by simp at hm; omega⟩
      have hpos := one_le_decodeRune b bs
      simp only [List.length_cons] at h hm
      rw [runesFrom, runesFrom, ih (by simp; omega) m (by simp; omega)]

theorem runes_cons_ascii {b : UInt8} (hb : b < 0x80) (bs : List UInt8) :
    runes (b :: bs) = b.toNat :: runes bs := by
  have hdecode : decodeRune (b :: bs) = (b.toNat, 1) := by simp [decodeRune, hb]
  rw [runes, List.length_cons, runesFrom, hdecode]
  rfl

/-- U+017F, the long s. -/
theorem runes_longS (bs : List UInt8) : runes (0xC5 :: 0xBF :: bs) = 0x17F :: runes bs := by
  have hdecode : decodeRune (0xC5 :: 0xBF :: bs) = (0x17F, 2) := rfl
  exact congrArg (0x17F :: ·) (runesFrom_eq_runes (Nat.le_succ _))

/-- Whether a number is a surrogate half. -/
def isSurrogate (r : ℕ) : Bool :=
  0xD800 ≤ r && r ≤ 0xDFFF

/-- The bytes of a rune; what is no Unicode scalar value is written as the replacement. -/
def encodeRune (r : ℕ) : List UInt8 :=
  let r := if isSurrogate r || 0x10FFFF < r then replacement else r
  if r < 0x80 then
    [.ofNat r]
  else if r < 0x800 then
    [.ofNat (0xC0 + r / 0x40), .ofNat (0x80 + r % 0x40)]
  else if r < 0x10000 then
    [.ofNat (0xE0 + r / 0x1000), .ofNat (0x80 + r / 0x40 % 0x40), .ofNat (0x80 + r % 0x40)]
  else
    [.ofNat (0xF0 + r / 0x40000), .ofNat (0x80 + r / 0x1000 % 0x40),
      .ofNat (0x80 + r / 0x40 % 0x40), .ofNat (0x80 + r % 0x40)]

theorem encodeRune_ascii {r : ℕ} (h : r < 0x80) : encodeRune r = [.ofNat r] := by
  have hsurrogate : (isSurrogate r || decide (0x10FFFF < r)) = false := by
    simp [isSurrogate]
    omega
  simp [encodeRune, hsurrogate, h]

/-- Simple case folding on ASCII; every other rune is left alone. -/
def asciiFold (r : ℕ) : ℕ :=
  if 0x41 ≤ r ∧ r ≤ 0x5A then r + 0x20 else r

/-- `strings.EqualFold`: the same runes up to case. `fold` is Unicode's simple case folding. -/
def equalFold (fold : ℕ → ℕ) (s t : List UInt8) : Bool :=
  (runes s).map fold == (runes t).map fold

theorem equalFold_refl (fold : ℕ → ℕ) (s : List UInt8) : equalFold fold s s := by
  simp [equalFold]

end Utf8
