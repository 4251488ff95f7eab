import GoBricks.Lib.Json.Parse
import GoBricks.Lib.Utf8

/-!
# The text a string token stands for

`unquote` is what `encoding/json` makes of a string token: escapes are resolved, surrogate pairs
joined, and whatever is not UTF-8, a lone surrogate half included, becomes U+FFFD. It never fails on
a token of the grammar.
-/

namespace Json

open Utf8

/-- The value of a hexadecimal digit. -/
def hexValue (b : UInt8) : ℕ :=
  if isDigit b then b.toNat - 0x30 else if 0x61 ≤ b then b.toNat - 0x57 else b.toNat - 0x37

/-- The number after `\u`, and what comes after it. -/
def hex4 : Bytes → Option (ℕ × Bytes)
  | h₁ :: h₂ :: h₃ :: h₄ :: bs =>
    if [h₁, h₂, h₃, h₄].all isHex then
      some (([h₁, h₂, h₃, h₄].map hexValue).foldl (fun n d ↦ 16 * n + d) 0, bs)
    else
      none
  | _ => none

/-- The second half of a surrogate pair, where the text goes on with another `\u`. -/
def lowHalf : Bytes → Option (ℕ × Bytes)
  | b :: c :: bs => if b = 0x5C ∧ c = 0x75 then hex4 bs else none
  | _ => none

/-- The byte a one-letter escape stands for. -/
def unescape (c : UInt8) : UInt8 :=
  if c = 0x62 then 0x08
  else if c = 0x66 then 0x0C
  else if c = 0x6E then 0x0A
  else if c = 0x72 then 0x0D
  else if c = 0x74 then 0x09
  else c

/-- The text between the quotes; the first argument bounds the recursion. -/
def unquoteFrom : ℕ → Bytes → Bytes
  | 0, _ => []
  | _ + 1, [] => []
  | n + 1, b :: bs =>
    if b = 0x5C then
      match bs with
      | [] => []
      | c :: bs =>
        if c = 0x75 then
          match hex4 bs with
          | none => []
          | some (hi, bs) =>
            match lowHalf bs with
            | some (lo, bs') =>
              if 0xD800 ≤ hi ∧ hi < 0xDC00 ∧ 0xDC00 ≤ lo ∧ lo < 0xE000 then
                encodeRune ((hi - 0xD800) * 0x400 + (lo - 0xDC00) + 0x10000) ++ unquoteFrom n bs'
              else
                encodeRune hi ++ unquoteFrom n bs
            | none => encodeRune hi ++ unquoteFrom n bs
        else
          unescape c :: unquoteFrom n bs
    else if b < 0x80 then
      b :: unquoteFrom n bs
    else
      let p := decodeRune (b :: bs)
      encodeRune p.1 ++ unquoteFrom n ((b :: bs).drop p.2)

/-- The text of a string token. -/
def unquote (t : Bytes) : Bytes :=
  unquoteFrom t.length t.tail.dropLast

/-- The name of a member. -/
def Name.name (n : Name) : Bytes :=
  unquote n.key.1

/-! ### Plain strings -/

/-- A byte that a string token holds as itself and that is a character on its own. -/
def isPlainAscii (b : UInt8) : Bool :=
  isPlain b && b < 0x80

theorem interior_of_plain {w : Bytes} (hw : w.all isPlainAscii) : Interior w := by
  induction w with
  | nil => exact .nil
  | cons b w ih =>
    simp only [List.all_cons, Bool.and_eq_true, isPlainAscii] at hw
    exact .plain hw.1.1 (ih hw.2)

/-- Quoting a plain string makes a token of it. -/
theorem isString_plain {w : Bytes} (hw : w.all isPlainAscii) : IsString (0x22 :: (w ++ [0x22])) :=
  ⟨w, interior_of_plain hw, rfl⟩

end Json
