import Mathlib.Data.List.Basic

/-!
# The text of a ledger's error column

Both ledgers bound the diagnostic text they write: control characters become blanks, and a text past
the limit is cut at a whole character and marked. An error text here is a valid Unicode string, so
dropping invalid bytes first changes nothing.
-/

namespace Ledgererr

/-- How long a stored error may be. -/
def maxBytes : ℕ := 1024

/-- What a shortened error ends in. -/
def truncationMarker : String := "...[truncated]"

/-- `unicode.IsControl`. -/
def isControl (c : Char) : Bool :=
  decide (c.toNat < 0x20) || (decide (0x7f ≤ c.toNat) && decide (c.toNat < 0xa0))

/-- The whole characters that fit in `keep` bytes. -/
def fitting : ℕ → List Char → List Char
  | _, [] => []
  | keep, c :: cs => if c.utf8Size ≤ keep then c :: fitting (keep - c.utf8Size) cs else []

/-- Bounds the text a ledger writes to its error column. -/
def bound (errMsg : String) : String :=
  let cleaned := errMsg.toList.map fun c ↦ if isControl c then ' ' else c
  if (String.ofList cleaned).utf8ByteSize ≤ maxBytes then String.ofList cleaned
  else String.ofList (fitting (maxBytes - truncationMarker.utf8ByteSize) cleaned) ++
    truncationMarker

end Ledgererr
