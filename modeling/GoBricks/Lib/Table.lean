import GoBricks.Lib.Text
import Mathlib.Data.List.AList

/-!
# Maps with texts for keys

`maps.Copy` and the order in which the keys of a map are visited where that order matters, by
`slices.Sorted(maps.Keys(m))`.
-/

/-- A map from texts. -/
abbrev Table (α : Type) : Type :=
  AList fun _ : Bytes ↦ α

namespace Table

variable {α : Type}

/-- `maps.Copy`: what `src` holds is set in `dst`. -/
def copy (dst src : Table α) : Table α :=
  src ∪ dst

/-- The keys of a map in order. -/
def sortedKeys (t : Table α) : List Bytes :=
  Text.sort t.keys

end Table
