import GoBricks.Lib.Assign

/-!
# Merging the environment into the configuration

The configuration is a tree of maps, and the environment's variables are merged into it as a second
tree. A variable whose name is that of a section would replace the section by a string; the merge
drops it.

A map is the list of its entries in the order a range over it visits them, one for each key
(`Tree.WellFormed`), so that what holds of every source holds of every order. `valueAt_merge` says
what the merged tree has at any path from what the two trees have there, and
`mergeSkippingScalarOverMap_spec` what follows for sections and leaves.
-/

namespace Config

variable {α : Type}

/-- A configuration value: `map[string]any`, or anything else. -/
inductive Tree (α : Type) where
  | leaf (a : α)
  | map (entries : List (String × Tree α))

/-- The keys of a map with what is under them. -/
abbrev Entries (α : Type) := List (String × Tree α)

mutual

/-- Merges `src` into `dest`. -/
def mergeSkippingScalarOverMap : Entries α → Entries α → Entries α
  | [], dest => dest
  | (key, srcVal) :: src, dest =>
    mergeSkippingScalarOverMap src (Assign.assign key (mergeValue srcVal (dest.lookup key)) dest)

/-- What the key of an incoming value holds after it. -/
def mergeValue : Tree α → Option (Tree α) → Tree α
  -- the structured config is kept and the colliding scalar dropped
  | .leaf _, some (.map destMap) => .map destMap
  | .leaf a, _ => .leaf a
  | .map srcMap, some (.map destMap) => .map (mergeSkippingScalarOverMap srcMap destMap)
  | .map srcMap, _ => .map srcMap

end

/-- A map has one entry for each key. -/
inductive Tree.WellFormed : Tree α → Prop
  | leaf (a : α) : WellFormed (.leaf a)
  | map {entries : Entries α} (hkeys : (entries.map Prod.fst).Nodup)
    (hvalues : ∀ e ∈ entries, WellFormed e.2) : WellFormed (.map entries)

/-- The value at a path. -/
def Tree.find : List String → Tree α → Option (Tree α)
  | [], t => some t
  | key :: path, .map entries => (entries.lookup key).bind (find path)
  | _ :: _, .leaf _ => none

/-- What a map has at a path. -/
def valueAt (m : Entries α) (path : List String) : Option (Tree α) :=
  (Tree.map m).find path

theorem lookup_cons_eq (key key' : String) (t : Tree α) (m : Entries α) :
    List.lookup key ((key', t) :: m) = if key = key' then some t else m.lookup key := by
  by_cases h : key = key'
  · rw [if_pos h, h, List.lookup_cons_self]
  · rw [if_neg h, List.lookup_cons, beq_false_of_ne h]

/-- A lookup after an assignment. -/
theorem lookup_assign (key key' : String) (t : Tree α) (m : Entries α) :
    (Assign.assign key t m).lookup key' = if key' = key then some t else m.lookup key' := by
  induction m with
  | nil => exact lookup_cons_eq ..
  | cons e m ih =>
    obtain ⟨k, v⟩ := e
    rw [Assign.assign]
    by_cases hk : k = key
    · rw [if_pos hk, lookup_cons_eq, lookup_cons_eq, hk]
      split_ifs <;> rfl
    · rw [if_neg hk, lookup_cons_eq, lookup_cons_eq, ih]
      split_ifs with hkey hkey'
      · exact absurd (hkey.symm.trans hkey') hk
      all_goals rfl

/-- What a key holds after the merge. -/
theorem lookup_merge {src : Entries α} (hkeys : (src.map Prod.fst).Nodup) (dest : Entries α)
    (key : String) :
    (mergeSkippingScalarOverMap src dest).lookup key =
      match src.lookup key with
      | none => dest.lookup key
      | some t => some (mergeValue t (dest.lookup key)) := by
  induction src generalizing dest with
  | nil => rw [mergeSkippingScalarOverMap]; rfl
  | cons e src ih =>
    obtain ⟨key', t⟩ := e
    rw [List.map_cons, List.nodup_cons] at hkeys
    rw [mergeSkippingScalarOverMap, ih hkeys.2, lookup_assign, lookup_cons_eq]
    by_cases hkey : key = key'
    · have hnone : src.lookup key = none := by
        refine List.lookup_eq_none_iff.mpr fun e he ↦ ?_
        exact bne_iff_ne.mpr fun h ↦ hkeys.1 (hkey ▸ List.mem_map.mpr ⟨e, he, h.symm⟩)
      rw [if_pos hkey, if_pos hkey, hnone, hkey]
    · rw [if_neg hkey, if_neg hkey]

theorem mergeValue_none (t : Tree α) : mergeValue t none = t := by
  cases t <;> rfl

/-- What the merged value has at a path: what it had if nothing comes in there, and otherwise the
two values merged. -/
theorem find_mergeValue {s : Tree α} (hs : s.WellFormed) (t : Option (Tree α))
    (path : List String) :
    (mergeValue s t).find path =
      match s.find path with
      | none => t.bind (Tree.find path)
      | some v => some (mergeValue v (t.bind (Tree.find path))) := by
  induction path generalizing s t with
  | nil => cases t <;> rfl
  | cons key path ih =>
    cases hs with
    | leaf a =>
      obtain _ | _ | destMap := t <;> rfl
    | @map srcMap hkeys hvalues =>
      have halone : Tree.find (key :: path) (.map srcMap) =
          match Tree.find (key :: path) (.map srcMap) with
          | none => none
          | some v => some (mergeValue v none) := by
        cases Tree.find (key :: path) (.map srcMap) with
        | none => rfl
        | some v => exact congrArg some (mergeValue_none v).symm
      obtain _ | _ | destMap := t
      · exact halone
      · exact halone
      · change ((mergeSkippingScalarOverMap srcMap destMap).lookup key).bind (Tree.find path) = _
        rw [lookup_merge hkeys]
        change _ = match (srcMap.lookup key).bind (Tree.find path) with
          | none => (destMap.lookup key).bind (Tree.find path)
          | some v => some (mergeValue v ((destMap.lookup key).bind (Tree.find path)))
        cases hsrc : srcMap.lookup key with
        | none => rfl
        | some v =>
          obtain ⟨_, _, rfl, _⟩ := List.lookup_eq_some_iff.mp hsrc
          exact ih (hvalues (key, v) (by simp)) _

variable {src : Entries α}

/-- What the merged tree has at a path. -/
theorem valueAt_merge (hsrc : (Tree.map src).WellFormed) (dest : Entries α) (path : List String) :
    valueAt (mergeSkippingScalarOverMap src dest) path =
      match valueAt src path with
      | none => valueAt dest path
      | some v => some (mergeValue v (valueAt dest path)) :=
  find_mergeValue hsrc (some (.map dest)) path

/-- The merge keeps every section of `dest` and every leaf that `src` does not set to something
else, takes every leaf of `src` that would not replace a section, and adds nothing else. -/
theorem mergeSkippingScalarOverMap_spec (hsrc : (Tree.map src).WellFormed) (dest : Entries α)
    (path : List String) :
    (∀ m, valueAt dest path = some (.map m) →
        ∃ m', valueAt (mergeSkippingScalarOverMap src dest) path = some (.map m')) ∧
      (∀ a, valueAt dest path = some (.leaf a) →
        (valueAt src path = none ∨ valueAt src path = some (.leaf a)) →
        valueAt (mergeSkippingScalarOverMap src dest) path = some (.leaf a)) ∧
      (∀ a, valueAt src path = some (.leaf a) → (∀ m, valueAt dest path ≠ some (.map m)) →
        valueAt (mergeSkippingScalarOverMap src dest) path = some (.leaf a)) ∧
      (∀ a, valueAt (mergeSkippingScalarOverMap src dest) path = some (.leaf a) →
        (valueAt src path = some (.leaf a) ∧ ∀ m, valueAt dest path ≠ some (.map m)) ∨
          (valueAt src path = none ∧ valueAt dest path = some (.leaf a))) ∧
      ∀ m, valueAt (mergeSkippingScalarOverMap src dest) path = some (.map m) →
        ∃ m', valueAt src path = some (.map m') ∨ valueAt dest path = some (.map m') := by
  rw [valueAt_merge hsrc]
  -- only what the two trees have at the path matters: nothing, a leaf or a map
  generalize valueAt src path = s, valueAt dest path = d
  obtain _ | _ | _ := s <;> obtain _ | _ | _ := d <;> simp [mergeValue]

/-- A variable named `CACHE` leaves the section of that name. -/
theorem mergeSkippingScalarOverMap_cache :
    ∃ m, valueAt (mergeSkippingScalarOverMap [("cache", .leaf "on")]
      [("cache", .map [("ttl", .leaf "5m")])]) ["cache"] = some (.map m) :=
  (mergeSkippingScalarOverMap_spec (.map (by decide) (by simpa using .leaf "on")) _ ["cache"]).1 _
    rfl

end Config
