import GoBricks.Lib.Assign
import GoBricks.Logger.Opaque

/-!
# The log filter on values

`filter.go`: the walk that masks values under sensitive names, through maps, slices, arrays, structs
and pointers. Reflection is given by a table of types (`Types`), and the values in memory by a graph
(`Graph`): a map, slice, array or struct is a node, whose contents the graph lists, and a pointer is
an address. Graphs may be cyclic, and what a pointer leads to depends on its type as well, since a
struct and its first field share an address.

The walk is given its depth budget and the addresses on the way to the value. The source keeps those
in a set to which every step adds and from which it removes on return, so that a value is walked
with just the addresses above it.

A **Redactor** is a value whose type has the method `RedactedForLog`: the walk logs what it returns
in place of the value. The method is the application's, and a parameter of the graph. In the output,
what was logged in place of a Redactor is marked (`Out.rendered`); the mark is not in the log.
-/

open Json

namespace Logger

/-! ### Values -/

/-- The kinds of Go types. -/
inductive Kind
  | bool | int | int8 | int16 | int32 | int64 | uint | uint8 | uint16 | uint32 | uint64 | uintptr
  | float32 | float64 | complex64 | complex128 | array | chan | func | interface | map | pointer
  | slice | string | struct | unsafePointer
  deriving DecidableEq

/-- What reflection tells about types. -/
structure Types (Ty : Type) where
  kind : Ty → Kind
  /-- The type of the elements of an array or a slice, or of what a pointer leads to. -/
  elem : Ty → Ty
  /-- Whether the type is `map[string]any`. -/
  anyMap : Ty → Bool
  /-- Whether the type has the method `RedactedForLog`. -/
  redactor : Ty → Bool

/-- A value in an interface, with its dynamic type. -/
inductive Value (Ty Node Data : Type)
  /-- The nil interface. -/
  | nil
  /-- A number, a Boolean, a channel or a function. -/
  | leaf (t : Ty) (x : Data)
  | string (t : Ty) (s : Bytes)
  /-- A map, or a nil map. -/
  | map (t : Ty) (n : Option Node)
  /-- A slice, or a nil slice. -/
  | slice (t : Ty) (n : Option Node)
  | array (t : Ty) (n : Node)
  | struct (t : Ty) (n : Node)
  /-- A pointer; the address of a nil pointer is zero. -/
  | pointer (t : Ty) (addr : ℕ)
  deriving DecidableEq

variable {Ty Node Data : Type}

/-- The dynamic type. -/
def Value.type? : Value Ty Node Data → Option Ty
  | .nil => none
  | .leaf t _ | .string t _ | .map t _ | .slice t _ | .array t _ | .struct t _ | .pointer t _ =>
    some t

/-- A field of a struct type, with its `json` tag. -/
structure Field where
  name : Bytes
  tag : Bytes
  exported : Bool
  deriving DecidableEq

/-- The name a field is logged under; empty if it is not. -/
def Field.logName (field : Field) : Bytes :=
  if field.tag = [0x2D] then
    []
  else if field.tag = [] then
    field.name
  else if 0x2C ∈ field.tag then
    let fieldName := field.tag.takeWhile (· ≠ 0x2C)
    if fieldName = [] then field.name else fieldName
  else
    field.tag

variable {v : Value Ty Node Data}

namespace Types

variable (T : Types Ty)

/-- The kinds whose values the walk may change. -/
def rewritesType (t : Ty) : Bool :=
  match T.kind t with
  | .interface | .struct | .map | .slice | .array | .pointer => true
  | _ => false

/-- The value is one of its dynamic type. -/
def Fits : Value Ty Node Data → Prop
  | .nil => True
  | .leaf t _ => T.rewritesType t = false ∧ T.kind t ≠ .string
  | .string t _ => T.kind t = .string
  | .map t _ => T.kind t = .map
  | .slice t _ => T.kind t = .slice
  | .array t _ => T.kind t = .array
  | .struct t _ => T.kind t = .struct
  | .pointer t _ => T.kind t = .pointer

/-- A variable of the type may hold the value. -/
def Holds (t : Ty) (v : Value Ty Node Data) : Prop :=
  T.Fits v ∧ (T.kind t = .interface ∨ v.type? = some t)

/-- What a variable of a scalar type holds. -/
theorem Holds.exists_leaf {t : Ty} (h : T.Holds t v) (hrewrites : T.rewritesType t = false)
    (hstring : T.kind t ≠ .string) : ∃ x, v = .leaf t x := by
  obtain ⟨hfits, h | htype⟩ := h
  · simp [rewritesType, h] at hrewrites
  · cases v with
    | nil => cases htype
    | leaf t' x =>
      cases htype
      exact ⟨x, rfl⟩
    | string t' s =>
      cases htype
      exact absurd hfits hstring
    | _ t' x =>
      cases htype
      simp only [Fits] at hfits
      simp [rewritesType, hfits] at hrewrites

/-- Whether the value is a Redactor, other than a nil pointer. -/
def asRedactor (v : Value Ty Node Data) : Bool :=
  v.type?.any T.redactor && !(v matches .pointer _ 0)

@[simp] theorem asRedactor_pointer {t : Ty} {addr : ℕ} (h : addr ≠ 0) :
    T.asRedactor (.pointer t addr : Value Ty Node Data) = T.redactor t := by
  cases addr with
  | zero => exact absurd rfl h
  | succ addr => simp [asRedactor, Value.type?]

end Types

/-- Whether a pointer is logged as it came. -/
def keepsPointer (T : Types Ty) (t : Ty) : Bool :=
  T.kind (T.elem t) ≠ .string && !T.rewritesType (T.elem t)

/-- The values in memory. -/
structure Graph (T : Types Ty) (Node Data : Type) where
  /-- The entries of a map, with the texts of their keys. Go visits them in any order; each is
  walked on its own, so that the order makes no difference unless two keys have one text. -/
  entries : Node → List (Bytes × Value Ty Node Data)
  /-- The elements of a slice or an array of the type. -/
  elements : Ty → Node → List (Value Ty Node Data)
  /-- The fields of a struct of the type. -/
  fields : Ty → Node → List (Field × Value Ty Node Data)
  /-- What a pointer of the type with the address leads to. -/
  target : Ty → ℕ → Value Ty Node Data
  /-- The byte that a value of kind `uint8` is. -/
  byte : Data → UInt8
  /-- What the method of a Redactor returns. -/
  redactedForLog : Value Ty Node Data → Value Ty Node Data
  elements_holds : ∀ t n, ∀ v ∈ elements t n, T.Holds (T.elem t) v
  target_holds : ∀ t addr, addr ≠ 0 → T.Holds (T.elem t) (target t addr)

/-- A pointer to a struct type leads to a struct. -/
theorem Graph.exists_struct {T : Types Ty} (G : Graph T Node Data) {t : Ty} {addr : ℕ}
    (haddr : addr ≠ 0) (hkind : T.kind (T.elem t) = .struct) :
    ∃ n, G.target t addr = .struct (T.elem t) n := by
  obtain ⟨hfits, h | htype⟩ := G.target_holds t addr haddr
  · rw [hkind] at h
    cases h
  · cases hv : G.target t addr with
    | struct t' n =>
      rw [hv] at htype
      cases htype
      exact ⟨n, rfl⟩
    | nil => simp [hv, Value.type?] at htype
    | leaf t' x =>
      simp only [hv, Value.type?, Option.some.injEq] at htype
      simp [hv, htype, Types.Fits, Types.rewritesType, hkind] at hfits
    | _ t' x =>
      simp only [hv, Value.type?, Option.some.injEq] at htype
      simp [hv, htype, Types.Fits, hkind] at hfits

/-- What a pointer that is kept leads to. -/
theorem Graph.exists_leaf {T : Types Ty} (G : Graph T Node Data) {t : Ty} {addr : ℕ}
    (haddr : addr ≠ 0) (hkeep : keepsPointer T t) : ∃ x, G.target t addr = .leaf (T.elem t) x := by
  have h : T.kind (T.elem t) ≠ .string ∧ T.rewritesType (T.elem t) = false := by
    simpa [keepsPointer] using hkeep
  exact (G.target_holds t addr haddr).exists_leaf T h.2 h.1

/-- What is logged for a value. -/
inductive Out (Ty Node Data : Type)
  | nil
  /-- The mask. -/
  | mask
  /-- The value as it came. -/
  | kept (v : Value Ty Node Data)
  /-- A slice or an array as it came, with its elements. -/
  | keptSlice (t : Ty) (vs : List (Value Ty Node Data))
  /-- A pointer as it came, with what it leads to. -/
  | keptPointer (t : Ty) (v : Option (Value Ty Node Data))
  /-- A payload, encoded again after masking. -/
  | encoded (doc : Bytes)
  | list (os : List (Out Ty Node Data))
  | map (es : List (Bytes × Out Ty Node Data))
  /-- What stands in place of a Redactor. -/
  | rendered (o : Out Ty Node Data)

/-! ### The walk -/

variable {depth : ℕ} {key : Bytes} {visited : List ℕ}

section Walk

variable {T : Types Ty} (G : Graph T Node Data) (lower : ℕ → ℕ) (f : SensitiveDataFilter)

/-- What is logged for a payload; `v` is the payload as it came. -/
def Out.ofFiltered (v : Out Ty Node Data) : Filtered → Out Ty Node Data
  | .original _ => v
  | .mask _ => .mask
  | .encoded doc => .encoded doc

/-- The bytes of a slice of bytes. -/
def Graph.payload (vs : List (Value Ty Node Data)) : Bytes :=
  vs.filterMap fun
    | .leaf _ x => some (G.byte x)
    | _ => none

/-- Whether strings are among the elements that would be walked as payloads. -/
def holdsOpaqueString (T : Types Ty) (t : Ty) (vs : List (Value Ty Node Data)) : Bool :=
  T.kind (T.elem t) = .string && vs.any fun
    | .string _ s => looksLikeJSON s || containsPEMBeginMarker s
    | _ => false

/-- Whether a slice or an array is logged as it came, with all its elements. -/
def keepsSlice (depth : ℕ) (t : Ty) (n : Node) : Bool :=
  depth > 1 && !T.rewritesType (T.elem t) && !holdsOpaqueString T t (G.elements t n)

/-- The fields of a struct that are logged, with their names. -/
def namedFields (fields : List (Field × Value Ty Node Data)) : List (Bytes × Value Ty Node Data) :=
  fields.filterMap fun (field, v) ↦
    if !field.exported then none
    else if field.logName = [] then none
    else some (field.logName, v)

/-- The walk of what a value holds, one level down: of a value under a name, with the addresses on
the way to it. -/
abbrev Walk (Ty Node Data : Type) := Bytes → Value Ty Node Data → List ℕ → Out Ty Node Data

variable (walk : Walk Ty Node Data)

/-- A map of the results for named values, of which a later one replaces an earlier. -/
def filterEntries (entries : List (Bytes × Value Ty Node Data)) (visited : List ℕ) :
    Out Ty Node Data :=
  .map (Assign.assignAll (entries.map fun e ↦ (e.1, walk e.1 e.2 visited)))

/-- A map with string keys is filtered by its keys. -/
def filterStringMap (n : Node) (visited : List ℕ) : Out Ty Node Data :=
  filterEntries walk (G.entries n) visited

/-- Maps of other types. The key of an entry is given by its text already. -/
def filterReflectMap (n : Option Node) (visited : List ℕ) : Out Ty Node Data :=
  match n with
  | none => .nil
  | some n => filterEntries walk (G.entries n) visited

/-- Slices and arrays. A slice got from an interface is not addressable, so that the source's cycle
check does not apply to it. -/
def filterSliceOrArray (depth : ℕ) (key : Bytes) (t : Ty) (n : Node) (visited : List ℕ) :
    Out Ty Node Data :=
  if keepsSlice G depth t n then
    .keptSlice t (G.elements t n)
  else
    .list ((G.elements t n).map fun v ↦ walk key v visited)

/-- The struct that a value is or points to, with the address if it points there. The callers pass a
struct or a pointer to one. -/
def extractStructValueWithPointer : Value Ty Node Data → Option (Ty × Node × ℕ)
  | .struct t n => some (t, n, 0)
  | .pointer t addr =>
    match G.target t addr with
    | .struct t' n => some (t', n, addr)
    | _ => none
  | _ => none

/-- A struct is filtered by its fields, unless the walk is inside of it already. -/
def filterStruct (v : Value Ty Node Data) (visited : List ℕ) : Out Ty Node Data :=
  match extractStructValueWithPointer G v with
  | none => .kept v
  | some (t, n, ptr) =>
    if ptr = 0 then
      filterEntries walk (namedFields (G.fields t n)) visited
    else if ptr ∈ visited then
      .mask
    else
      filterEntries walk (namedFields (G.fields t n)) (ptr :: visited)

/-- A pointer is followed, and a struct behind it is marked as visited. -/
def filterPointer (key : Bytes) (t : Ty) (addr : ℕ) (visited : List ℕ) : Out Ty Node Data :=
  if addr = 0 then
    .keptPointer t none
  else if T.kind (T.elem t) = .struct then
    filterStruct G walk (.pointer t addr) visited
  else if keepsPointer T t then
    .keptPointer t (some (G.target t addr))
  else if addr ∈ visited then
    .mask
  else
    walk key (G.target t addr) (addr :: visited)

/-- The walk of a value by its kind. -/
def filterByType (depth : ℕ) (key : Bytes) (v : Value Ty Node Data) (visited : List ℕ) :
    Out Ty Node Data :=
  match v with
  | .map t n =>
    if T.anyMap t then
      match n with
      | none => .nil
      | some n => filterStringMap G walk n visited
    else
      filterReflectMap G walk n visited
  | .slice t none =>
    if T.kind (T.elem t) = .uint8 then
      .ofFiltered (.kept v) (filterOpaquePayload lower f [])
    else
      .kept v
  | .slice t (some n) =>
    if T.kind (T.elem t) = .uint8 then
      .ofFiltered (.keptSlice t (G.elements t n))
        (filterOpaquePayload lower f (G.payload (G.elements t n)))
    else
      filterSliceOrArray G walk depth key t n visited
  | .string _ s => .ofFiltered (.kept v) (filterOpaquePayload lower f s)
  | .array t n => filterSliceOrArray G walk depth key t n visited
  | .struct _ _ => filterStruct G walk v visited
  | .pointer t addr => filterPointer G walk key t addr visited
  | .nil | .leaf _ _ => .kept v

/-- Maps of either kind are walked the same. -/
theorem filterByType_map {t : Ty} {n : Node} :
    filterByType G lower f walk depth key (.map t (some n)) visited =
      filterEntries walk (G.entries n) visited := by
  simp [filterByType, filterStringMap, filterReflectMap]

/-- What a Redactor returned, not asked again itself. -/
def filterRedactedShape (depth : ℕ) (key : Bytes) (shape : Value Ty Node Data)
    (visited : List ℕ) : Out Ty Node Data :=
  match shape with
  | .nil => .nil
  | shape => if depth = 0 then .mask else filterByType G lower f walk depth key shape visited

/-- A shape is filtered by its type, one level down. -/
theorem filterRedactedShape_of_ne_nil {shape : Value Ty Node Data} (h : shape ≠ .nil) :
    filterRedactedShape G lower f walk depth key shape visited =
      if depth = 0 then .mask else filterByType G lower f walk depth key shape visited := by
  cases shape with
  | nil => exact absurd rfl h
  | _ => rfl

variable {G lower f walk}

theorem filterByType_slice {t : Ty} {n : Node} (hbyte : T.kind (T.elem t) ≠ .uint8) :
    filterByType G lower f walk depth key (.slice t (some n)) visited =
      filterSliceOrArray G walk depth key t n visited :=
  if_neg hbyte

/-- A pointer to a struct is walked by the fields, once on each way. -/
theorem filterPointer_struct {t t' : Ty} {addr : ℕ} {n : Node} (haddr : addr ≠ 0)
    (hstruct : T.kind (T.elem t) = .struct) (hn : G.target t addr = .struct t' n) :
    filterPointer G walk key t addr visited = if addr ∈ visited then .mask
      else filterEntries walk (namedFields (G.fields t' n)) (addr :: visited) := by
  simp only [filterPointer, if_neg haddr, if_pos hstruct, filterStruct,
    extractStructValueWithPointer, hn]

/-- A pointer that is not kept is followed, once on each way. -/
theorem filterPointer_walked {t : Ty} {addr : ℕ} (haddr : addr ≠ 0)
    (hstruct : T.kind (T.elem t) ≠ .struct) (hkeep : ¬keepsPointer T t) :
    filterPointer G walk key t addr visited = if addr ∈ visited then .mask
      else walk key (G.target t addr) (addr :: visited) := by
  rw [filterPointer, if_neg haddr, if_neg hstruct, if_neg hkeep]

end Walk

section Filter

variable {T : Types Ty} (G : Graph T Node Data) (lower : ℕ → ℕ) (f : SensitiveDataFilter)

/-- The walk of a value that is logged under a name, with what is left of the depth budget. -/
def filterValue (depth : ℕ) (key : Bytes) (v : Value Ty Node Data) (visited : List ℕ) :
    Out Ty Node Data :=
  if f.isSensitiveField lower key then
    .mask
  else
    match v, depth with
    | .nil, _ => .nil
    | _, 0 => .mask
    | v, 1 =>
      if T.asRedactor v then
        .rendered (filterRedactedShape G lower f (filterValue 0) 0 key (G.redactedForLog v) visited)
      else
        filterByType G lower f (filterValue 0) 1 key v visited
    | v, depth + 2 =>
      if T.asRedactor v then
        .rendered (filterRedactedShape G lower f (filterValue depth) (depth + 1) key
          (G.redactedForLog v) visited)
      else
        filterByType G lower f (filterValue (depth + 1)) (depth + 2) key v visited

variable {G lower f}

/-- The value of a sensitive key is masked. -/
theorem filterValue_sensitive (h : f.isSensitiveField lower key) :
    filterValue G lower f depth key v visited = .mask := by
  unfold filterValue
  rw [if_pos h]

theorem filterValue_nil (h : f.isSensitiveField lower key = false) :
    filterValue G lower f depth key .nil visited = .nil := by
  unfold filterValue
  rw [if_neg (by simp [h])]

/-- At the end of the depth all is masked. -/
theorem filterValue_zero (hv : v ≠ .nil) : filterValue G lower f 0 key v visited = .mask := by
  unfold filterValue
  cases v with
  | nil => exact absurd rfl hv
  | _ => simp

/-- A redactor is asked for its shape. -/
theorem filterValue_redactor (h : f.isSensitiveField lower key = false) (hv : T.asRedactor v) :
    filterValue G lower f (depth + 1) key v visited =
      .rendered (filterRedactedShape G lower f (filterValue G lower f (depth - 1)) depth key
        (G.redactedForLog v) visited) := by
  unfold filterValue
  cases v with
  | nil => cases hv
  | _ => cases depth <;> simp [h, hv]

/-- All else is filtered by its type. -/
theorem filterValue_byType (h : f.isSensitiveField lower key = false) (hnil : v ≠ .nil)
    (hv : T.asRedactor v = false) :
    filterValue G lower f (depth + 1) key v visited =
      filterByType G lower f (filterValue G lower f depth) (depth + 1) key v visited := by
  conv_lhs => unfold filterValue
  cases v with
  | nil => exact absurd rfl hnil
  | _ => cases depth <;> simp [h, hv]

variable (G lower f)

/-- What is logged for a value under a name. -/
def FilterValue (key : Bytes) (v : Value Ty Node Data) : Out Ty Node Data :=
  filterValue G lower f defaultMaxDepth key v []

end Filter

/-! ### The calls of the walk -/

/-- The arguments of a call of the walk. -/
structure Call (Ty Node Data : Type) where
  depth : ℕ
  key : Bytes
  value : Value Ty Node Data
  visited : List ℕ

variable {T : Types Ty} (G : Graph T Node Data)

/-- The calls that the walk of a value by its kind makes. `picks` tells which of several values
under one name are meant. -/
inductive Descends (picks : List (Bytes × Value Ty Node Data) → Bytes → Value Ty Node Data → Prop) :
    Call Ty Node Data → Call Ty Node Data → Prop
  | entry {depth : ℕ} {key k : Bytes} {t : Ty} {n : Node} {u : Value Ty Node Data}
      {visited : List ℕ} : picks (G.entries n) k u →
      Descends picks ⟨depth, key, .map t (some n), visited⟩ ⟨depth - 1, k, u, visited⟩
  | sliceElement {depth : ℕ} {key : Bytes} {t : Ty} {n : Node} {u : Value Ty Node Data}
      {visited : List ℕ} : T.kind (T.elem t) ≠ .uint8 → keepsSlice G depth t n = false →
      u ∈ G.elements t n →
      Descends picks ⟨depth, key, .slice t (some n), visited⟩ ⟨depth - 1, key, u, visited⟩
  | arrayElement {depth : ℕ} {key : Bytes} {t : Ty} {n : Node} {u : Value Ty Node Data}
      {visited : List ℕ} : keepsSlice G depth t n = false → u ∈ G.elements t n →
      Descends picks ⟨depth, key, .array t n, visited⟩ ⟨depth - 1, key, u, visited⟩
  | field {depth : ℕ} {key k : Bytes} {t : Ty} {n : Node} {u : Value Ty Node Data}
      {visited : List ℕ} : picks (namedFields (G.fields t n)) k u →
      Descends picks ⟨depth, key, .struct t n, visited⟩ ⟨depth - 1, k, u, visited⟩
  | pointerField {depth : ℕ} {key k : Bytes} {t t' : Ty} {addr : ℕ} {n : Node}
      {u : Value Ty Node Data} {visited : List ℕ} : addr ≠ 0 → T.kind (T.elem t) = .struct →
      G.target t addr = .struct t' n → addr ∉ visited → picks (namedFields (G.fields t' n)) k u →
      Descends picks ⟨depth, key, .pointer t addr, visited⟩ ⟨depth - 1, k, u, addr :: visited⟩
  | pointer {depth : ℕ} {key : Bytes} {t : Ty} {addr : ℕ} {visited : List ℕ} : addr ≠ 0 →
      T.kind (T.elem t) ≠ .struct → keepsPointer T t = false → addr ∉ visited →
      Descends picks ⟨depth, key, .pointer t addr, visited⟩
        ⟨depth - 1, key, G.target t addr, addr :: visited⟩

variable {G} {lower : ℕ → ℕ} {f : SensitiveDataFilter}

/-- A descent takes one level. -/
theorem Descends.depth_eq {picks : List (Bytes × Value Ty Node Data) → Bytes → _ → Prop}
    {c c' : Call Ty Node Data} (h : Descends G picks c c') : c'.depth = c.depth - 1 := by
  cases h <;> rfl

/-- What a call walks by its kind: its value, if that is asked and no Redactor, or what a Redactor
returned, which is not asked. -/
inductive Enters (G : Graph T Node Data) (lower : ℕ → ℕ) (f : SensitiveDataFilter)
    (c : Call Ty Node Data) : Bool → Call Ty Node Data → Prop
  | value : f.isSensitiveField lower c.key = false → 0 < c.depth → T.asRedactor c.value = false →
      Enters G lower f c true c
  | rendering : f.isSensitiveField lower c.key = false → 1 < c.depth → T.asRedactor c.value →
      Enters G lower f c false ⟨c.depth - 1, c.key, G.redactedForLog c.value, c.visited⟩

/-- What is logged for the value of a call. -/
def Call.out (G : Graph T Node Data) (lower : ℕ → ℕ) (f : SensitiveDataFilter)
    (c : Call Ty Node Data) : Out Ty Node Data :=
  filterValue G lower f c.depth c.key c.value c.visited

/-- What is logged for the value of a call by its kind. -/
def Call.byType (G : Graph T Node Data) (lower : ℕ → ℕ) (f : SensitiveDataFilter)
    (c : Call Ty Node Data) : Out Ty Node Data :=
  filterByType G lower f (filterValue G lower f (c.depth - 1)) c.depth c.key c.value c.visited

/-- What is logged for a call, by what it walks. -/
theorem Enters.out_eq {c d : Call Ty Node Data} {asked : Bool} (h : Enters G lower f c asked d)
    (hnil : d.value ≠ .nil) :
    c.out G lower f = if asked then d.byType G lower f else .rendered (d.byType G lower f) := by
  cases h with
  | value hkey hdepth hv =>
    rw [if_pos rfl, Call.out, Call.byType, ← Nat.sub_add_cancel hdepth,
      filterValue_byType hkey hnil hv, Nat.add_sub_cancel]
  | rendering hkey hdepth hv =>
    have hpos : c.depth - 1 ≠ 0 := by omega
    rw [if_neg Bool.false_ne_true, Call.out, Call.byType,
      show c.depth = c.depth - 1 + 1 by omega, filterValue_redactor hkey hv,
      filterRedactedShape_of_ne_nil _ _ _ _ hnil, Nat.add_sub_cancel, if_neg hpos]

end Logger
