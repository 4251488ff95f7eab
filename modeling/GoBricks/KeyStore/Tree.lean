import GoBricks.KeyStore.NameSet

/-!
# The tree of keystore entries

`keystore.keys` is decoded into nested maps. A node is an **entry** when one of its children names a
field of an entry, and a namespace otherwise; `readKeyTree` collects the entries by their dotted
names. Names of fields are matched with their case ignored, by Unicode's table `caseFold`.
-/

open Text KeyName

namespace KeyStore

/-! ### Values -/

/-- The Go types that the reader tells apart. -/
inductive GoType
  | string
  | keySourceConfig
  | passwordSourceConfig
  | pkcs12SourceConfig
  | keyPairConfig
  | other
  deriving DecidableEq

/-- A value that is no map. -/
structure Value where
  /-- Its type, or the one it points to. -/
  typ : GoType
  content : ℕ
  deriving DecidableEq

/-- A node of a decoded configuration. A map is the list of its entries in the order of their keys,
which is the order in which it is read. -/
inductive Node
  | null
  | value (v : Value)
  | map (children : List (Bytes × Node))

/-- The key tree that a struct accepts; a type with no fields is a leaf. -/
inductive TreeSchema
  | mk (typ : GoType) (fields : List (Bytes × TreeSchema))

/-- The type that a schema is of. -/
def TreeSchema.typ : TreeSchema → GoType
  | .mk typ _ => typ

/-- The fields of a schema. -/
def TreeSchema.fields : TreeSchema → List (Bytes × TreeSchema)
  | .mk _ fields => fields

/-- No fields. -/
def TreeSchema.leaf (s : TreeSchema) : Bool :=
  s.fields.isEmpty

/-- The schema of a key, with the case of its letters ignored. -/
def TreeSchema.child (caseFold : ℕ → ℕ) (s : TreeSchema) (key : Bytes) : Option TreeSchema :=
  (s.fields.find? fun f ↦ Utf8.equalFold caseFold f.1 key).map Prod.snd

/-- A string. -/
def stringSchema : TreeSchema := .mk .string []

/-- `KeySourceConfig` -/
def keySourceSchema : TreeSchema :=
  .mk .keySourceConfig [(ascii "file", stringSchema), (ascii "value", stringSchema)]

/-- `PasswordSourceConfig` -/
def passwordSourceSchema : TreeSchema :=
  .mk .passwordSourceConfig [(ascii "env", stringSchema), (ascii "file", stringSchema)]

/-- `PKCS12SourceConfig` -/
def pkcs12SourceSchema : TreeSchema :=
  .mk .pkcs12SourceConfig [(ascii "file", stringSchema), (ascii "value", stringSchema),
    (ascii "password", passwordSourceSchema)]

/-- `KeyPairConfig`, an entry. -/
def keyEntrySchema : TreeSchema :=
  .mk .keyPairConfig [(ascii "public", keySourceSchema), (ascii "private", keySourceSchema),
    (ascii "secret", keySourceSchema), (ascii "pkcs12", pkcs12SourceSchema)]

/-- What is wrong in a tree. -/
inductive TreeFault
  | emptyKey
  | emptySegment (key : Bytes)
  | dottedReserved (key name word : Bytes)
  | dottedKey (key name : Bytes)
  | notEntry
  | parentOfEntry (name setField nested : Bytes)
  | unknownEntryField (key name : Bytes)
  | mapForValue (label : Bytes)
  | valueForMap (label : Bytes)
  | unknownField (key label : Bytes)
  deriving DecidableEq

/-- A fault and the field that it is reported at. -/
structure TreeError where
  field : Bytes
  fault : TreeFault
  deriving DecidableEq

/-- A dotted name, one segment longer. -/
def joinName (pre segment : Bytes) : Bytes :=
  if pre = [] then segment else pre ++ sep :: segment

/-- What a key of the tree may be; a dot in it is refused. -/
def checkTreeKey (root pre key : Bytes) : Except TreeError Unit :=
  let parent := if pre = [] then root else root ++ sep :: pre
  if key = [] then .error ⟨parent, .emptyKey⟩
  else if !key.contains sep then .ok ()
  else if hasEmptySegment key then .error ⟨parent, .emptySegment key⟩
  else match reservedAfterDot (joinName pre key) with
  | some word =>
    if root = fieldKeystoreKeys then .error ⟨parent, .dottedReserved key (joinName pre key) word⟩
    else .error ⟨parent, .dottedKey key (joinName pre key)⟩
  | none => .error ⟨parent, .dottedKey key (joinName pre key)⟩

variable (caseFold : ℕ → ℕ)

/-- The first child that names a field of an entry. -/
def entryField (node : List (Bytes × Node)) : Option Bytes :=
  (node.find? fun c ↦ (keyEntrySchema.child caseFold c.1).isSome).map Prod.fst

mutual

/-- The first entry at or under a node. -/
def firstEntryUnder (name : Bytes) : Node → Option Bytes
  | .map sub =>
    if (entryField caseFold sub).isSome then some name else firstEntryAmong name sub
  | _ => none

/-- The first entry among children. -/
def firstEntryAmong (name : Bytes) : List (Bytes × Node) → Option Bytes
  | [] => none
  | (key, child) :: rest =>
    (firstEntryUnder (joinName name key) child).or (firstEntryAmong name rest)

end

/-- Whether a value is of the type already. -/
def TreeSchema.typed (s : TreeSchema) (v : Value) : Bool :=
  v.typ == s.typ

mutual

/-- A node has the shape of its schema. -/
def checkAgainstSchema (path label : Bytes) (s : TreeSchema) : Node → Except TreeError Unit
  | .null => .ok ()
  | .value v =>
    if s.typed v || s.leaf then .ok () else .error ⟨path, .valueForMap label⟩
  | .map sub =>
    if s.leaf then .error ⟨path, .mapForValue label⟩ else checkFieldsAgainstSchema path label s sub

/-- The children of a node are fields of its schema, and have their shapes. -/
def checkFieldsAgainstSchema (path label : Bytes) (s : TreeSchema) :
    List (Bytes × Node) → Except TreeError Unit
  | [] => .ok ()
  | (key, child) :: rest =>
    match s.child caseFold key with
    | none => .error ⟨path ++ sep :: key, .unknownField key label⟩
    | some schema =>
      match checkAgainstSchema (path ++ sep :: key) key schema child with
      | .error e => .error e
      | .ok () => checkFieldsAgainstSchema path label s rest

end

/-- The children of an entry are its fields, and none is an entry. -/
def checkEntry (name setField : Bytes) : List (Bytes × Node) → Except TreeError Unit
  | [] => .ok ()
  | (key, child) :: rest =>
    match keyEntrySchema.child caseFold key with
    | some schema =>
      match checkAgainstSchema caseFold (entryPath name ++ sep :: key) key schema child with
      | .error e => .error e
      | .ok () => checkEntry name setField rest
    | none =>
      match firstEntryUnder caseFold (joinName name key) child with
      | some nested => .error ⟨entryPath name, .parentOfEntry name setField nested⟩
      | none => .error ⟨entryPath name ++ sep :: key, .unknownEntryField key name⟩

/-- The entries read so far. -/
abbrev Entries := List (Bytes × Node)

mutual

/-- The entries under a namespace. -/
def walkKeys (pre : Bytes) : List (Bytes × Node) → Entries → Except TreeError Entries
  | [], out => .ok out
  | (key, child) :: rest, out =>
    match checkTreeKey fieldKeystoreKeys pre key with
    | .error e => .error e
    | .ok () =>
      match readKeyNode (joinName pre key) child out with
      | .error e => .error e
      | .ok out => walkKeys pre rest out

/-- The entries at a node. -/
def readKeyNode (name : Bytes) : Node → Entries → Except TreeError Entries
  | .null, out => .ok (Assign.assign name (.map []) out)
  | .value v, out =>
    if v.typ = .keyPairConfig then .ok (Assign.assign name (.value v) out)
    else .error ⟨entryPath name, .notEntry⟩
  | .map sub, out =>
    match entryField caseFold sub with
    | some field =>
      match checkEntry caseFold name field sub with
      | .error e => .error e
      | .ok () => .ok (Assign.assign name (.map sub) out)
    | none =>
      if sub.isEmpty then .ok (Assign.assign name (.map sub) out) else walkKeys name sub out

end

/-- The entries of the tree. -/
def readKeyTree (tree : List (Bytes × Node)) : Except TreeError Entries :=
  walkKeys caseFold [] tree []

end KeyStore
