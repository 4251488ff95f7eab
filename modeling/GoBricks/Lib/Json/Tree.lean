import GoBricks.Lib.Json.Strings
import Mathlib.Data.List.Sort

/-!
# Decoded values

What `encoding/json` decodes a text into when it is given an `any`, numbers kept as they are
written: `null`, booleans, numbers, strings, slices and maps. A map keeps one value a key, and the
last member of a name wins (`Tree.insert`); the order of the entries means nothing, and `marshal`
writes them sorted by key.

As with the concrete syntax, values, elements and entries are one family.
-/

namespace Json

/-- Decoded values, the elements of a slice, and the entries of a map. -/
inductive Tree : Cat → Type
  | null : Tree .value
  | bool (b : Bool) : Tree .value
  | number (lit : Bytes) : Tree .value
  | string (s : Bytes) : Tree .value
  | array (es : Tree .elements) : Tree .value
  | object (ms : Tree .members) : Tree .value
  | noElement : Tree .elements
  | element (v : Tree .value) (es : Tree .elements) : Tree .elements
  | noEntry : Tree .members
  | entry (key : Bytes) (v : Tree .value) (ms : Tree .members) : Tree .members

namespace Tree

/-- `m[key] = v`. Only a map changes. -/
def insert (key : Bytes) (v : Tree .value) : {c : Cat} → Tree c → Tree c
  | _, noEntry => entry key v noEntry
  | _, entry key' v' ms =>
    if key' = key then entry key' v ms else entry key' v' (insert key v ms)
  | _, t => t

/-- Whether the map has the key. -/
def hasKey (key : Bytes) : {c : Cat} → Tree c → Bool
  | _, entry key' _ ms => key' = key || hasKey key ms
  | _, _ => false

@[simp] theorem hasKey_noEntry (key : Bytes) : hasKey key noEntry = false := rfl

end Tree

/-- The value of a token. -/
def Scalar.decode (s : Scalar) : Tree .value :=
  match s.1 with
  | [] => .null
  | b :: t =>
    if b = 0x6E then .null
    else if b = 0x74 then .bool true
    else if b = 0x66 then .bool false
    else if b = 0x22 then .string (unquote (b :: t))
    else .number (b :: t)

/-- What a text decodes into. The members of an object go into the map given with them, from the
first to the last. -/
def Syn.decode : {c : Cat} → Syn c → Tree .members → Tree c
  | _, .scalar s, _ => s.decode
  | _, .emptyArray _, _ => .array .noElement
  | _, .array es, _ => .array (es.decode .noEntry)
  | _, .emptyObject _, _ => .object .noEntry
  | _, .object ms, _ => .object (ms.decode .noEntry)
  | _, .lastElement _ v _, _ => .element (v.decode .noEntry) .noElement
  | _, .element _ v _ es, _ => .element (v.decode .noEntry) (es.decode .noEntry)
  | _, .lastMember n v _, m => Tree.insert n.name (v.decode .noEntry) m
  | _, .member n v _ ms, m => ms.decode (Tree.insert n.name (v.decode .noEntry) m)

/-- The value a text stands for. -/
def Syn.value (v : Value) : Tree .value :=
  v.decode .noEntry

/-! ### Encoding -/

/-- A hexadecimal digit. -/
def hexDigit (n : ℕ) : UInt8 :=
  if n < 10 then .ofNat (0x30 + n) else .ofNat (0x57 + n)

/-- `\u00` and two hexadecimal digits. -/
def escapeByte (b : UInt8) : Bytes :=
  [0x5C, 0x75, 0x30, 0x30, hexDigit (b.toNat / 16), hexDigit (b.toNat % 16)]

/-- How a byte below 0x80 is written in a string; `<`, `>` and `&` are escaped too. -/
def quoteByte (b : UInt8) : Bytes :=
  if b = 0x22 ∨ b = 0x5C then [0x5C, b]
  else if b = 0x08 then [0x5C, 0x62]
  else if b = 0x0C then [0x5C, 0x66]
  else if b = 0x0A then [0x5C, 0x6E]
  else if b = 0x0D then [0x5C, 0x72]
  else if b = 0x09 then [0x5C, 0x74]
  else if b < 0x20 ∨ b = 0x3C ∨ b = 0x3E ∨ b = 0x26 then escapeByte b
  else [b]

/-- How a rune is written in a string: what is not UTF-8, and the line separators U+2028 and U+2029,
are escaped. -/
def quoteRune (bs : Bytes) (p : ℕ × ℕ) : Bytes :=
  if p.1 = Utf8.replacement ∧ p.2 = 1 then [0x5C, 0x75, 0x66, 0x66, 0x66, 0x64]
  else if p.1 = 0x2028 then [0x5C, 0x75, 0x32, 0x30, 0x32, 0x38]
  else if p.1 = 0x2029 then [0x5C, 0x75, 0x32, 0x30, 0x32, 0x39]
  else bs.take p.2

/-- The bytes between the quotes; the first argument bounds the recursion. -/
def quoteFrom : ℕ → Bytes → Bytes
  | 0, _ => []
  | _ + 1, [] => []
  | n + 1, b :: bs =>
    if b < 0x80 then
      quoteByte b ++ quoteFrom n bs
    else
      let p := Utf8.decodeRune (b :: bs)
      quoteRune (b :: bs) p ++ quoteFrom n ((b :: bs).drop p.2)

/-- A string as `json.Marshal` writes it. -/
def quote (s : Bytes) : Bytes :=
  0x22 :: (quoteFrom s.length s ++ [0x22])

/-- Texts between commas. -/
def commaSeparated : List Bytes → Bytes
  | [] => []
  | [t] => t
  | t :: ts => t ++ 0x2C :: commaSeparated ts

namespace Tree

/-- A piece of output: the text of a value or element, or a key and the text of its value. -/
def pieces : {c : Cat} → Tree c → List (Bytes × Bytes)
  | _, null => [([], nullText)]
  | _, bool b => [([], if b then trueText else falseText)]
  | _, number lit => [([], lit)]
  | _, string s => [([], quote s)]
  | _, array es => [([], 0x5B :: (commaSeparated (es.pieces.map (·.2)) ++ [0x5D]))]
  | _, object ms =>
    let sorted := ms.pieces.insertionSort (·.1 ≤ ·.1)
    [([], 0x7B :: (commaSeparated (sorted.map fun p ↦ quote p.1 ++ 0x3A :: p.2) ++ [0x7D]))]
  | _, noElement => []
  | _, element v es => ([], (v.pieces.map (·.2)).flatten) :: es.pieces
  | _, noEntry => []
  | _, entry key v ms => (key, (v.pieces.map (·.2)).flatten) :: ms.pieces

/-- `json.Marshal` of a decoded value. -/
def marshal (v : Tree .value) : Bytes :=
  (v.pieces.map (·.2)).flatten

end Tree

end Json
