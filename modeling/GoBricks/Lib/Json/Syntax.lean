import GoBricks.Lib.Utf8

/-!
# JSON texts

The grammar of JSON (RFC 8259) over byte strings, as a type of **concrete syntax**: a `Syn` holds
every byte of the text it stands for, whitespace included, and `Syn.text` writes it out. A byte
string is a JSON value exactly when it is the text of some `Json.Value`, so a change to a text at
one place is a change to the tree at one place.

The three syntactic categories, a value, the elements of an array and the members of an object, are
one inductive family, and an argument about texts is one induction over it. Elements and members
come in nonempty runs; the empty array and the empty object are constructors of their own, since
they hold whitespace that belongs to no item.

Strings are what the grammar of `encoding/json` makes of them: any byte from `0x20` on that is
neither a quote nor a backslash may stand for itself, whether or not the whole is UTF-8.
-/

namespace Json

/-! ### Bytes -/

/-- Space, tab, line feed, carriage return. -/
def isSpace (b : UInt8) : Bool :=
  b == 0x20 || b == 0x09 || b == 0x0A || b == 0x0D

/-- `0` to `9`. -/
def isDigit (b : UInt8) : Bool :=
  0x30 ≤ b && b ≤ 0x39

/-- `0` to `9`, `a` to `f`, `A` to `F`. -/
def isHex (b : UInt8) : Bool :=
  isDigit b || (0x61 ≤ b && b ≤ 0x66) || (0x41 ≤ b && b ≤ 0x46)

/-- What may follow a backslash, `u` apart: `"`, `\`, `/`, `b`, `f`, `n`, `r`, `t`. -/
def isEscape (b : UInt8) : Bool :=
  b == 0x22 || b == 0x5C || b == 0x2F || b == 0x62 || b == 0x66 || b == 0x6E || b == 0x72 ||
    b == 0x74

/-- What may stand for itself in a string. -/
def isPlain (b : UInt8) : Bool :=
  0x20 ≤ b && b != 0x22 && b != 0x5C

/-! ### Tokens -/

/-- The bytes between the quotes of a string. -/
inductive Interior : Bytes → Prop
  | nil : Interior []
  | plain {b : UInt8} {w : Bytes} : isPlain b → Interior w → Interior (b :: w)
  | escape {c : UInt8} {w : Bytes} : isEscape c → Interior w → Interior (0x5C :: c :: w)
  | unicode {h : Bytes} {w : Bytes} : h.length = 4 → h.all isHex → Interior w →
      Interior (0x5C :: 0x75 :: (h ++ w))

/-- A string token, quotes included. -/
def IsString (t : Bytes) : Prop :=
  ∃ w, Interior w ∧ t = 0x22 :: (w ++ [0x22])

/-- One or more digits. -/
def IsDigits (t : Bytes) : Prop :=
  t ≠ [] ∧ t.all isDigit

/-- The sign of a number. -/
def IsSign (t : Bytes) : Prop :=
  t = [] ∨ t = [0x2D]

/-- The integer part of a number: no leading zero, unless it is the only digit. -/
def IsInt (t : Bytes) : Prop :=
  t = [0x30] ∨ ∃ d ds, t = d :: ds ∧ d ≠ 0x30 ∧ isDigit d ∧ ds.all isDigit

/-- The fraction of a number, with its point. -/
def IsFrac (t : Bytes) : Prop :=
  t = [] ∨ ∃ ds, t = 0x2E :: ds ∧ IsDigits ds

/-- The exponent of a number, with its letter and sign. -/
def IsExp (t : Bytes) : Prop :=
  t = [] ∨ ∃ e sign ds, t = e :: (sign ++ ds) ∧ (e = 0x65 ∨ e = 0x45) ∧
    (sign = [] ∨ sign = [0x2B] ∨ sign = [0x2D]) ∧ IsDigits ds

/-- A number token. -/
def IsNumber (t : Bytes) : Prop :=
  ∃ sign int frac exp, IsSign sign ∧ IsInt int ∧ IsFrac frac ∧ IsExp exp ∧
    t = sign ++ (int ++ (frac ++ exp))

/-- `null`. -/
def nullText : Bytes := [0x6E, 0x75, 0x6C, 0x6C]

/-- `true`. -/
def trueText : Bytes := [0x74, 0x72, 0x75, 0x65]

/-- `false`. -/
def falseText : Bytes := [0x66, 0x61, 0x6C, 0x73, 0x65]

/-- `null`, `true` and `false`. -/
def literals : List Bytes := [nullText, trueText, falseText]

/-- A token that is a value on its own. -/
def IsScalar (t : Bytes) : Prop :=
  t ∈ literals ∨ IsString t ∨ IsNumber t

/-- A run of whitespace. -/
abbrev Blank := { t : Bytes // t.all isSpace }

/-- One run of whitespace after another. -/
def Blank.append (b b' : Blank) : Blank :=
  ⟨b.1 ++ b'.1, by rw [List.all_append, b.2, b'.2]; rfl⟩

/-- A string token. -/
abbrev Key := { t : Bytes // IsString t }

/-- A token that is a value on its own. -/
abbrev Scalar := { t : Bytes // IsScalar t }

/-- A member up to its value: whitespace, its name, and the colon with the whitespace around it. -/
structure Name where
  lead : Blank
  key : Key
  post : Blank
  inner : Blank

/-- The text of a member up to its value. -/
def Name.text (n : Name) : Bytes :=
  n.lead.1 ++ (n.key.1 ++ (n.post.1 ++ 0x3A :: n.inner.1))

/-! ### Concrete syntax -/

/-- The syntactic categories. -/
inductive Cat
  | value
  | elements
  | members

/-- Concrete syntax. Every whitespace a text may hold has its place. -/
inductive Syn : Cat → Type
  | scalar (s : Scalar) : Syn .value
  | emptyArray (b : Blank) : Syn .value
  | array (es : Syn .elements) : Syn .value
  | emptyObject (b : Blank) : Syn .value
  | object (ms : Syn .members) : Syn .value
  | lastElement (lead : Blank) (v : Syn .value) (trail : Blank) : Syn .elements
  | element (lead : Blank) (v : Syn .value) (trail : Blank) (es : Syn .elements) : Syn .elements
  | lastMember (n : Name) (v : Syn .value) (trail : Blank) : Syn .members
  | member (n : Name) (v : Syn .value) (trail : Blank) (ms : Syn .members) : Syn .members

/-- A JSON value, as it is written. -/
abbrev Value := Syn .value

namespace Syn

/-- The bytes of a text. -/
def text : {c : Cat} → Syn c → Bytes
  | _, scalar s => s.1
  | _, emptyArray b => 0x5B :: (b.1 ++ [0x5D])
  | _, array es => 0x5B :: (es.text ++ [0x5D])
  | _, emptyObject b => 0x7B :: (b.1 ++ [0x7D])
  | _, object ms => 0x7B :: (ms.text ++ [0x7D])
  | _, lastElement lead v trail => lead.1 ++ (v.text ++ trail.1)
  | _, element lead v trail es => lead.1 ++ (v.text ++ (trail.1 ++ 0x2C :: es.text))
  | _, lastMember n v trail => n.text ++ (v.text ++ trail.1)
  | _, member n v trail ms => n.text ++ (v.text ++ (trail.1 ++ 0x2C :: ms.text))

/-- How deep arrays and objects nest. -/
def depth : {c : Cat} → Syn c → ℕ
  | _, scalar _ => 0
  | _, emptyArray _ => 1
  | _, array es => es.depth + 1
  | _, emptyObject _ => 1
  | _, object ms => ms.depth + 1
  | _, lastElement _ v _ => v.depth
  | _, element _ v _ es => max v.depth es.depth
  | _, lastMember _ v _ => v.depth
  | _, member _ v _ ms => max v.depth ms.depth

end Syn

/-! ### What can follow a value -/

/-- The text goes on as it may after a value: it ends, or with whitespace, a comma or a closing
delimiter. -/
def Follows (r : Bytes) : Prop :=
  ∀ b ∈ r.head?, isSpace b ∨ b = 0x2C ∨ b = 0x5D ∨ b = 0x7D

theorem follows_nil : Follows [] := by
  simp [Follows]

theorem follows_cons {b : UInt8} {r : Bytes} (h : isSpace b ∨ b = 0x2C ∨ b = 0x5D ∨ b = 0x7D) :
    Follows (b :: r) := by
  simpa [Follows] using h

/-- Whitespace before a text that may follow a value may follow it too. -/
theorem Follows.blank {r : Bytes} (h : Follows r) (b : Blank) : Follows (b.1 ++ r) := by
  obtain ⟨t, ht⟩ := b
  cases t with
  | nil => exact h
  | cons c t => exact follows_cons (.inl (List.all_eq_true.mp ht c (by simp)))

end Json
