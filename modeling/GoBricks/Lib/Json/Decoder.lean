import GoBricks.Lib.Json.Strings

/-!
# The streaming decoder

`json.Decoder` over a byte string that is there from the start: it hands out the tokens of a text
one by one (`token`), or decodes whole values between them (`decode`), and keeps track of where in
an array or object it stands.

`more` asks only whether the next byte that is not whitespace is something other than a closing
delimiter. Inside an array or object that tells whether another item follows; outside, it does not
tell whether the input has ended.

Arrays and objects nest at most `maxNestingDepth` deep, the package's own limit. It counts the ones
that are open where a value is asked for, too. How a decoder fails is not modelled, only that it
does.
-/

namespace Json

/-- How deep arrays and objects nest. -/
def maxNestingDepth : ℕ := 10000

/-- Where in an array or object the decoder stands. -/
inductive TokenState
  | topValue
  | arrayStart
  | arrayValue
  | arrayComma
  | objectStart
  | objectKey
  | objectColon
  | objectValue
  | objectComma
  deriving DecidableEq

/-- What `Token` returns: a delimiter, the name of a member, or a value that is a token. -/
inductive Token
  | delim (b : UInt8)
  | name (s : Bytes)
  | value (v : Value)

/-- A decoder: the input not yet read, how much has been read, and where in the text it stands. -/
structure Decoder where
  rest : Bytes
  offset : ℕ
  state : TokenState
  stack : List TokenState

namespace Decoder

/-- `json.NewDecoder(bytes.NewReader(doc))`. -/
def new (doc : Bytes) : Decoder :=
  ⟨doc, 0, .topValue, []⟩

/-- The decoder after the next `n` bytes. -/
def advance (d : Decoder) (n : ℕ) : Decoder :=
  { d with rest := d.rest.drop n, offset := d.offset + n }

/-- The next byte that is not whitespace, and the decoder before it. -/
def peek (d : Decoder) : Option (UInt8 × Decoder) :=
  match skip d.rest with
  | [] => none
  | b :: _ => some (b, d.advance (blank d.rest).1.length)

/-- Whether there is another item in the array or object being read. It leaves the decoder before
the byte it looked at. -/
def more (d : Decoder) : Option Decoder :=
  match d.peek with
  | none => none
  | some (b, d) => if b = 0x5D ∨ b = 0x7D then none else some d

/-- Whether a value may stand here. -/
def valueAllowed (d : Decoder) : Bool :=
  match d.state with
  | .topValue | .arrayStart | .arrayValue | .objectValue => true
  | _ => false

/-- The state after a value. -/
def valueEnd (d : Decoder) : Decoder :=
  match d.state with
  | .arrayStart | .arrayValue => { d with state := .arrayComma }
  | .objectValue => { d with state := .objectComma }
  | _ => d

/-- The next value, whatever stands before it in the text. It may nest as deep as the arrays and
objects that are open leave room for. -/
def readValue (d : Decoder) : Option (Value × Decoder) :=
  match parseValue (maxNestingDepth - d.stack.length) (skip d.rest) with
  | none => none
  | some (v, _) => some (v, d.advance ((blank d.rest).1.length + v.text.length))

/-- Passes the separator before a value. -/
def prepare (d : Decoder) : Option Decoder :=
  match d.state with
  | .arrayComma =>
    match d.peek with
    | some (b, d) => if b = 0x2C then some { d.advance 1 with state := .arrayValue } else none
    | none => none
  | .objectColon =>
    match d.peek with
    | some (b, d) => if b = 0x3A then some { d.advance 1 with state := .objectValue } else none
    | none => none
  | _ => some d

/-- `Decode`: the next value. -/
def decode (d : Decoder) : Option (Value × Decoder) :=
  match d.prepare with
  | none => none
  | some d =>
    if d.valueAllowed then
      match d.readValue with
      | none => none
      | some (v, d) => some (v, d.valueEnd)
    else
      none

/-- Leaves the array or object that ends here. -/
def pop (d : Decoder) : Option Decoder :=
  match d.stack with
  | [] => none
  | s :: stack => some (valueEnd { d.advance 1 with state := s, stack := stack })

/-- The name of a member. -/
def readName (d : Decoder) : Option (Token × Decoder) :=
  match d.readValue with
  | some (.scalar s, d) => some (.name (unquote s.1), { d with state := .objectColon })
  | _ => none

/-- The token that starts with the given byte. No token starts with a separator: `token` has passed
the one that may stand here, and none may follow it. -/
def tokenAt (d : Decoder) (b : UInt8) : Option (Token × Decoder) :=
  if b = 0x5B then
    if d.valueAllowed ∧ d.stack.length < maxNestingDepth then
      some (.delim b, { d.advance 1 with state := .arrayStart, stack := d.state :: d.stack })
    else
      none
  else if b = 0x5D then
    if d.state = .arrayStart ∨ d.state = .arrayComma then
      d.pop.map fun d ↦ (.delim b, d)
    else
      none
  else if b = 0x7B then
    if d.valueAllowed ∧ d.stack.length < maxNestingDepth then
      some (.delim b, { d.advance 1 with state := .objectStart, stack := d.state :: d.stack })
    else
      none
  else if b = 0x7D then
    if d.state = .objectStart ∨ d.state = .objectComma then
      d.pop.map fun d ↦ (.delim b, d)
    else
      none
  else if b = 0x3A ∨ b = 0x2C then
    none
  else if b = 0x22 ∧ (d.state = .objectStart ∨ d.state = .objectKey) then
    d.readName
  else
    d.decode.map fun p ↦ (.value p.1, p.2)

/-- `Token`: the next token. A separator that may stand here is passed over. -/
def token (d : Decoder) : Option (Token × Decoder) :=
  match d.peek with
  | none => none
  | some (b, d) =>
    if b = 0x3A ∧ d.state = .objectColon then
      match { d.advance 1 with state := .objectValue }.peek with
      | none => none
      | some (b, d) => d.tokenAt b
    else if b = 0x2C ∧ d.state = .arrayComma then
      match { d.advance 1 with state := .arrayValue }.peek with
      | none => none
      | some (b, d) => d.tokenAt b
    else if b = 0x2C ∧ d.state = .objectComma then
      match { d.advance 1 with state := .objectKey }.peek with
      | none => none
      | some (b, d) => d.tokenAt b
    else
      d.tokenAt b

end Decoder

end Json
