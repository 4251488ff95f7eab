import GoBricks.Lib.Json.Decoder
import GoBricks.Lib.Json.Tree

/-!
# Opaque payloads in the log filter

`opaque.go`: a byte slice or string that looks like JSON is decoded, its sensitive members are
masked, and it is encoded again if anything was masked; a payload in which nothing was masked is
logged as it came. One that cannot be read, or nests too deep, is masked whole.

The filter is given by its mask, its payload limit and its table of needles; how a configuration's
field names become the table does not matter here. Lower-casing is Unicode's, with its table as the
parameter `lower`.
-/

open Json

namespace Logger

/-- The settings of a filter. -/
structure FilterConfig where
  maskValue : Bytes
  maxPayloadBytes : ℤ

/-- A filter: its settings, and its needles by their first byte unless it was built without any. -/
structure SensitiveDataFilter where
  config : FilterConfig
  needles : Option (UInt8 → List Bytes)

/-- `DefaultMaxDepth` -/
def defaultMaxDepth : ℕ := 8

/-- `DefaultMaxPayloadBytes` -/
def defaultMaxPayloadBytes : ℤ := 64 * 1024

/-- `strings.ToLower`. -/
def toLower (lower : ℕ → ℕ) (s : Bytes) : Bytes :=
  (Utf8.runes s).flatMap fun r ↦ Utf8.encodeRune (lower r)

/-! ### Private keys -/

/-- `-----` -/
def dashes : Bytes := [0x2D, 0x2D, 0x2D, 0x2D, 0x2D]

/-- `BEGIN` -/
def begin : Bytes := [0x42, 0x45, 0x47, 0x49, 0x4E]

/-- `PRIVATE KEY` -/
def privateKey : Bytes := [0x50, 0x52, 0x49, 0x56, 0x41, 0x54, 0x45, 0x20, 0x4B, 0x45, 0x59]

/-- A byte of a PEM label: an upper-case letter, a digit or a space. -/
def isLabel (b : UInt8) : Bool :=
  (0x41 ≤ b && b ≤ 0x5A) || isDigit b || b == 0x20

/-- Whether a PEM header of a private key starts here: `-----BEGIN `, a label that ends in
`PRIVATE KEY`, and `-----`. -/
def pemHeaderAt (t : Bytes) : Bool :=
  (dashes ++ begin ++ [0x20]).isPrefixOf t &&
    let label := (t.drop 11).takeWhile isLabel
    privateKey.isSuffixOf label && dashes.isPrefixOf ((t.drop 11).dropWhile isLabel)

/-- Whether the marker `-----BEGIN` occurs. -/
def containsPEMBeginMarker (value : Bytes) : Bool :=
  value.tails.any fun t ↦ (dashes ++ begin).isPrefixOf t

/-- Whether the value holds a PEM private key. -/
def looksLikePEMPrivateKey (value : Bytes) : Bool :=
  containsPEMBeginMarker value && value.tails.any pemHeaderAt

/-! ### Names -/

/-- `kty` -/
def kty : Bytes := [0x6B, 0x74, 0x79]

/-- `d`, `p`, `q`, `dp`, `dq`, `qi`, `k`, `oth` -/
def jwkPrivateMembers : List Bytes :=
  [[0x64], [0x70], [0x71], [0x64, 0x70], [0x64, 0x71], [0x71, 0x69], [0x6B], [0x6F, 0x74, 0x68]]

/-- Whether the name is that of key material in a JWK. -/
def isJWKPrivateMember (name : Bytes) : Bool :=
  jwkPrivateMembers.contains name

namespace SensitiveDataFilter

variable (lower : ℕ → ℕ) (f : SensitiveDataFilter)

/-- Whether a needle stands in the lower-cased name. -/
def isSensitiveField (fieldName : Bytes) : Bool :=
  match f.needles with
  | none => false
  | some byFirstByte =>
    (toLower lower fieldName).tails.any fun t ↦
      match t with
      | [] => false
      | b :: _ => (byFirstByte b).any fun n ↦ n.isPrefixOf t

/-- Whether the value of a member is masked, in a JWK or not. -/
def isSecret (jwk : Bool) (name : Bytes) : Bool :=
  f.isSensitiveField lower name || (jwk && isJWKPrivateMember name)

/-- The payload limit; zero means the default. -/
def maxPayloadBytes : ℤ :=
  if f.config.maxPayloadBytes = 0 then defaultMaxPayloadBytes else f.config.maxPayloadBytes

/-! ### The walk -/

/-- `maskJSONValue` past its own depth check, `maskJSONObject` and `maskJSONArray`, with whether
anything was masked. Elements and entries are walked with the depth of what holds them, and entries
with whether that is a JWK. The entries of a map come in no particular order: one too deep fails the
whole walk wherever it comes. -/
def maskJSON : {c : Cat} → Tree c → Bool → ℕ → Option (Tree c × Bool)
  | _, .null, _, _ => some (.null, false)
  | _, .bool b, _, _ => some (.bool b, false)
  | _, .number lit, _, _ => some (.number lit, false)
  | _, .string s, _, _ =>
    if looksLikePEMPrivateKey s then
      some (.string f.config.maskValue, true)
    else
      some (.string s, false)
  | _, .array es, _, depth => do
    let (es, changed) ← maskJSON es false depth
    return (.array es, changed)
  | _, .object ms, _, depth => do
    let (ms, changed) ← maskJSON ms (Tree.hasKey kty ms) depth
    return (.object ms, changed)
  | _, .noElement, _, _ => some (.noElement, false)
  | _, .element v es, jwk, depth =>
    if depth ≤ 1 then
      none
    else do
      let (v, changed) ← maskJSON v false (depth - 1)
      let (es, changed') ← maskJSON es jwk depth
      return (.element v es, changed || changed')
  | _, .noEntry, _, _ => some (.noEntry, false)
  | _, .entry key v ms, jwk, depth =>
    if f.isSecret lower jwk key then do
      let (ms, _) ← maskJSON ms jwk depth
      return (.entry key (.string f.config.maskValue) ms, true)
    else if depth ≤ 1 then
      none
    else do
      let (v, changed) ← maskJSON v false (depth - 1)
      let (ms, changed') ← maskJSON ms jwk depth
      return (.entry key v ms, changed || changed')

/-- The walk of a decoded document, with whether anything was masked; none if it is too deep. -/
def maskJSONValue (value : Tree .value) (depth : ℕ) : Option (Tree .value × Bool) :=
  if depth = 0 then none else f.maskJSON lower value false depth

end SensitiveDataFilter

/-! ### Payloads -/

/-- Whether the first byte that is not whitespace opens an object or an array. -/
def looksLikeJSON (payload : Bytes) : Bool :=
  match skip payload with
  | [] => false
  | b :: _ => b = 0x7B || b = 0x5B

/-- Decodes a payload that is one JSON value. What follows it is refused by decoding again: only the
end of the input will do. -/
def decodeJSONPayload (payload : Bytes) : Option (Tree .value) :=
  match parseValue maxNestingDepth (skip payload) with
  | none => none
  | some (v, rest) => if skip rest = [] then some v.value else none

/-- What is logged in place of a payload. -/
inductive Filtered
  /-- The payload as it came. -/
  | original (payload : Bytes)
  /-- The mask alone. -/
  | mask (maskValue : Bytes)
  /-- The masked document, encoded again. -/
  | encoded (doc : Bytes)
  deriving DecidableEq

/-- What is logged in place of a payload. -/
def filterOpaquePayload (lower : ℕ → ℕ) (f : SensitiveDataFilter) (payload : Bytes) : Filtered :=
  if f.config.maxPayloadBytes < 0 then
    .original payload
  else if !looksLikeJSON payload then
    if payload.length ≤ f.maxPayloadBytes && looksLikePEMPrivateKey payload then
      .mask f.config.maskValue
    else
      .original payload
  else if payload.length > f.maxPayloadBytes then
    .mask f.config.maskValue
  else
    match decodeJSONPayload payload with
    | none => .mask f.config.maskValue
    | some decoded =>
      match f.maskJSONValue lower decoded defaultMaxDepth with
      | none => .mask f.config.maskValue
      | some (masked, changed) => if changed then .encoded masked.marshal else .original payload

/-- `password` -/
def passwordText : Bytes := [0x70, 0x61, 0x73, 0x73, 0x77, 0x6F, 0x72, 0x64]

/-- A filter for `password`, with the mask `*`. -/
def passwordFilter : SensitiveDataFilter where
  config := { maskValue := [0x2A], maxPayloadBytes := 0 }
  needles := some fun b ↦ if b = 0x70 then [passwordText] else []

end Logger
