import GoBricks.Lib.Json.Object

/-!
# Locating and replacing the Subject

`splice.go`: the **Subject** of an event is the value of one top-level member of its document.
Sealing replaces the bytes of that value, opening puts them back, and everything else in the
document stays as it is. All of it works on byte spans, and `locateSubject` is the walk that finds
them.

The walk goes through the streaming decoder of `encoding/json`. Case folding is Unicode's; its table
is the parameter `fold`.
-/

open Json Utf8

namespace Sealed

/-- Where the Subject is: its value, the span `[start, stop)` of the value in the document, and the
first byte of the whole member, which is its comma when it has one. -/
structure SubjectSpan where
  value : Bytes
  start : ℕ
  stop : ℕ
  memberStart : ℕ
  deriving DecidableEq

/-- Why a document is refused. -/
inductive LocateError
  /-- `errDocNotObject`, also around a failure of the decoder. -/
  | docNotObject
  /-- `errSubjectAbsent` -/
  | subjectAbsent
  /-- `errSubjectDuplicate` -/
  | subjectDuplicate
  /-- `errDocTrailingContent` -/
  | docTrailingContent
  /-- `errSubjectCaseFoldTwin` -/
  | subjectCaseFoldTwin
  deriving DecidableEq

/-- Consumes the next token, which must be the delimiter. -/
def expectDelim (dec : Decoder) (want : UInt8) : Except LocateError Decoder :=
  match dec.token with
  | some (.delim delim, dec) => if delim = want then .ok dec else .error .docNotObject
  | _ => .error .docNotObject

/-- The string a token is. In key position the decoder yields a name, never another token. -/
def tokenString : Token → Bytes
  | .name s => s
  | _ => []

/-- Consumes one member: its decoded name and its value as it is written. -/
def nextMember (dec : Decoder) : Except LocateError (Bytes × Bytes × Decoder) :=
  match dec.token with
  | none => .error .docNotObject
  | some (tok, dec) =>
    match dec.decode with
    | none => .error .docNotObject
    | some (raw, dec) => .ok (tokenString tok, raw.text, dec)

/-- What the walk does with a member it has read: keeps its place if it is the Subject, and refuses
a second one and a twin. -/
def judge (fold : ℕ → ℕ) (path key : Bytes) (span : SubjectSpan) (found : Option SubjectSpan) :
    Except LocateError (Option SubjectSpan) :=
  if key = path then
    if found.isSome then .error .subjectDuplicate else .ok (some span)
  else if equalFold fold key path then
    .error .subjectCaseFoldTwin
  else
    .ok found

/-- The loop of `locateSubject`. The first argument bounds the recursion: every turn consumes a
member. -/
def walk (fold : ℕ → ℕ) (path : Bytes) :
    ℕ → Decoder → Option SubjectSpan → Except LocateError (Decoder × Option SubjectSpan)
  | 0, _, _ => .error .docNotObject
  | n + 1, dec, found =>
    match dec.more with
    | none => .ok (dec, found)
    | some dec => do
      let leadStart := dec.offset
      let (key, raw, dec) ← nextMember dec
      let stop := dec.offset
      let found ← judge fold path key ⟨raw, stop - raw.length, stop, leadStart⟩ found
      walk fold path n dec found

/-- Closes the object; the document must end there. -/
def finishWalk (dec : Decoder) (found : Option SubjectSpan) : Except LocateError SubjectSpan := do
  let dec ← expectDelim dec 0x7D
  if dec.more.isSome then
    .error .docTrailingContent
  else
    match found with
    | none => .error .subjectAbsent
    | some span => .ok span

/-- The span of the top-level member named `path`. -/
def locateSubject (fold : ℕ → ℕ) (doc path : Bytes) : Except LocateError SubjectSpan := do
  let dec ← expectDelim (.new doc) 0x7B
  let (dec, found) ← walk fold path (doc.length + 1) dec none
  finishWalk dec found

end Sealed
