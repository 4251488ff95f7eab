import GoBricks.Lib.Text
import Mathlib.Tactic.Common

/-!
# Redacting statements

`Statement` cuts a text of SQL at its first **credential clause**: the word `PASSWORD` before a
value, or the words `IDENTIFIED BY`. Between the words there may be a **gap** of white space and
comments, of which at most `maxGapBytes` bytes are read.

The source walks over a string by index. Here a position is the text from it on, together with the
byte before it: `sql[i:]` and `sql[i-1]`.
-/

open Text

namespace SqlRedact

/-! ### Bytes -/

/-- An ASCII letter. -/
def isLetter (c : UInt8) : Bool :=
  (0x61 ≤ c && c ≤ 0x7A) || (0x41 ≤ c && c ≤ 0x5A)

/-- A byte of a word. -/
def isWordByte (c : UInt8) : Bool :=
  c == 0x5F || isLetter c || (0x30 ≤ c && c ≤ 0x39)

/-- The lower case of a letter. -/
def lowerASCII (c : UInt8) : UInt8 :=
  if 0x41 ≤ c && c ≤ 0x5A then c + 0x20 else c

/-- White space. -/
def isSpace (c : UInt8) : Bool :=
  c == 0x20 || c == 0x09 || c == 0x0A || c == 0x0D || c == 0x0B || c == 0x0C

/-- A line comment ends before such a byte. -/
def isNewline (c : UInt8) : Bool :=
  c == 0x0A || c == 0x0D

/-! ### Words -/

/-- The keywords that a credential follows. -/
inductive Keyword
  | password
  | identified
  deriving DecidableEq

/-- A keyword in lower case. -/
def Keyword.text : Keyword → Bytes
  | .password => ascii "password"
  | .identified => ascii "identified"

/-- The keyword after `IDENTIFIED`. -/
def kwBy : Bytes :=
  ascii "by"

/-- What stands for a password. -/
def pgPasswordTail : Bytes :=
  ascii " '[REDACTED]'"

/-- What stands for a credential that cannot be located. -/
def redactedTail : Bytes :=
  ascii " [REDACTED]"

/-- Whether a keyword stands at a position as a whole word. -/
def wordAt (before : Option UInt8) (text keyword : Bytes) : Bool :=
  if text.length < keyword.length then false
  else if before.any isWordByte then false
  else if (text.drop keyword.length).head?.any isWordByte then false
  else (text.take keyword.length).map lowerASCII == keyword

/-- A string literal starts here. -/
def startsValue : Bytes → Bool
  | [] => false
  | c :: text =>
    c == 0x27 || c == 0x24 || isLetter c && (text.head? == some 0x27 || text.take 2 == [0x26, 0x27])

/-! ### Gaps -/

/-- How far a gap is read. -/
def maxGapBytes : ℕ := 4096

/-- What comes after a block comment that is open. There is nothing when it is not closed, or when
another one is opened in it. -/
def closeBlock : Bytes → Option Bytes
  | [] => none
  | [_] => none
  | c :: d :: text =>
    if c == 0x2F && d == 0x2A then none
    else if c == 0x2A && d == 0x2F then some text
    else closeBlock (d :: text)

/-- What comes after the comment at a position: `none` when there is no comment, `some none` when it
is not closed. -/
def skipComment : Bytes → Option (Option Bytes)
  | 0x2D :: 0x2D :: text => some (some (text.dropWhile fun c ↦ !isNewline c))
  | 0x2F :: 0x2A :: text => some (closeBlock text)
  | _ => none

theorem length_closeBlock_lt {text rest : Bytes} (h : closeBlock text = some rest) :
    rest.length < text.length := by
  induction text using closeBlock.induct with
  | case1 | case2 => cases h
  | case3 c d text hopen =>
    rw [closeBlock, if_pos hopen] at h
    cases h
  | case4 c d text hopen hclose =>
    rw [closeBlock, if_neg hopen, if_pos hclose] at h
    cases h
    simp only [List.length_cons]
    omega
  | case5 c d text hopen hclose ih =>
    rw [closeBlock, if_neg hopen, if_neg hclose] at h
    exact (ih h).trans (Nat.lt_succ_self _)

theorem length_skipComment_lt {text rest : Bytes} (h : skipComment text = some (some rest)) :
    rest.length < text.length := by
  revert h
  fun_cases skipComment text with
  | case1 text =>
    intro h
    cases Option.some.inj h
    have := (text.dropWhile_suffix fun c ↦ !isNewline c).length_le
    simp only [List.length_cons]
    omega
  | case2 text =>
    intro h
    have := length_closeBlock_lt (Option.some.inj h)
    simp only [List.length_cons]
    omega
  | case3 => exact nofun

/-- What comes after the gap at a position, or nothing when the gap ends in a comment that is not
closed. -/
def skipGaps : Bytes → Option Bytes
  | [] => some []
  | c :: text =>
    if isSpace c then skipGaps text
    else
      match _h : skipComment (c :: text) with
      | none => some (c :: text)
      | some none => none
      | some (some rest) => skipGaps rest
  termination_by text => text.length
  decreasing_by
  · exact Nat.lt_succ_self _
  · exact length_skipComment_lt _h

/-- How many bytes of a text are a gap, and whether the value behind it could not be located. -/
def skipGap (text : Bytes) : ℕ × Bool :=
  let window := text.take maxGapBytes
  match skipGaps window with
  | none => (window.length, true)
  | some rest => (window.length - rest.length, rest.isEmpty && maxGapBytes < text.length)

/-! ### Statements -/

/-- What stands for the text after `PASSWORD`, when that is a credential. -/
def passwordTail (text : Bytes) : Option Bytes :=
  let gap := skipGap text
  if gap.2 || startsValue (text.drop gap.1) then some pgPasswordTail else none

/-- What stands for the text after `IDENTIFIED`, as the text spells it, when that is a credential.
-/
def identifiedTail (word text : Bytes) : Option Bytes :=
  let gap := skipGap text
  if gap.2 then some redactedTail
  else if wordAt (word ++ text.take gap.1).getLast? (text.drop gap.1) kwBy then
    some (text.take (gap.1 + kwBy.length) ++ redactedTail)
  else none

/-- What stands for the text after a keyword, as the text spells it. -/
def Keyword.tail : Keyword → Bytes → Bytes → Option Bytes
  | .password, _ => passwordTail
  | .identified, word => identifiedTail word

/-- What stands for a text that starts with a keyword, when that is a credential clause. -/
def Keyword.clauseAt (keyword : Keyword) (text : Bytes) : Option Bytes :=
  let word := text.take keyword.text.length
  (keyword.tail word (text.drop keyword.text.length)).map (word ++ ·)

/-- One turn of the loop of `Statement`: what stands for the text from a position on, when there is
a credential clause. -/
def redactAt (before : Option UInt8) (text : Bytes) : Option Bytes :=
  if wordAt before text Keyword.password.text then Keyword.password.clauseAt text
  else if wordAt before text Keyword.identified.text then Keyword.identified.clauseAt text
  else none

/-- The loop of `Statement`, from a position on. -/
def statementFrom : Option UInt8 → Bytes → Bytes
  | _, [] => []
  | before, c :: text => (redactAt before (c :: text)).getD (c :: statementFrom (some c) text)

/-- The statement without its credentials. -/
def statement (sql : Bytes) : Bytes :=
  statementFrom none sql

end SqlRedact
