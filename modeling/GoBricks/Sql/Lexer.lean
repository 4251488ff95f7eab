import GoBricks.Lib.Regex
import GoBricks.Lib.Text

/-!
# The lexer of SQL identifiers

Package `sqllex`: the patterns that identifiers are validated against (`identifier.go`), and the
quoting that Oracle needs, with the quote-aware split of a qualified name (`oracle_quote.go`) and
the reserved words (`oracle_reserved.go`).

Validation and rendering read an identifier in two ways, by a regular expression and by a parser of
their own; that they agree is shown in `GoBricks.Sql.Segments`.
-/

open RegularExpression Text

namespace Sql

/-! ### Patterns -/

/-- The letters `A` to `Z` and `a` to `z`. -/
def letters : List UInt8 :=
  (List.range 26).map (fun i ↦ .ofNat (0x41 + i)) ++ (List.range 26).map fun i ↦ .ofNat (0x61 + i)

/-- `[A-Za-z_]` -/
def identStart : List UInt8 := letters ++ [0x5F]

/-- `[A-Za-z0-9_$#]` -/
def identPart : List UInt8 :=
  letters ++ (List.range 10).map (fun i ↦ .ofNat (0x30 + i)) ++ [0x5F, 0x24, 0x23]

/-- `IdentifierSegment` -/
def identifierSegment : RegularExpression UInt8 :=
  Regex.oneOf identStart * (Regex.oneOf identPart).star

/-- The same in quotes. -/
def quotedSegment : RegularExpression UInt8 :=
  char 0x22 * identifierSegment * char 0x22

/-- `Segment`: either form. -/
def segment : RegularExpression UInt8 :=
  identifierSegment + quotedSegment

/-! ### Reserved words -/

/-- The words that Oracle does not take bare. -/
def oracleReservedWords : List Bytes :=
  ["ACCESS", "ADD", "ALL", "ALTER", "AND", "ANY", "AS", "ASC", "AUDIT", "BETWEEN", "BY", "CHAR",
    "CHECK", "CLUSTER", "COLUMN", "COMMENT", "COMPRESS", "CONNECT", "CREATE", "CURRENT", "DATE",
    "DECIMAL", "DEFAULT", "DELETE", "DESC", "DISTINCT", "DROP", "ELSE", "EXCLUSIVE", "EXISTS",
    "FILE", "FLOAT", "FOR", "FROM", "GRANT", "GROUP", "HAVING", "IDENTIFIED", "IMMEDIATE", "IN",
    "INCREMENT", "INDEX", "INITIAL", "INSERT", "INTEGER", "INTERSECT", "INTO", "IS", "LEVEL",
    "LIKE", "LOCK", "LONG", "MAXEXTENTS", "MINUS", "MLSLABEL", "MODE", "MODIFY", "NOAUDIT",
    "NOCOMPRESS", "NOT", "NOWAIT", "NULL", "NUMBER", "OF", "OFFLINE", "ON", "ONLINE", "OPTION",
    "OR", "ORDER", "PCTFREE", "PRIOR", "PUBLIC", "RAW", "RENAME", "RESOURCE", "REVOKE", "ROW",
    "ROWID", "ROWNUM", "ROWS", "SELECT", "SESSION", "SET", "SHARE", "SIZE", "SMALLINT", "START",
    "SUCCESSFUL", "SYNONYM", "SYSDATE", "TABLE", "THEN", "TO", "TRIGGER", "UID", "UNION", "UNIQUE",
    "UPDATE", "USER", "VALIDATE", "VALUES", "VARCHAR", "VARCHAR2", "VIEW", "WHENEVER", "WHERE",
    "WITH", "BEGIN", "CASE", "WHEN", "EXCLUDE"].map ascii

/-- Whether a word is reserved, in any case. -/
def isOracleReservedWord (upper : ℕ → ℕ) (word : Bytes) : Bool :=
  oracleReservedWords.contains (toUpper upper word)

/-! ### Quoting -/

/-- An ASCII letter. -/
def isLetter (c : UInt8) : Bool :=
  (0x41 ≤ c && c ≤ 0x5A) || (0x61 ≤ c && c ≤ 0x7A)

/-- A byte of a bare identifier. -/
def isValidIdentifierChar (c : UInt8) : Bool :=
  isLetter c || (0x30 ≤ c && c ≤ 0x39) || c == 0x5F || c == 0x24 || c == 0x23

/-- An identifier that cannot stand bare. -/
def oracleNeedsQuoting (identifier : Bytes) : Bool :=
  match identifier with
  | [] => false
  | first :: _ => (0x30 ≤ first && first ≤ 0x39) || !identifier.all isValidIdentifierChar

/-- The text in quotes, with a quote in it doubled unless it is already. -/
def quoteIdentifierLiteral (text : Bytes) : Bytes :=
  if 0x22 ∉ text then
    0x22 :: (text ++ [0x22])
  else
    0x22 :: (replaceAll [0x22] [0x22, 0x22] (replaceAll [0x22, 0x22] [0x22] text) ++ [0x22])

/-- A text in quotes. -/
def isQuotedString (s : Bytes) : Bool :=
  2 ≤ s.length && s.head? == some 0x22 && s.getLast? == some 0x22

/-- What stands between the first and the last byte. -/
def interior (s : Bytes) : Bytes :=
  s.tail.dropLast

/-- A quote that is not one of two. -/
def hasUnescapedQuote (text : Bytes) : Bool :=
  (replaceAll [0x22, 0x22] [] text).contains 0x22

/-- A text in quotes whose own quotes are doubled. -/
def isQuotedIdentifier (text : Bytes) : Bool :=
  isQuotedString text && !hasUnescapedQuote (interior text)

/-- A bare segment. -/
def isValidIdentifierSegment (segment : Bytes) : Bool :=
  match segment with
  | [] => false
  | first :: _ => isLetter first && segment.all isValidIdentifierChar

/-- A segment in quotes. -/
def isValidQuotedSegment (segment : Bytes) : Bool :=
  isQuotedString segment && interior segment ≠ [] && !hasUnescapedQuote (interior segment)

/-- `sqllex.ValidateSegment` -/
def isValidSegment (segment : Bytes) : Bool :=
  match segment with
  | [] => false
  | first :: _ =>
    if first = 0x22 then isValidQuotedSegment segment else isValidIdentifierSegment segment

/-! ### Splitting -/

/-- A dot or a quote. -/
def hasQualifierOrQuote (identifier : Bytes) : Bool :=
  identifier.any fun c ↦ c == 0x2E || c == 0x22

/-- The state of the parser of a qualified name. -/
structure IdentifierParser where
  inQuotes : Bool := false
  segments : List Bytes := []
  current : Bytes := []

namespace IdentifierParser

/-- Ends the current segment; an empty one is refused. -/
def push (p : IdentifierParser) : Option IdentifierParser :=
  let s := trimSpace p.current
  if s = [] then none else some { p with segments := p.segments ++ [s], current := [] }

/-- A dot ends a segment, but for one in quotes. -/
def handleDot (p : IdentifierParser) : Option IdentifierParser :=
  if p.inQuotes then some { p with current := p.current ++ [0x2E] } else p.push

/-- The segments, if the quotes are closed. -/
def finalize (p : IdentifierParser) : Option (List Bytes) :=
  match p.push with
  | none => none
  | some p => if p.inQuotes then none else some p.segments

/-- Reads one byte. -/
def step (p : IdentifierParser) (c : UInt8) : Option IdentifierParser :=
  if c = 0x22 then
    some { p with inQuotes := !p.inQuotes, current := p.current ++ [0x22] }
  else if c = 0x2E then
    p.handleDot
  else
    some { p with current := p.current ++ [c] }

/-- Parses the rest of the input. In quotes, two quotes are one of the name's. -/
def parse : IdentifierParser → Bytes → Option (List Bytes)
  | p, [] => p.finalize
  | p, [c] =>
    match p.step c with
    | none => none
    | some p => parse p []
  | p, c :: d :: rest =>
    if c = 0x22 ∧ p.inQuotes ∧ d = 0x22 then
      parse { p with current := p.current ++ [0x22, 0x22] } rest
    else
      match p.step c with
      | none => none
      | some p => parse p (d :: rest)

end IdentifierParser

/-- The segments of a name. -/
def parseQualifiedIdentifier (name : Bytes) : Option (List Bytes) :=
  IdentifierParser.parse {} name

/-- The segments of a qualified name; a name that does not parse is one segment. -/
def splitIdentifierSegments (identifier : Bytes) : List Bytes :=
  if !hasQualifierOrQuote identifier then
    if trimSpace identifier ≠ [] then [trimSpace identifier] else [identifier]
  else
    match parseQualifiedIdentifier identifier with
    | some segments => segments
    | none => [identifier]

end Sql
