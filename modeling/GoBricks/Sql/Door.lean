import GoBricks.Sql.Quoting

/-!
# The doors of the query builder for identifiers

`identifiers.go` and the renderers of `oracle.go` and `postgres.go`: an identifier given as a string
is validated against a pattern, and against the vendor's alphabet and length limit segment by
segment; what is rendered is the trimmed string that was validated.

There are four doors: columns, `SELECT` columns (which may be a wildcard), tables (which may have an
alias) and `ORDER BY` or `GROUP BY` items (which may have a direction and an order of nulls).
-/

open RegularExpression Text

namespace Sql

/-! ### Patterns -/

/-- The groups of a pattern. -/
inductive Group
  /-- A part without a name. -/
  | unnamed
  | ident
  | dir
  | nulls
  | alias
  deriving DecidableEq

/-- An anchored pattern: its groups, one after the other. -/
abbrev Pattern := List (Group × RegularExpression UInt8)

/-- What each group matched. -/
def Pattern.findStringSubmatch (p : Pattern) (s : Bytes) : Option (List (Group × Bytes)) :=
  (Regex.captures (p.map Prod.snd) s).map fun ws ↦ (p.map Prod.fst).zip ws

/-- What the group matched; empty if there is none of the name. -/
def submatch (m : List (Group × Bytes)) (g : Group) : Bytes :=
  (m.lookup g).getD []

/-- A simple or qualified identifier. -/
def qualified : RegularExpression UInt8 :=
  segment * (char 0x2E * segment).star

/-- A column. -/
def validIdentifierPattern : Pattern :=
  [(.unnamed, qualified)]

/-- A letter in either case. Case folds by Unicode's rules: an `s` may be the long s too. -/
def foldLetter (c : UInt8) : RegularExpression UInt8 :=
  char c + char (c + 0x20) + if c = 0x53 then Regex.literal [0xC5, 0xBF] else 0

/-- A keyword, given in upper case, in any case. Its letters are other than `K`, which folds with
the Kelvin sign. -/
def keyword (w : Bytes) : RegularExpression UInt8 :=
  w.foldr (fun c r ↦ foldLetter c * r) 1

/-- The direction of an order. -/
inductive Direction
  | asc
  | desc
  deriving DecidableEq

/-- The keyword of a direction. -/
def Direction.word : Direction → Bytes
  | .asc => ascii "ASC"
  | .desc => ascii "DESC"

/-- Where an order puts nulls. -/
inductive NullsOrder
  | first
  | last
  deriving DecidableEq

/-- The keyword of a place for nulls. -/
def NullsOrder.word : NullsOrder → Bytes
  | .first => ascii "FIRST"
  | .last => ascii "LAST"

/-- The keyword before it. -/
def nullsWord : Bytes := ascii "NULLS"

/-- A column with a direction. -/
def validClauseIdentifierPattern : Pattern :=
  [(.ident, qualified),
    (.dir, Regex.optional (char 0x20 * (keyword Direction.asc.word + keyword Direction.desc.word))),
    (.nulls, Regex.optional (char 0x20 * keyword nullsWord *
      (char 0x20 * (keyword NullsOrder.first.word + keyword NullsOrder.last.word))))]

/-- A column or a wildcard. -/
def validSelectIdentifierPattern : Pattern :=
  [(.unnamed, char 0x2A + qualified * Regex.optional (Regex.literal [0x2E, 0x2A]))]

/-- A table with an alias. -/
def validTableNamePattern : Pattern :=
  [(.ident, qualified), (.alias, Regex.optional (char 0x20 * segment))]

/-! ### Vendors -/

/-- The vendors of databases. -/
inductive Vendor
  | postgreSQL
  | oracle
  deriving DecidableEq

/-- The longest a segment may be. -/
def Vendor.maxBytes : Vendor → ℕ
  | .postgreSQL => 63
  | .oracle => 128

/-- The pattern of a bare segment. -/
def Vendor.segment : Vendor → RegularExpression UInt8
  | .postgreSQL =>
    Regex.oneOf identStart *
      (Regex.oneOf (letters ++ (List.range 10).map (fun i ↦ .ofNat (0x30 + i)) ++ [0x5F,
      0x24])).star
  | .oracle => identifierSegment

/-! ### Validation -/

/-- The doors of the builder for identifiers. -/
inductive Door
  | column
  | select
  | table
  | clause
  deriving DecidableEq

/-- What a door takes. -/
def Door.pattern : Door → Pattern
  | .column => validIdentifierPattern
  | .select => validSelectIdentifierPattern
  | .table => validTableNamePattern
  | .clause => validClauseIdentifierPattern

/-- Why an identifier is refused. -/
inductive IdentifierError
  /-- It is not of the door's shape. -/
  | invalid (door : Door) (identifier : Bytes)
  | tooLong (limit : ℕ) (value : Bytes)
  | empty
  | charset (value : Bytes)
  deriving DecidableEq

/-- The bytes that the vendor takes in a bare segment. -/
def validateCharset (vendor : Vendor) (value : Bytes) : Except IdentifierError Unit :=
  if value = [] then .error .empty
  else if !vendor.segment.rmatch value then .error (.charset value)
  else .ok ()

/-- Judges one segment: its length always, its characters unless it is quoted. -/
def validateSegment (vendor : Vendor) (segment : Bytes) : Except IdentifierError Unit :=
  if segment = [0x2A] then
    .ok ()
  else
    let quoted := isQuotedIdentifier segment
    let value := if quoted then interior segment else segment
    if value.length > vendor.maxBytes then .error (.tooLong vendor.maxBytes value)
    else if quoted then .ok ()
    else validateCharset vendor segment

/-- The parts of a match that are identifiers. -/
def identifierTokens (pattern : Pattern) (trimmed : Bytes) (m : List (Group × Bytes)) :
    List Bytes :=
  if pattern.any (·.1 = .ident) then
    if pattern.any (·.1 = .alias) && submatch m .alias ≠ [] then
      [submatch m .ident, trimSpace (submatch m .alias)]
    else
      [submatch m .ident]
  else
    [trimmed]

/-- Each segment of a match is the vendor's. -/
def validateVendorSegments (vendor : Vendor) (pattern : Pattern) (trimmed : Bytes)
    (m : List (Group × Bytes)) : Except IdentifierError Unit :=
  ((identifierTokens pattern trimmed m).flatMap splitIdentifierSegments).forM
    (validateSegment vendor)

/-- Trims an identifier, validates it for the door, and returns it as it is to be rendered. -/
def normalizeAgainst (vendor : Vendor) (door : Door) (identifier : Bytes) :
    Except IdentifierError Bytes := do
  let trimmed := trimSpace identifier
  match door.pattern.findStringSubmatch trimmed with
  | none => .error (.invalid door identifier)
  | some m =>
    validateVendorSegments vendor door.pattern trimmed m
    return trimmed

/-! ### Rendering -/

/-- A column as rendered. -/
def quoteColumn (upper : ℕ → ℕ) (vendor : Vendor) (column : Bytes) : Bytes :=
  match vendor with
  | .postgreSQL => column
  | .oracle => quoteOracleIdentifier upper column

/-- One of `quoteColumnsForSelect`: a wildcard is left as it is. -/
def quoteColumnForSelect (upper : ℕ → ℕ) (vendor : Vendor) (column : Bytes) : Bytes :=
  if column = [0x2A] || [0x2E, 0x2A].isSuffixOf column then column
  else quoteColumn upper vendor column

/-- A table as rendered, with its alias. -/
def quoteTable (upper : ℕ → ℕ) (vendor : Vendor) (table : Bytes) : Bytes :=
  match vendor with
  | .postgreSQL => table
  | .oracle =>
    let trimmed := trimSpace table
    match validTableNamePattern.findStringSubmatch trimmed with
    | some m => quoteOracleIdentifier upper (submatch m .ident) ++ submatch m .alias
    | none => quoteOracleIdentifier upper trimmed

/-- A column as rendered in a clause, with its direction. -/
def quoteIdentifierForClause (upper : ℕ → ℕ) (vendor : Vendor) (identifier : Bytes) : Bytes :=
  match vendor with
  | .postgreSQL => identifier
  | .oracle =>
    let trimmed := trimSpace identifier
    if trimmed = [] then
      trimmed
    else
      match validClauseIdentifierPattern.findStringSubmatch trimmed with
      | none => quoteOracleIdentifier upper trimmed
      | some m =>
        quoteOracleIdentifier upper (submatch m .ident) ++ toUpper upper (submatch m .dir) ++
          toUpper upper (submatch m .nulls)

/-- What is rendered for an identifier at a door. -/
def Door.render (upper : ℕ → ℕ) (vendor : Vendor) : Door → Bytes → Bytes
  | .column => quoteColumn upper vendor
  | .select => quoteColumnForSelect upper vendor
  | .table => quoteTable upper vendor
  | .clause => quoteIdentifierForClause upper vendor

end Sql
