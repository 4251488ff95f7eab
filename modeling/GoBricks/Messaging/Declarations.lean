import GoBricks.Lib.Table
import Mathlib.Data.BitVec

/-!
# Declarations of a messaging topology

`declarations.go`: modules declare exchanges, queues, bindings, publishers and consumers, which are
kept until they are replayed to a registry: exchanges and queues by name, the others in order. An
exchange is copied when it is registered, and merged into the one that has its name.

The records are over any type for the map that they hold. Here maps are values; a map that is nil
reads as one that is empty.
-/

open Text

namespace Topology

/-! ### Values -/

/-- What the library does with values that are none of the types the code looks at: how two of them
are compared by `reflect.DeepEqual`, how they are printed by `%v` and `%T`, and what keys the tables
in them have. So that a value may hold a NaN, one need not be equal to itself. The last two are `%v`
of a float and `%q`. -/
class Host (O : Type) where
  deepEqual : O → O → Bool
  printed : O → Bytes
  typeName : O → Bytes
  printFloat : BitVec 64 → Bytes
  quote : Bytes → Bytes

/-- A value of a map of arguments. Times are looked at for their type alone. -/
inductive Value (O : Type)
  | string (s : Bytes)
  | int (n : BitVec 64)
  | int64 (n : BitVec 64)
  | bool (b : Bool)
  | float64 (bits : BitVec 64)
  | time (t : O)
  | other (v : O)

/-- A map of arguments. -/
abbrev Args (O : Type) : Type :=
  Table (Value O)

/-- A float that is not a number: all ones in the exponent, and a fraction. -/
def isNaN (bits : BitVec 64) : Bool :=
  bits.toNat / 2 ^ 52 % 2 ^ 11 == 2 ^ 11 - 1 && bits.toNat % 2 ^ 52 != 0

/-- A float that is zero, of either sign. -/
def isZero (bits : BitVec 64) : Bool :=
  bits.toNat % 2 ^ 63 == 0

/-- `==` on floats. -/
def floatEq (a b : BitVec 64) : Bool :=
  !isNaN a && !isNaN b && (a == b || isZero a && isZero b)

namespace Value

variable {O : Type} [Host O]

/-- `reflect.DeepEqual` -/
def deepEqual : Value O → Value O → Bool
  | string s, string t => s == t
  | int m, int n => m == n
  | int64 m, int64 n => m == n
  | bool b, bool c => b == c
  | float64 a, float64 b => floatEq a b
  | time t, time u => Host.deepEqual t u
  | other v, other w => Host.deepEqual v w
  | _, _ => false

/-- `%v` -/
def printed : Value O → Bytes
  | string s => s
  | int n | int64 n => if n.msb then ascii "-" ++ decimal n.toInt.natAbs else decimal n.toNat
  | bool b => if b then ascii "true" else ascii "false"
  | float64 bits => Host.printFloat O bits
  | time t => Host.printed t
  | other v => Host.printed v

/-- `%T` -/
def typeName : Value O → Bytes
  | string _ => ascii "string"
  | int _ => ascii "int"
  | int64 _ => ascii "int64"
  | bool _ => ascii "bool"
  | float64 _ => ascii "float64"
  | time _ => ascii "time.Time"
  | other v => Host.typeName v

end Value

/-! ### Records -/

/-- An exchange; a passive one is another service's. -/
structure ExchangeDeclaration (M : Type) where
  name : Bytes
  type : Bytes
  durable : Bool
  autoDelete : Bool
  internal : Bool
  noWait : Bool
  args : M
  passive : Bool

/-- A queue. -/
structure QueueDeclaration (M : Type) where
  name : Bytes
  durable : Bool
  autoDelete : Bool
  exclusive : Bool
  noWait : Bool
  args : M

/-- A binding of a queue to an exchange. -/
structure BindingDeclaration (M : Type) where
  queue : Bytes
  exchange : Bytes
  routingKey : Bytes
  noWait : Bool
  args : M

/-- A publisher. -/
structure PublisherDeclaration (M : Type) where
  exchange : Bytes
  routingKey : Bytes
  eventType : Bytes
  description : Bytes
  mandatory : Bool
  immediate : Bool
  headers : M

/-- A handler is known by its identity. -/
structure ConsumerDeclaration (M : Type) where
  queue : Bytes
  consumer : Bytes
  autoAck : Bool
  exclusive : Bool
  noLocal : Bool
  noWait : Bool
  eventType : Bytes
  description : Bytes
  handler : Option ℕ
  workers : ℤ
  prefetchCount : ℤ
  args : M
  tenantOptional : Bool

/-- What tells consumers apart. -/
structure ConsumerKey where
  queue : Bytes
  consumer : Bytes
  eventType : Bytes
  deriving DecidableEq

/-- `exchangeConflict`: a name that was declared twice with shapes that cannot merge. -/
structure Conflict where
  name : Bytes
  field : Bytes
  kept : Bytes
  rejected : Bytes
  deriving DecidableEq

/-- What modules have declared. -/
structure Declarations (M : Type) where
  exchanges : Table (ExchangeDeclaration M) := ∅
  queues : Table (QueueDeclaration M) := ∅
  bindings : List (BindingDeclaration M) := []
  publishers : List (PublisherDeclaration M) := []
  consumerIndex : AList (fun _ : ConsumerKey ↦ ConsumerDeclaration M) := ∅
  consumerOrder : List ConsumerKey := []
  exchangeConflicts : List Conflict := []
  externalConflicts : List Bytes := []

/-! ### Merging -/

section Merging

variable {O : Type} [Host O]

/-- The first key, in order, that both maps set to different values. -/
def firstArgsDisagreement (incumbent next : Args O) : Option (Bytes × Value O × Value O) :=
  next.sortedKeys.findSome? fun k ↦
    match incumbent.lookup k, next.lookup k with
    | some v, some w => if v.deepEqual w then none else some (k, v, w)
    | _, _ => none

/-- The types are printed where the values look the same. -/
def renderConflictValues (kept rejected : Value O) : Bytes × Bytes :=
  if kept.printed ≠ rejected.printed then (kept.printed, rejected.printed)
  else
    (kept.typeName ++ ascii "(" ++ kept.printed ++ ascii ")",
      rejected.typeName ++ ascii "(" ++ rejected.printed ++ ascii ")")

/-- `newExchangeConflict` -/
def newConflict (name field : Bytes) (kept rejected : Value O) : Conflict :=
  let texts := renderConflictValues kept rejected
  ⟨name, field, texts.1, texts.2⟩

/-- How a conflict names an argument. -/
def argsField (O : Type) [Host O] (key : Bytes) : Bytes :=
  ascii "Args[" ++ Host.quote O key ++ ascii "]"

/-- The conflict of two maps of arguments. -/
def argsConflict (name : Bytes) (incumbent next : Args O) : Option Conflict :=
  (firstArgsDisagreement incumbent next).map fun d ↦
    newConflict name (argsField O d.1) d.2.1 d.2.2

/-- The conflict of two flags. -/
def flagConflict (O : Type) [Host O] (name : Bytes) (field : String) (kept rejected : Bool) :
    Conflict :=
  newConflict name (ascii field) (.bool kept : Value O) (.bool rejected)

/-- The first difference that two declarations of one exchange cannot be merged for. -/
def exchangeMergeConflict (incumbent next : ExchangeDeclaration (Args O)) : Option Conflict :=
  let name := incumbent.name
  if incumbent.type ≠ next.type then
    some (newConflict name (ascii "Type") (.string incumbent.type : Value O) (.string next.type))
  else if incumbent.durable ≠ next.durable then
    some (flagConflict O name "Durable" incumbent.durable next.durable)
  else if incumbent.autoDelete ≠ next.autoDelete then
    some (flagConflict O name "AutoDelete" incumbent.autoDelete next.autoDelete)
  else if incumbent.internal ≠ next.internal then
    some (flagConflict O name "Internal" incumbent.internal next.internal)
  else if incumbent.noWait ≠ next.noWait then
    some (flagConflict O name "NoWait" incumbent.noWait next.noWait)
  else argsConflict name incumbent.args next.args

end Merging

/-! ### Registration -/

/-- What is recorded once. -/
def record {α : Type} [DecidableEq α] (l : List α) (a : α) : List α :=
  if a ∈ l then l else l ++ [a]

namespace Declarations

section Record

variable {M : Type} (d : Declarations M)

/-- A conflict of shapes. -/
def recordExchangeConflict (c : Conflict) : Declarations M :=
  { d with exchangeConflicts := record d.exchangeConflicts c }

/-- A conflict of who owns the exchange. -/
def recordExternalConflict (name : Bytes) : Declarations M :=
  { d with externalConflicts := record d.externalConflicts name }

end Record

variable {O : Type} [Host O] (d : Declarations (Args O))

/-- An exchange is stored, merged into the one of its name, or refused. Whether it is an external
one is compared before the shapes. -/
def registerExchange : Option (ExchangeDeclaration (Args O)) → Declarations (Args O)
  | none => d
  | some e =>
    match d.exchanges.lookup e.name with
    | some incumbent =>
      if incumbent.passive ≠ e.passive then d.recordExternalConflict e.name
      else
        match exchangeMergeConflict incumbent e with
        | some c => d.recordExchangeConflict c
        | none =>
          let merged := { incumbent with args := incumbent.args.copy e.args }
          { d with exchanges := d.exchanges.insert e.name merged }
    | none =>
      let decl : ExchangeDeclaration (Args O) :=
        { name := e.name
          type := e.type
          durable := e.durable
          autoDelete := e.autoDelete
          internal := e.internal
          noWait := e.noWait
          passive := e.passive
          args := Table.copy ∅ e.args }
      { d with exchanges := d.exchanges.insert e.name decl }

end Declarations

end Topology
