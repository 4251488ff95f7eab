import GoBricks.Ledgererr
import Mathlib.Data.List.Sort
import Mathlib.Data.String.Basic

/-!
# The inbox hold ledger

When a tenant's messages cannot be processed they are parked: a row per message, and a **marker**
per (consumer, tenant) that says the tenant is held and carries the drain's state, the lease among
it. This module has the two row types and the statements on them, each as its condition and its
effect, and then the statements as a whole when each is atomic (`Ledger`). How they are evaluated
against concurrent transactions is the business of `ReadCommitted`.

A row's identity is its (consumer, stream, offset). All times are the database's.
-/

namespace Hold

/-- One parked delivery. -/
structure HoldRow where
  consumer : String
  stream : String
  offset : ℤ
  tenantID : String
  data : List UInt8
  properties : List UInt8
  heldAt : ℤ
  deriving DecidableEq

/-- A row of the tenant table: one held tenant's drain state. -/
structure HoldTenant where
  consumer : String
  tenantID : String
  heldSince : ℤ
  attempts : ℤ
  nextAttemptAt : ℤ
  lastError : Option String
  leaseOwner : Option String
  leaseUntil : Option ℤ
  deriving DecidableEq

namespace HoldRow

/-- The primary key. -/
def key (r : HoldRow) : String × String × ℤ :=
  (r.consumer, r.stream, r.offset)

/-- The refusal of a row with no tenant. -/
def validateHoldRow (r : HoldRow) : Bool :=
  r.tenantID ≠ ""

/-- `consumer = … AND tenant_id = …` on the row table. -/
def ofTenant (consumer tenant : String) (r : HoldRow) : Bool :=
  r.consumer = consumer && r.tenantID = tenant

/-- `DeleteRow`'s condition on the row itself, which does not mention the tenant. -/
def at_ (consumer stream : String) (offset : ℤ) (r : HoldRow) : Bool :=
  r.consumer = consumer && r.stream = stream && r.offset = offset

end HoldRow

namespace HoldTenant

/-- The marker an upsert inserts, every other column at its default. -/
def new (consumer tenant : String) (now : ℤ) : HoldTenant where
  consumer := consumer
  tenantID := tenant
  heldSince := now
  attempts := 0
  nextAttemptAt := now
  lastError := none
  leaseOwner := none
  leaseUntil := none

/-- `consumer = … AND tenant_id = …` on the tenant table. -/
def ofTenant (consumer tenant : String) (m : HoldTenant) : Bool :=
  m.consumer = consumer && m.tenantID = tenant

/-- `lease_until < NOW()`; a NULL is not. -/
def expired (now : ℤ) (m : HoldTenant) : Bool :=
  match m.leaseUntil with
  | some until_ => decide (until_ < now)
  | none => false

/-- `lease_owner = …`; a NULL is not. -/
def ownedBy (owner : String) (m : HoldTenant) : Bool :=
  m.leaseOwner = some owner

/-- `lease_owner = … AND lease_until > NOW()`. -/
def leased (owner : String) (now : ℤ) (m : HoldTenant) : Bool :=
  m.ownedBy owner &&
    match m.leaseUntil with
    | some until_ => decide (now < until_)
    | none => false

/-- The condition of `AcquireLease`: the lease is free, expired, or already this owner's. -/
def acquirable (owner : String) (now : ℤ) (m : HoldTenant) : Bool :=
  m.leaseUntil.isNone || m.expired now || m.ownedBy owner

/-- The condition of `DueTenants`. -/
def due (now : ℤ) (m : HoldTenant) : Bool :=
  decide (m.nextAttemptAt ≤ now) && (m.leaseUntil.isNone || m.expired now)

/-- A marker with a lease. -/
def acquireLease (owner : String) (now lease : ℤ) (m : HoldTenant) : HoldTenant :=
  { m with leaseOwner := some owner, leaseUntil := some (now + lease) }

/-- A marker without a lease. -/
def releaseLease (m : HoldTenant) : HoldTenant :=
  { m with leaseOwner := none, leaseUntil := none }

/-- One more attempt, the next one backed off, the error bounded, the lease cleared. -/
def defer (now backoff : ℤ) (lastErr : String) (m : HoldTenant) : HoldTenant :=
  { m with
    attempts := m.attempts + 1
    nextAttemptAt := now + backoff
    lastError := some (Ledgererr.bound lastErr)
    leaseOwner := none
    leaseUntil := none }

end HoldTenant

/-! ### Atomic statements -/

/-- The two tables and the database's clock. -/
structure Ledger where
  rows : List HoldRow := []
  tenants : List HoldTenant := []
  now : ℤ := 0

namespace HoldRow

/-- `ORDER BY stream, stream_offset`. -/
def before (a b : HoldRow) : Prop :=
  (a.stream = b.stream ∧ a.offset ≤ b.offset) ∨ a.stream < b.stream

/-- The order compares names and numbers. -/
instance : DecidableRel before :=
  fun a b ↦ inferInstanceAs (Decidable ((a.stream = b.stream ∧ a.offset ≤ b.offset) ∨ _))

end HoldRow

namespace Ledger

/-- `Park`: the marker and the row, each unless it is there already. -/
def park (l : Ledger) (row : HoldRow) : Ledger :=
  { l with
    tenants :=
      if l.tenants.any (·.ofTenant row.consumer row.tenantID) then l.tenants
      else l.tenants ++ [.new row.consumer row.tenantID l.now]
    rows :=
      if l.rows.any (·.key = row.key) then l.rows
      else l.rows ++ [{ row with heldAt := l.now }] }

/-- The fence's subquery: this owner holds a live lease on the tenant. -/
def leaseHeldBy (l : Ledger) (consumer tenant owner : String) : Bool :=
  l.tenants.any fun m ↦ m.ofTenant consumer tenant && m.leased owner l.now

/-- `Release`'s subquery. -/
def rowsRemain (l : Ledger) (consumer tenant : String) : Bool :=
  l.rows.any (·.ofTenant consumer tenant)

/-- `UPDATE` of the tenant table. -/
def updateTenants (l : Ledger) (cond : HoldTenant → Bool) (f : HoldTenant → HoldTenant) : Ledger :=
  { l with tenants := l.tenants.map fun m ↦ if cond m then f m else m }

/-- The condition of `AcquireLease`. -/
def acquires (l : Ledger) (consumer tenant owner : String) (m : HoldTenant) : Bool :=
  m.ofTenant consumer tenant && m.acquirable owner l.now

/-- `AcquireLease` -/
def acquireLease (l : Ledger) (consumer tenant owner : String) (lease : ℤ) : Ledger :=
  l.updateTenants (l.acquires consumer tenant owner) (·.acquireLease owner l.now lease)

/-- `ReleaseLease` -/
def releaseLease (l : Ledger) (consumer tenant owner : String) : Ledger :=
  l.updateTenants (fun m ↦ m.ofTenant consumer tenant && m.ownedBy owner) (·.releaseLease)

/-- The condition of `Defer`. -/
def defers (l : Ledger) (consumer tenant owner : String) (m : HoldTenant) : Bool :=
  m.ofTenant consumer tenant && m.leased owner l.now

/-- `Defer` -/
def defer (l : Ledger) (consumer tenant owner : String) (backoff : ℤ) (lastErr : String) : Ledger :=
  l.updateTenants (l.defers consumer tenant owner) (·.defer l.now backoff lastErr)

/-- The condition of `Release`. -/
def releases (l : Ledger) (consumer tenant owner : String) (m : HoldTenant) : Bool :=
  m.ofTenant consumer tenant && m.leased owner l.now && !l.rowsRemain consumer tenant

/-- `Release` -/
def release (l : Ledger) (consumer tenant owner : String) : Ledger :=
  { l with tenants := l.tenants.filter fun m ↦ !l.releases consumer tenant owner m }

/-- The condition of `DeleteRow`: the fence is in the same statement. -/
def deletes (l : Ledger) (consumer stream : String) (offset : ℤ) (tenant owner : String)
    (r : HoldRow) : Bool :=
  r.at_ consumer stream offset && l.leaseHeldBy consumer tenant owner

/-- `DeleteRow` -/
def deleteRow (l : Ledger) (consumer stream : String) (offset : ℤ) (tenant owner : String) :
    Ledger :=
  { l with rows := l.rows.filter fun r ↦ !l.deletes consumer stream offset tenant owner r }

/-- The rows of a tenant in (stream, offset) order. -/
def nextRows (l : Ledger) (consumer tenant : String) (limit : ℕ) : List HoldRow :=
  ((l.rows.filter (·.ofTenant consumer tenant)).insertionSort HoldRow.before).take (max limit 1)

/-- The held tenants whose next attempt has come and whose lease is free, oldest first. -/
def dueTenants (l : Ledger) (consumer : String) (limit : ℕ) : List HoldTenant :=
  ((l.tenants.filter fun m ↦ m.consumer = consumer && m.due l.now).insertionSort
    fun a b ↦ a.heldSince ≤ b.heldSince).take (max limit 1)

end Ledger

end Hold
