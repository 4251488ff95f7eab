import GoBricks.Lib.StepSystem
import GoBricks.Lib.Text
import Mathlib.Logic.Function.Basic

/-!
# Migrating all tenants

`MigrateAll` runs Flyway for every tenant of a listing: one after the other, or by workers that a
dispatcher starts in the order of the listing, as many at a time as there are slots. It stops before
a tenant when the context is done, when the deployment is quiesced, or after a failure.

A run of one tenant (`runOne`) resolves its configuration, claims its **migration target**, and only
then starts Flyway. The claims are shared by all workers.

The state has the program counter of the dispatcher and the phase of each worker; a step is what one
of them does between two points at which others can act.
-/

open Text

namespace Migration

/-! ### Targets -/

/-- `postgresql` -/
def postgreSQL : Bytes := ascii "postgresql"

/-- `oracle` -/
def oracle : Bytes := ascii "oracle"

/-- A database as configured. -/
structure DatabaseConfig where
  typ : Bytes
  host : Bytes
  port : ℤ
  database : Bytes
  username : Bytes
  connectionString : Bytes
  /-- `postgresql.schema` -/
  schema : Bytes
  deriving DecidableEq

/-- What a run of Flyway writes to. -/
structure MigrationTarget where
  vendor : Bytes
  host : Bytes
  port : ℤ
  database : Bytes
  schema : Bytes
  username : Bytes
  deriving DecidableEq

/-- The vendor of a database, or the default one. -/
def dbVendor (db : DatabaseConfig) (fallback : Bytes) : Bytes :=
  if db.typ ≠ [] then db.typ else fallback

/-- The vendors that Flyway is given an environment for. -/
def deliversEnvironment (vendor : Bytes) : Bool :=
  vendor == postgreSQL || vendor == oracle

/-- The URL is made from the parts of the configuration. -/
def usesFrameworkOwnedURL (db : DatabaseConfig) (vendor : Bytes) : Bool :=
  vendor == postgreSQL && db.connectionString == [] && db.host != [] && db.database != []

/-- An IPv6 host without its brackets. -/
def unbracket (host : Bytes) : Bytes :=
  if host.head? = some 0x5B ∧ host.getLast? = some 0x5D then host.tail.dropLast else host

/-- The port where none is configured. -/
def postgresDefaultPort : ℤ := 5432

/-- The target of a configuration, if it is keyed. `lower` is `strings.ToLower`. -/
def migrationTargetFor (lower : Bytes → Bytes) (db : DatabaseConfig) (fallbackVendor : Bytes) :
    Option MigrationTarget :=
  let vendor := dbVendor db fallbackVendor
  let host := lower (unbracket db.host)
  if usesFrameworkOwnedURL db vendor then
    let port := if db.port = 0 then postgresDefaultPort else db.port
    if db.schema ≠ [] then some ⟨vendor, host, port, db.database, db.schema, []⟩
    else some ⟨vendor, host, port, db.database, [], db.username⟩
  else if vendor = oracle ∧ db.host ≠ [] ∧ db.database ≠ [] then
    some ⟨vendor, host, db.port, db.database, [], db.username⟩
  else none

/-! ### Results -/

/-- How a context ends. -/
inductive CtxErr
  | canceled
  | deadlineExceeded
  deriving DecidableEq

/-- An error of a tenant, or what stopped the run. `E` are the errors of the provider and of
Flyway. -/
inductive Err (E : Type)
  | resolve (e : E)
  | noDatabaseConfig
  | undeliverableIdentity (tenantID vendor : Bytes)
  | duplicateTarget (tenantID owner : Bytes)
  | unsupportedAction
  | flyway (e : E)
  | ctx (e : CtxErr)
  | quiesceBlocked
  deriving DecidableEq

variable {E ρ : Type}

/-- A row of the result; `ρ` is Flyway's own outcome. -/
structure TenantResult (E ρ : Type) where
  tenantID : Bytes
  vendor : Bytes := []
  err : Option (Err E) := none
  result : Option ρ := none
  deriving DecidableEq

/-- What `MigrateAll` returns. -/
structure MigrateAllResult (E ρ : Type) where
  results : List (TenantResult E ρ)
  neverDispatched : List Bytes

/-- What is asked of Flyway. -/
inductive Action
  | migrate
  | validate
  | info
  | unknown
  deriving DecidableEq

/-- The arguments of a call, with the listing. -/
structure Call where
  tenantIDs : List Bytes
  action : Action
  parallelism : ℤ
  continueOnError : Bool
  /-- The username of the migrator identity. -/
  migratorIdentity : Option Bytes
  /-- The vendor of the runner. -/
  runnerVendor : Bytes
  lower : Bytes → Bytes

/-- How many runs there are at a time at most. -/
def maxParallelism : ℤ := 32

namespace Call

variable (c : Call)

/-- The tenant at an index of the listing. -/
def tenant (i : ℕ) : Bytes :=
  c.tenantIDs.getD i []

/-- More than one run at a time. -/
def parallel : Bool :=
  1 < c.parallelism

/-- The number of slots. -/
def slots : ℕ :=
  (min c.parallelism maxParallelism).toNat

end Call

/-! ### The state -/

/-- The dispatcher: before a look at the context, at the wait for a slot, in `dispatchBlocked`
before and after the quiesce gate, and so on. -/
inductive PC (E : Type)
  | check (i : ℕ)
  | slot (i : ℕ)
  | judge (i : ℕ)
  | gate (i : ℕ)
  | rejudge (i : ℕ)
  /-- A sequential run is at a tenant. -/
  | inline (i : ℕ)
  /-- `wg.Wait`, after so many tenants were dispatched. -/
  | waiting (dispatched : ℕ) (stopErr : Option (Err E))
  | returned (dispatched : ℕ) (err : Option (Err E))
  deriving DecidableEq

/-- Where the run of a tenant is. -/
inductive Phase (E ρ : Type)
  | resolving
  | claiming (db : DatabaseConfig) (vendor : Bytes)
  | flyway (vendor : Bytes)
  /-- `runOne` has returned. -/
  | ran (res : TenantResult E ρ)
  | hooking (res : TenantResult E ρ)
  | recording (err : Err E)
  | canceling
  | releasing
  | exiting
  | done
  deriving DecidableEq

/-- A call of `MigrateAll` with its runs. -/
structure State (E ρ : Type) where
  pc : PC E
  /-- The error of the caller's context. -/
  ctx : Option CtxErr := none
  /-- The error of the context that `runParallel` derives from it. -/
  runCtx : Option CtxErr := none
  /-- The slots that are held. -/
  sem : ℕ := 0
  workers : ℕ → Option (Phase E ρ) := fun _ ↦ none
  /-- The rows; a row that nobody wrote is a zero value. -/
  rows : ℕ → TenantResult E ρ := fun _ ↦ ⟨[], [], none, none⟩
  owners : MigrationTarget → Option Bytes := fun _ ↦ none
  firstErr : Option (Err E) := none
  /-- The runs that started Flyway, with their effective configuration and vendor: a history
  variable. -/
  started : ℕ → Option (DatabaseConfig × Bytes) := fun _ ↦ none
  /-- What the runs returned: a history variable. -/
  outcomes : ℕ → Option (TenantResult E ρ) := fun _ ↦ none

/-- What the provider answers; no configuration is a nil one. -/
inductive Resolution (E : Type)
  | failed (e : E)
  | config (db : Option DatabaseConfig)

/-- Who moves, and what the environment answers. -/
inductive Label (E ρ : Type)
  /-- The caller's context ends. -/
  | cancel (e : CtxErr)
  /-- The end of the caller's context reaches the derived one. -/
  | propagate
  | check
  /-- The wait for a slot ends with the context. -/
  | slotDone
  | slotTake
  | judge
  | gate (set : Bool)
  | rejudge
  | resolve (i : ℕ) (r : Resolution E)
  | claim (i : ℕ)
  | flyway (i : ℕ) (result : Option ρ) (err : Option E)
  | store (i : ℕ)
  | hook (i : ℕ)
  | record (i : ℕ)
  | cancelRun (i : ℕ)
  | release (i : ℕ)
  | exit (i : ℕ)
  | join

namespace Call

variable (c : Call) (s : State E ρ)

/-- The dispatcher comes to an index. -/
def next (i : ℕ) : PC E :=
  if i < c.tenantIDs.length then if c.parallel then .check i else .judge i
  else if c.parallel then .waiting c.tenantIDs.length none
  else .returned c.tenantIDs.length none

/-- `ctx.Err()`, as the dispatcher sees it. -/
def ctxErr : Option CtxErr :=
  if c.parallel then s.runCtx else s.ctx

/-- The dispatcher stops before an index. -/
def stop (i : ℕ) (err : Err E) : PC E :=
  if c.parallel then .waiting i (some err) else .returned i (some err)

/-- The dispatcher stops when it has a slot, and gives it back. -/
def stopHeld (i : ℕ) (err : Err E) : State E ρ :=
  { s with pc := c.stop i err, sem := s.sem - 1 }

/-- Where a call starts. -/
def start : State E ρ :=
  { pc := c.next 0 }

/-- A run goes on. -/
def setPhase (i : ℕ) (p : Phase E ρ) : State E ρ :=
  { s with workers := Function.update s.workers i (some p) }

/-- The run of a tenant begins. -/
def dispatch (i : ℕ) : State E ρ :=
  { setPhase s i .resolving with pc := if c.parallel then c.next (i + 1) else .inline i }

/-- `runOne` returns. -/
def finish (i : ℕ) (res : TenantResult E ρ) : State E ρ :=
  { setPhase s i (.ran res) with outcomes := Function.update s.outcomes i (some res) }

/-- `runOne`, up to its claim. -/
def resolve (i : ℕ) : Resolution E → State E ρ
  | .failed e => finish s i { tenantID := c.tenant i, err := some (.resolve e) }
  | .config none => finish s i { tenantID := c.tenant i, err := some .noDatabaseConfig }
  | .config (some db) =>
    let vendor := dbVendor db c.runnerVendor
    match c.migratorIdentity with
    | none => setPhase s i (.claiming db vendor)
    | some username =>
      if !deliversEnvironment vendor then
        finish s i { tenantID := c.tenant i, vendor := vendor
                     err := some (.undeliverableIdentity (c.tenant i) vendor) }
      else setPhase s i (.claiming { db with username := username } vendor)

/-- The claim is made, or was not needed. -/
def runFlyway (i : ℕ) (db : DatabaseConfig) (vendor : Bytes) : State E ρ :=
  if c.action = .unknown then
    finish s i { tenantID := c.tenant i, vendor := vendor, err := some .unsupportedAction }
  else
    { setPhase s i (.flyway vendor) with
      started := Function.update s.started i (some (db, vendor)) }

/-- A run claims its target, if it has one; the first to claim it owns it. -/
def claim (i : ℕ) (db : DatabaseConfig) (vendor : Bytes) : State E ρ :=
  match migrationTargetFor c.lower db vendor with
  | none => c.runFlyway s i db vendor
  | some target =>
    match s.owners target with
    | some owner =>
      finish s i { tenantID := c.tenant i, vendor := vendor
                   err := some (.duplicateTarget (c.tenant i) owner) }
    | none =>
      c.runFlyway { s with owners := Function.update s.owners target (some (c.tenant i)) } i db
      vendor

/-- Flyway returns; its outcome counts for `migrate` only. -/
def flywayResult (i : ℕ) (vendor : Bytes) (result : Option ρ) (err : Option E) : TenantResult E ρ :=
  { tenantID := c.tenant i, vendor := vendor, err := err.map .flyway
    result := if c.action = .migrate then result else none }

/-- The error of a row that ends the run. -/
def failure (res : TenantResult E ρ) : Option (Err E) :=
  if c.continueOnError then none else res.err

/-- The hook has returned. -/
def afterHook (i : ℕ) (res : TenantResult E ρ) : State E ρ :=
  if c.parallel then
    setPhase s i (match c.failure res with
      | some err => .recording err
      | none => .releasing)
  else
    { setPhase s i .done with
      pc := match c.failure res with
        | some err => .returned (i + 1) (some err)
        | none => c.next (i + 1) }

/-- All workers that were dispatched are done. -/
def Joined (n : ℕ) : Prop :=
  ∀ i < n, s.workers i = some .done

/-- There are finitely many workers to look at. -/
instance [DecidableEq E] [DecidableEq ρ] (n : ℕ) : Decidable (Joined s n) :=
  inferInstanceAs (Decidable (∀ i < n, s.workers i = some .done))

variable [DecidableEq E] [DecidableEq ρ]

/-- A step of the call. -/
def step : Label E ρ → Option (State E ρ)
  | .cancel e =>
    if s.ctx = none then some { s with ctx := some e } else none
  | .propagate => some { s with runCtx := s.runCtx.or s.ctx }
  | .check =>
    match s.pc with
    | .check i =>
      some { s with pc := match c.ctxErr s with
        | some e => c.stop i (.ctx e)
        | none => .slot i }
    | _ => none
  | .slotDone =>
    match s.pc, c.ctxErr s with
    | .slot i, some e => some { s with pc := c.stop i (.ctx e) }
    | _, _ => none
  | .slotTake =>
    match s.pc with
    | .slot i => if s.sem < c.slots then some { s with pc := .judge i, sem := s.sem + 1 } else none
    | _ => none
  | .judge =>
    match s.pc with
    | .judge i =>
      some (match c.ctxErr s with
        | some e => c.stopHeld s i (.ctx e)
        | none => { s with pc := .gate i })
    | _ => none
  | .gate set =>
    match s.pc with
    | .gate i => some (if set then c.stopHeld s i .quiesceBlocked else { s with pc := .rejudge i })
    | _ => none
  | .rejudge =>
    match s.pc with
    | .rejudge i =>
      some (match c.ctxErr s with
        | some e => c.stopHeld s i (.ctx e)
        | none => c.dispatch s i)
    | _ => none
  | .resolve i r =>
    match s.workers i with
    | some .resolving => some (c.resolve s i r)
    | _ => none
  | .claim i =>
    match s.workers i with
    | some (.claiming db vendor) => some (c.claim s i db vendor)
    | _ => none
  | .flyway i result err =>
    match s.workers i with
    | some (.flyway vendor) => some (finish s i (c.flywayResult i vendor result err))
    | _ => none
  | .store i =>
    match s.workers i with
    | some (.ran res) =>
      some { setPhase s i (.hooking res) with rows := Function.update s.rows i res }
    | _ => none
  | .hook i =>
    match s.workers i with
    | some (.hooking res) => some (c.afterHook s i res)
    | _ => none
  | .record i =>
    match s.workers i with
    | some (.recording err) =>
      some { setPhase s i .canceling with firstErr := s.firstErr.or (some err) }
    | _ => none
  | .cancelRun i =>
    match s.workers i with
    | some .canceling =>
      some { setPhase s i .releasing with runCtx := s.runCtx.or (some .canceled) }
    | _ => none
  | .release i =>
    match s.workers i with
    | some .releasing => some { setPhase s i .exiting with sem := s.sem - 1 }
    | _ => none
  | .exit i =>
    match s.workers i with
    | some .exiting => some (setPhase s i .done)
    | _ => none
  | .join =>
    match s.pc with
    | .waiting n stopErr =>
      if Joined s n then
        some { s with pc := .returned n ((s.firstErr.or stopErr).or (s.ctx.map .ctx)) }
      else none
    | _ => none

/-- The result of a call that has dispatched so many tenants. -/
def output (n : ℕ) : MigrateAllResult E ρ :=
  let results := (List.range n).map s.rows
  ⟨results, c.tenantIDs.drop results.length⟩

/-- A call, from its start on. -/
def system : StepSystem (State E ρ) (Label E ρ) where
  init s := s = c.start
  step s l := c.step s l

end Call

end Migration
