import GoBricks.Backoff
import GoBricks.Hold.Ledger
import GoBricks.Lib.Database
import GoBricks.Lib.StepSystem
import Mathlib.Logic.Function.Basic

/-!
# The hold drain

Every replica runs a drain under an owner name of its own. A pass asks for the due tenants and takes
them one by one: lease the tenant, read one batch of its rows, replay them in ledger order and
delete each one replayed, then release the tenant or hand the lease back. A replay that fails, or a
row that cannot be read, defers the tenant and ends its turn.

The program of one owner is a program counter (`Pc`) between its ledger statements and its replays;
each statement is atomic, and between two of them anything may happen: other owners' statements,
parks, the clock of the database advancing past the lease. What an owner's own clock says about its
deadline is the environment's choice, and so is how every statement and every replay ends.

`history` is a history variable, newest event first.
-/

namespace Hold

/-- The drain's configuration; the JSON decoder of a row's properties is a parameter, of which only
the error matters. -/
structure DrainConfig where
  leaseDuration : ℤ
  drainInterval : ℤ
  maxBackoff : ℤ
  unmarshal : List UInt8 → Except String Unit

/-- How many tenants a pass takes at most. -/
def holdDrainTenantsPerPass : ℕ := 100

/-- How many rows a read takes at most. -/
def holdDrainRowsPerRead : ℕ := 50

/-- The wait before a deferred tenant's next attempt. -/
def DrainConfig.backoffFor (cfg : DrainConfig) (attempts : ℤ) : ℤ :=
  Backoff.saturating cfg.drainInterval cfg.maxBackoff (max (attempts - 1) 0)

/-- Why a row cannot be rendered as the lane's held message, if it cannot. -/
def DrainConfig.heldMessageOf (cfg : DrainConfig) (row : HoldRow) : Option String :=
  if row.properties = [] then none
  else match cfg.unmarshal row.properties with
  | .ok _ => none
  | .error err => some ("inbox hold drain: decode properties failed: " ++ err)

/-- One tenant's turn in a pass. -/
structure Turn where
  consumer : String
  tenant : HoldTenant
  /-- The tenants the pass has not reached. -/
  due : List HoldTenant
  /-- What `NextRows` returned. -/
  batch : List HoldRow := []

/-- Where an owner's drain stands: the statement or the replay it makes next. -/
inductive Pc
  | idle
  /-- `AcquireLease`. -/
  | acquiring (consumer : String) (tenant : HoldTenant) (due : List HoldTenant)
  /-- `NextRows`. -/
  | reading (turn : Turn)
  /-- The top of the loop, at `row`. -/
  | looping (turn : Turn) (row : HoldRow) (left : List HoldRow)
  /-- `Replay` of `row` is running. -/
  | replaying (turn : Turn) (row : HoldRow) (left : List HoldRow)
  /-- `DeleteRow`. -/
  | deleting (turn : Turn) (row : HoldRow) (left : List HoldRow)
  /-- `Defer`. -/
  | deferring (turn : Turn) (err : String)
  /-- `Release`. -/
  | releasing (turn : Turn)
  /-- `ReleaseLease`. -/
  | yielding (turn : Turn)

/-- The pass goes on with its next tenant. -/
def Pc.next (consumer : String) : List HoldTenant → Pc
  | [] => .idle
  | tenant :: due => .acquiring consumer tenant due

/-- The loop goes on with its next row. A short batch means the tenant is drained; a full one leaves
rows behind, and the lease goes back. -/
def Turn.loop (turn : Turn) : List HoldRow → Pc
  | row :: left => .looping turn row left
  | [] => if turn.batch.length < holdDrainRowsPerRead then .releasing turn else .yielding turn

/-- The turn is over. -/
def Turn.over (turn : Turn) : Pc :=
  .next turn.consumer turn.due

/-- How a replay ends. -/
inductive Reply
  | ok
  | err (text : String)
  | panic

/-- Recorded events. -/
inductive Event
  /-- The owner began a pass. -/
  | pass (owner : String)
  /-- The owner read a batch. -/
  | read (owner : String) (batch : List HoldRow)
  /-- The owner called `Replay` on the row. -/
  | replay (owner : String) (row : HoldRow)
  /-- The owner's `Replay` of the row returned success. -/
  | replayed (owner : String) (row : HoldRow)
  /-- The owner's `Replay` failed or panicked, or the owner could not read the row. -/
  | failed (owner : String) (row : HoldRow)
  /-- The owner's `DeleteRow` of the row took effect. -/
  | deleted (owner : String) (row : HoldRow)
  deriving DecidableEq

/-- The ledger, where the owners stand, and what has happened. -/
structure State where
  ledger : Ledger := {}
  pcs : String → Pc := fun _ ↦ .idle
  history : List Event := []

/-- Who moves, and what the environment answers. -/
inductive Label
  /-- A park commits. -/
  | park (row : HoldRow)
  /-- The database clock advances. -/
  | tick (d : ℕ)
  /-- `drainConsumer` lists the due tenants. -/
  | begin (owner consumer : String)
  | acquire (owner : String) (w : DbWrite)
  /-- `NextRows`, which may fail. -/
  | read (owner : String) (ok : Bool)
  /-- The top of the loop; `spent` when the deadline has passed. -/
  | loop (owner : String) (spent : Bool)
  | reply (owner : String) (r : Reply)
  | delete (owner : String) (w : DbWrite)
  | defer (owner : String) (w : DbWrite)
  | release (owner : String) (w : DbWrite)
  | yield (owner : String) (w : DbWrite)
  /-- The job ends early: a panic outside a replay, or the process dies. -/
  | crash (owner : String)

namespace State

/-- The owner moves on. -/
def goto (s : State) (owner : String) (pc : Pc) : State :=
  { s with pcs := Function.update s.pcs owner pc }

/-- Records an event. -/
def log (s : State) (e : Event) : State :=
  { s with history := e :: s.history }

/-- A write statement: it changes the ledger if it takes effect. -/
def write (s : State) (w : DbWrite) (l : Ledger) : State :=
  if w.takesEffect then { s with ledger := l } else s

/-- The job lists the due tenants of a consumer; a listing that fails leaves the drain idle. -/
def begin (s : State) (owner consumer : String) : Option State :=
  match s.pcs owner with
  | .idle => some ((s.log (.pass owner)).goto owner
      (.next consumer (s.ledger.dueTenants consumer holdDrainTenantsPerPass)))
  | _ => none

/-- `drainTenant`: a tenant another replica replays is not ours to touch. -/
def acquire (cfg : DrainConfig) (s : State) (owner : String) (w : DbWrite) : Option State :=
  match s.pcs owner with
  | .acquiring consumer tenant due =>
    let taken := s.ledger.tenants.any (s.ledger.acquires consumer tenant.tenantID owner)
    some ((s.write w (s.ledger.acquireLease consumer tenant.tenantID owner cfg.leaseDuration)).goto
      owner (if !w.fails && taken then .reading { consumer, tenant, due } else .next consumer due))
  | _ => none

/-- `replayTenantRows` reads its batch. -/
def read (s : State) (owner : String) (ok : Bool) : Option State :=
  match s.pcs owner with
  | .reading turn =>
    if !ok then some (s.goto owner turn.over)
    else
      let batch := s.ledger.nextRows turn.consumer turn.tenant.tenantID holdDrainRowsPerRead
      let turn := { turn with batch := batch }
      some ((s.log (.read owner batch)).goto owner
        (if batch = [] then .releasing turn else turn.loop batch))
  | _ => none

/-- The top of `replayTenantRows`' loop and the part of `replayRow` before the replay. -/
def loop (cfg : DrainConfig) (s : State) (owner : String) (spent : Bool) : Option State :=
  match s.pcs owner with
  | .looping turn row left =>
    if spent then some (s.goto owner (.yielding turn))
    else match cfg.heldMessageOf row with
    | some err => some ((s.log (.failed owner row)).goto owner (.deferring turn err))
    | none => some ((s.log (.replay owner row)).goto owner (.replaying turn row left))
  | _ => none

/-- The replay returns. A panic is contained by `drainTenant` and ends the turn. -/
def reply (s : State) (owner : String) (r : Reply) : Option State :=
  match s.pcs owner with
  | .replaying turn row left =>
    match r with
    | .ok => some ((s.log (.replayed owner row)).goto owner (.deleting turn row left))
    | .err text => some ((s.log (.failed owner row)).goto owner (.deferring turn text))
    | .panic => some ((s.log (.failed owner row)).goto owner turn.over)
  | _ => none

/-- `DeleteRow` after a successful replay; a refused fence ends the turn. -/
def delete (s : State) (owner : String) (w : DbWrite) : Option State :=
  match s.pcs owner with
  | .deleting turn row left =>
    let tenant := turn.tenant.tenantID
    let affected := s.ledger.rows.any
      (s.ledger.deletes turn.consumer row.stream row.offset tenant owner)
    let s' := s.write w (s.ledger.deleteRow turn.consumer row.stream row.offset tenant owner)
    some ((if w.takesEffect && affected then s'.log (.deleted owner row) else s').goto owner
      (if !w.fails && affected then turn.loop left else turn.over))
  | _ => none

/-- `deferTenant`; whatever the statement answers, the turn is over. -/
def defer (cfg : DrainConfig) (s : State) (owner : String) (w : DbWrite) : Option State :=
  match s.pcs owner with
  | .deferring turn err =>
    some ((s.write w (s.ledger.defer turn.consumer turn.tenant.tenantID owner
      (cfg.backoffFor (turn.tenant.attempts + 1)) err)).goto owner turn.over)
  | _ => none

/-- `releaseTenant`. -/
def release (s : State) (owner : String) (w : DbWrite) : Option State :=
  match s.pcs owner with
  | .releasing turn =>
    some ((s.write w (s.ledger.release turn.consumer turn.tenant.tenantID owner)).goto owner
      turn.over)
  | _ => none

/-- `yieldLease`. -/
def yield (s : State) (owner : String) (w : DbWrite) : Option State :=
  match s.pcs owner with
  | .yielding turn =>
    some ((s.write w (s.ledger.releaseLease turn.consumer turn.tenant.tenantID owner)).goto owner
      turn.over)
  | _ => none

/-- A step of the drain. -/
def step (cfg : DrainConfig) (s : State) : Label → Option State
  | .park row => if row.validateHoldRow then some { s with ledger := s.ledger.park row } else none
  | .tick d => some { s with ledger := { s.ledger with now := s.ledger.now + d } }
  | .begin owner consumer => s.begin owner consumer
  | .acquire owner w => s.acquire cfg owner w
  | .read owner ok => s.read owner ok
  | .loop owner spent => s.loop cfg owner spent
  | .reply owner r => s.reply owner r
  | .delete owner w => s.delete owner w
  | .defer owner w => s.defer cfg owner w
  | .release owner w => s.release owner w
  | .yield owner w => s.yield owner w
  | .crash owner => some (s.goto owner .idle)

end State

/-- Any number of drains on one ledger, from its creation on. -/
def drainSystem (cfg : DrainConfig) : StepSystem State Label where
  init s := s = {}
  step := State.step cfg

end Hold
