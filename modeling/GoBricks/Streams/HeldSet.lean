import GoBricks.Lib.Database
import GoBricks.Lib.StepSystem
import Mathlib.Data.Finset.Insert
import Mathlib.Data.Finset.Dedup
import Mathlib.Logic.Function.Basic

/-!
# The held set of a stream consumer

A runner keeps its own view of which tenants the hold ledger holds, so that a delivery can be gated
without asking the database. The view changes in two ways: a park adds its tenant, after its row has
been committed; a reload replaces the whole view by a listing of the ledger, which is read **without
the lock**. Three counters keep the two from undoing each other.

* The **generation** advances with every add. A reload reads it before it lists, and its replace is
  refused if it has advanced since.
* The **epoch** advances with every promotion, which also closes the gate. A reload carries an
  epoch, and its replace is refused if there has been a later promotion.
* The **channel** of the present closing of the gate. Deliveries that found the gate closed wait for
  it; the replace that opens the gate closes it.

The runner's threads run interleaved, a step being one lock section or one ledger call: deliveries,
each of which may park, and reloads, called at startup, by the drain and by a promotion. The ledger
is shared: other replicas park and release the same tenants at any time.
-/

namespace Streams

/-- `heldSet`. Channels are numbered in the order they are made. -/
structure HeldSet where
  tenants : Finset String := ∅
  generation : ℕ := 0
  closed : Bool := false
  epoch : ℕ := 0
  /-- The channel deliveries wait on. -/
  opened : ℕ := 0
  /-- The channels that have been closed. -/
  fired : List ℕ := []

namespace HeldSet

/-- Whether the tenant is held. -/
def has (s : HeldSet) (tenant : String) : Bool :=
  tenant ∈ s.tenants

/-- Stops deliveries until a reload lands; the epoch after it is what that reload carries. -/
def closeGate (s : HeldSet) : HeldSet :=
  { s with
    closed := true
    opened := if s.closed then s.opened else s.opened + 1
    epoch := s.epoch + 1 }

/-- Holds one tenant. -/
def add (s : HeldSet) (tenant : String) : HeldSet :=
  { s with tenants := insert tenant s.tenants, generation := s.generation + 1 }

/-- Swaps the set for a listing and opens the gate, unless a park or a promotion came between. The
error is the panic of closing a channel twice. -/
def replace (s : HeldSet) (generation epoch : ℕ) (tenants : List String) :
    Except String (HeldSet × Bool) :=
  if s.generation ≠ generation ∨ s.epoch ≠ epoch then .ok (s, false)
  else
    let next := { s with tenants := tenants.toFinset }
    if s.closed then
      if s.opened ∈ s.fired then .error "close of closed channel"
      else .ok ({ next with closed := false, fired := s.opened :: s.fired }, true)
    else .ok (next, true)

end HeldSet

/-! ### Threads -/

/-- One delivery, from its arrival to its settlement. -/
inductive Delivery
  | unborn
  /-- `awaitOpen` found the gate closed and waits for the channel. -/
  | waiting (tenant : String) (opened : ℕ)
  /-- `awaitOpen` reported true; an attempt at the message is next. -/
  | proceeding (tenant : String)
  /-- The handler is running. -/
  | handling (tenant : String)
  /-- The loop of `park`. A write that reported an error may have left a marker all the same. -/
  | parking (tenant : String) (marker : Option ℕ)
  /-- `Park` returned; `held.add` is next. -/
  | adding (tenant : String) (marker : ℕ)
  | parked (tenant : String) (marker : ℕ)
  | settled
  /-- The consumer is stopping: nothing is committed. -/
  | dropped

/-- Who calls `loadHeldForEpoch`. -/
inductive Caller
  | startup
  | drain
  | promotion
  deriving DecidableEq

/-- One reload. -/
inductive Reload
  | unborn
  /-- `epochAt`, for a reload that no promotion started. -/
  | entering (caller : Caller)
  /-- The top of the loop: `generationAt`. -/
  | top (caller : Caller) (epoch : ℕ)
  /-- `HeldTenants`. -/
  | listing (caller : Caller) (epoch generation : ℕ)
  /-- `replace`. -/
  | replacing (caller : Caller) (epoch generation : ℕ) (tenants : List String)
  /-- The replace was refused; `epochAt` says why. -/
  | refused (caller : Caller) (epoch : ℕ)
  /-- `reloadUntilLoaded` waits for its next try. -/
  | waiting (epoch : ℕ)
  | ended

/-- `loadHeldForEpoch` returns an error: only a promotion's reload tries again. -/
def Reload.fail : Caller → ℕ → Reload
  | .promotion, epoch => .waiting epoch
  | _, _ => .ended

/-- How an attempt of the handler ends. -/
inductive Outcome
  | succeeded
  /-- It failed and is tried again. -/
  | again
  /-- Its payload cannot be decoded or is not valid. -/
  | payload
  | failed

/-- Recorded events. -/
inductive Event
  /-- A delivery found the gate closed. -/
  | foundClosed (delivery : ℕ)
  /-- A delivery got past the gate. -/
  | proceeded (delivery : ℕ)
  /-- A delivery's park has added its tenant. -/
  | added (delivery : ℕ) (tenant : String)
  /-- A reload's listing was read. -/
  | listed (reload : ℕ)
  /-- A promotion closed the gate; its epoch. -/
  | gateClosed (epoch : ℕ)
  /-- A reload's replace opened the gate. -/
  | gateOpened (reload : ℕ)
  deriving DecidableEq

/-! ### The runner and its ledger -/

/-- One runner, and the markers its consumer has in the ledger. A marker's identity tells it from a
later marker of the same tenant. -/
structure State where
  held : HeldSet := {}
  markers : VTable String := []
  nextUid : ℕ := 0
  /-- `loadHeld` has returned at startup, and the consumer is open. -/
  loaded : Bool := false
  panicked : Bool := false
  deliveries : ℕ → Delivery := fun _ ↦ .unborn
  reloads : ℕ → Reload := Function.update (fun _ ↦ .unborn) 0 (.entering .startup)
  history : List Event := []

/-- Which thread moves, and what the environment answers. -/
inductive Label
  /-- Another replica parks a delivery of the tenant. -/
  | hold (tenant : String)
  /-- A drain releases the tenant. -/
  | release (tenant : String)
  | deliver (d : ℕ) (tenant : String)
  /-- The channel a delivery waits for is closed. -/
  | wake (d : ℕ)
  /-- The consumer stops while the delivery waits. -/
  | stop (d : ℕ)
  /-- The gate of an attempt; `poison` when the consumer's screen refuses the message. -/
  | attempt (d : ℕ) (poison : Bool)
  | handled (d : ℕ) (outcome : Outcome)
  | park (d : ℕ) (w : DbWrite)
  | add (d : ℕ)
  /-- The drain calls `ReloadHeld`. -/
  | reload (r : ℕ)
  /-- The broker promotes the consumer. -/
  | promote (r : ℕ)
  | epochAt (r : ℕ)
  | generationAt (r : ℕ)
  | heldTenants (r : ℕ) (ok : Bool)
  | replace (r : ℕ)
  | recheck (r : ℕ) (stopped : Bool)
  | wait (r : ℕ) (stopped : Bool)

namespace State

/-- An event is noted. -/
def log (s : State) (e : Event) : State :=
  { s with history := e :: s.history }

/-- A delivery moves. -/
def setDelivery (s : State) (d : ℕ) (pc : Delivery) : State :=
  { s with deliveries := Function.update s.deliveries d pc }

/-- A reload moves. -/
def setReload (s : State) (r : ℕ) (pc : Reload) : State :=
  { s with reloads := Function.update s.reloads r pc }

/-- The ledger's part of a park: the tenant's marker, which may be there already. -/
def mark (s : State) (tenant : String) : State × ℕ :=
  match s.markers.find? (·.val = tenant) with
  | some m => (s, m.uid)
  | none =>
    ({ s with markers := s.markers ++ [⟨s.nextUid, tenant⟩], nextUid := s.nextUid + 1 }, s.nextUid)

/-- Whether a delivery must be parked without running. -/
def gates (s : State) (tenant : String) : Bool :=
  tenant ≠ "" && s.held.has tenant

/-- `awaitOpen`, up to its wait. -/
def deliver (s : State) (d : ℕ) (tenant : String) : Option State :=
  match s.deliveries d with
  | .unborn =>
    if !s.loaded then none
    else if s.held.closed then
      some ((s.log (.foundClosed d)).setDelivery d (.waiting tenant s.held.opened))
    else some ((s.log (.proceeded d)).setDelivery d (.proceeding tenant))
  | _ => none

/-- A delivery whose gate was opened goes on. -/
def wake (s : State) (d : ℕ) : Option State :=
  match s.deliveries d with
  | .waiting tenant opened =>
    if opened ∈ s.held.fired then some ((s.log (.proceeded d)).setDelivery d (.proceeding tenant))
    else none
  | _ => none

/-- The context is done, at the gate or in the loop of `park`. -/
def stop (s : State) (d : ℕ) : Option State :=
  match s.deliveries d with
  | .waiting _ _ | .parking _ _ => some (s.setDelivery d .dropped)
  | _ => none

/-- The `Handle` closure up to the handler. -/
def attempt (s : State) (d : ℕ) (poison : Bool) : Option State :=
  match s.deliveries d with
  | .proceeding tenant =>
    if s.gates tenant then
      some (s.setDelivery d (if poison then .settled else .parking tenant none))
    else some (s.setDelivery d (.handling tenant))
  | _ => none

/-- The handler returns, and the delivery is settled unless its failure is the runner's to park. -/
def handled (s : State) (d : ℕ) (outcome : Outcome) : Option State :=
  match s.deliveries d with
  | .handling tenant =>
    match outcome with
    | .succeeded | .payload => some (s.setDelivery d .settled)
    | .again => some (s.setDelivery d (.proceeding tenant))
    | .failed =>
      some (s.setDelivery d (if tenant = "" then .settled else .parking tenant none))
  | _ => none

/-- `Park`, in the loop of `park`. -/
def park (s : State) (d : ℕ) (w : DbWrite) : Option State :=
  match s.deliveries d with
  | .parking tenant _ =>
    if w.takesEffect then
      let (s', uid) := s.mark tenant
      some (s'.setDelivery d (if w.fails then .parking tenant (some uid) else .adding tenant uid))
    else some s
  | _ => none

/-- A delivery that parks adds its tenant to the set. -/
def add (s : State) (d : ℕ) : Option State :=
  match s.deliveries d with
  | .adding tenant uid =>
    some (({ s with held := s.held.add tenant }.log (.added d tenant)).setDelivery d
      (.parked tenant uid))
  | _ => none

/-- `ReloadHeld`. -/
def reload (s : State) (r : ℕ) : Option State :=
  match s.reloads r with
  | .unborn => if s.loaded then some (s.setReload r (.entering .drain)) else none
  | _ => none

/-- `reloadHeldOnPromotion`. -/
def promote (s : State) (r : ℕ) : Option State :=
  match s.reloads r with
  | .unborn =>
    if !s.loaded then none
    else
      let held := s.held.closeGate
      some (({ s with held := held }.log (.gateClosed held.epoch)).setReload r
        (.top .promotion held.epoch))
  | _ => none

/-- A reload reads the epoch. -/
def epochAt (s : State) (r : ℕ) : Option State :=
  match s.reloads r with
  | .entering caller => some (s.setReload r (.top caller s.held.epoch))
  | _ => none

/-- A reload reads the generation. -/
def generationAt (s : State) (r : ℕ) : Option State :=
  match s.reloads r with
  | .top caller epoch => some (s.setReload r (.listing caller epoch s.held.generation))
  | _ => none

/-- A reload lists the markers, or fails to. -/
def heldTenants (s : State) (r : ℕ) (ok : Bool) : Option State :=
  match s.reloads r with
  | .listing caller epoch generation =>
    if ok then
      some ((s.log (.listed r)).setReload r
        (.replacing caller epoch generation (s.markers.map Versioned.val)))
    else some (s.setReload r (.fail caller epoch))
  | _ => none

/-- `loadHeldForEpoch` returns without an error. -/
def finish (s : State) (r : ℕ) (caller : Caller) : State :=
  { s.setReload r .ended with loaded := s.loaded || caller = .startup }

/-- A reload puts its list in the place of the set. -/
def replace (s : State) (r : ℕ) : Option State :=
  match s.reloads r with
  | .replacing caller epoch generation tenants =>
    match s.held.replace generation epoch tenants with
    | .error _ => some { s with panicked := true }
    | .ok (_, false) => some (s.setReload r (.refused caller epoch))
    | .ok (held, true) =>
      let s' := { s with held := held }.finish r caller
      some (if s.held.closed then s'.log (.gateOpened r) else s')
  | _ => none

/-- After a refused replace: a later promotion's reload speaks for the gate, a park's means reading
again. -/
def recheck (s : State) (r : ℕ) (stopped : Bool) : Option State :=
  match s.reloads r with
  | .refused caller epoch =>
    if s.held.epoch ≠ epoch then some (s.finish r caller)
    else some (s.setReload r (if stopped then .fail caller epoch else .top caller epoch))
  | _ => none

/-- The wait of `reloadUntilLoaded`. -/
def wait (s : State) (r : ℕ) (stopped : Bool) : Option State :=
  match s.reloads r with
  | .waiting epoch => some (s.setReload r (if stopped then .ended else .top .promotion epoch))
  | _ => none

/-- A step of the holds, the deliveries and the reloads. -/
def step (s : State) : Label → Option State
  | .hold tenant => some (s.mark tenant).1
  | .release tenant => some { s with markers := s.markers.filter (·.val ≠ tenant) }
  | .deliver d tenant => s.deliver d tenant
  | .wake d => s.wake d
  | .stop d => s.stop d
  | .attempt d poison => s.attempt d poison
  | .handled d outcome => s.handled d outcome
  | .park d w => s.park d w
  | .add d => s.add d
  | .reload r => s.reload r
  | .promote r => s.promote r
  | .epochAt r => s.epochAt r
  | .generationAt r => s.generationAt r
  | .heldTenants r ok => s.heldTenants r ok
  | .replace r => s.replace r
  | .recheck r stopped => s.recheck r stopped
  | .wait r stopped => s.wait r stopped

end State

/-- A runner from its creation on, over whatever the ledger holds by then. -/
def runnerSystem : StepSystem State Label where
  init s := ∃ markers next, (∀ m ∈ markers, m.uid < next) ∧
    s = { markers := markers, nextUid := next }
  step := State.step

end Streams
