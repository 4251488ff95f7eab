import GoBricks.Lib.StepSystem
import GoBricks.Server.Route

/-!
# Route admission

Every route of a server, every group that carries middleware and every tenant-owned family goes
through one `Admission`, which judges it against what it has seen so far and records a conflict when
it refuses it. `seal` ends the registration: the conflicts are read, and from then on a registration
under a family or a framework root that is not of it panics.

Each function takes the admission's lock, so that a run is any sequence of their calls. A family is
built in two of them (`family`, `claim`), between which others may come; its routes are registered
through it, once it is claimed.
-/

open Text

namespace Server

/-- Why a route is refused. -/
inductive RouteConflictReason
  | duplicate
  | reservedMethod
  | tenantOwned
  | frameworkRoot
  deriving DecidableEq

/-- Who registers a route. -/
structure RouteRegistrant where
  handlerName : String
  package : String
  deriving DecidableEq

/-- A route that was refused, and what it met. -/
structure RouteConflict where
  method : Bytes
  path : Bytes
  firstPath : Bytes := []
  first : RouteRegistrant := ⟨"", ""⟩
  duplicate : RouteRegistrant
  reason : RouteConflictReason
  deriving DecidableEq

/-- A route that is offered for admission, with the prefix of the family it comes through. -/
structure AdmittedRoute where
  method : Bytes
  path : Bytes
  registrant : RouteRegistrant
  family : Option Bytes
  deriving DecidableEq

/-- Echo's methods that only the engine may register. -/
def reservedMethods : List Bytes :=
  [ascii "echo_route_not_found", ascii "echo_route_any"]

/-- The packages that may register at the root. -/
def frameworkRootPackages : List String :=
  ["github.com/gaborage/go-bricks/scheduler", "github.com/gaborage/go-bricks/app"]

/-- The server's own package. -/
def serverPackagePath : String := "github.com/gaborage/go-bricks/server"

/-- The methods of the probes. -/
def probeMethods : List Bytes :=
  [ascii "GET", ascii "HEAD"]

/-- What `New` writes once. -/
structure Config where
  probePaths : List Bytes
  frameworkRoots : List Bytes

/-- A route that was admitted. -/
structure SeenRoute where
  reg : RouteRegistrant
  path : Bytes
  deriving DecidableEq

/-- The record of all registrations. -/
structure Admission where
  seen : List (Bytes × SeenRoute) := []
  conflicts : List RouteConflict := []
  started : Bool := false
  families : List Bytes := []
  registered : List RouteConflict := []

/-- A path that belongs to a tenant's family. -/
def tenantOwnedConflict (method path : Bytes) (reg : RouteRegistrant) : RouteConflict where
  method := method
  path := path
  duplicate := reg
  reason := .tenantOwned

/-- The prefix that a path is under. -/
def coveringPrefix (path : Bytes) (prefixes : List Bytes) : Option Bytes :=
  prefixes.find? (underPrefix path)

namespace Admission

variable (cfg : Config) (a : Admission)

/-- Records a conflict under a prefix; after `Start` it panics with it. -/
def refuseUnder (c : RouteConflict) (pre : Bytes) : Except RouteConflict Admission :=
  let c := { c with firstPath := pre }
  if a.started then .error c else .ok { a with conflicts := a.conflicts ++ [c] }

/-- The server registers one of its probes. -/
def isProbe (c : RouteConflict) : Bool :=
  probeMethods.contains c.method && c.duplicate.package == serverPackagePath &&
    cfg.probePaths.contains c.path

/-- The admission after a refusal under a framework root; nothing if there is none. -/
def refuseFrameworkRoot (c : RouteConflict) : Except RouteConflict (Option Admission) :=
  match coveringPrefix c.path cfg.frameworkRoots with
  | none => .ok none
  | some root =>
    if frameworkRootPackages.contains c.duplicate.package || isProbe cfg c then .ok none
    else (a.refuseUnder { c with reason := .frameworkRoot } root).map some

/-- The admission after a refusal under a family; nothing if there is none. -/
def refuseTrespass (c : RouteConflict) : Except RouteConflict (Option Admission) :=
  match coveringPrefix c.path a.families with
  | none => .ok none
  | some family => (a.refuseUnder c family).map some

/-- The route that was admitted at a key. -/
def lookup (key : Bytes) : Option SeenRoute :=
  (a.seen.find? (·.1 == key)).map Prod.snd

/-- Whether a route is admitted. -/
def claim (r : AdmittedRoute) : Except RouteConflict (Admission × Bool) :=
  if r.method ∈ reservedMethods then
    .ok ({ a with conflicts := a.conflicts ++
      [{ method := r.method, path := r.path, duplicate := r.registrant
         reason := .reservedMethod }] }, false)
  else
    let c := tenantOwnedConflict r.method r.path r.registrant
    match a.refuseFrameworkRoot cfg c with
    | .error c => .error c
    | .ok (some a') => .ok (a', false)
    | .ok none =>
      match if r.family.isNone then a.refuseTrespass c else .ok none with
      | .error c => .error c
      | .ok (some a') => .ok (a', false)
      | .ok none =>
        let key := routeNodeKey r.method r.path
        match a.lookup key with
        | some first =>
          .ok ({ a with conflicts := a.conflicts ++
            [{ method := r.method, path := r.path, firstPath := first.path, first := first.reg
               duplicate := r.registrant, reason := .duplicate }] }, false)
        | none =>
          .ok ({ a with
            seen := a.seen ++ [(key, ⟨r.registrant, r.path⟩)]
            registered := if a.started then a.registered else a.registered ++ [c] }, true)

/-- The admission of a group. -/
def admitGroup (path : Bytes) (pkg : String) : Except RouteConflict Admission :=
  let c := tenantOwnedConflict [] path ⟨"", pkg⟩
  match a.refuseFrameworkRoot cfg c with
  | .error c => .error c
  | .ok (some a') => .ok a'
  | .ok none =>
    let a := { a with registered := if a.started then a.registered else a.registered ++ [c] }
    match a.refuseTrespass c with
    | .error c => .error c
    | .ok (some a') => .ok a'
    | .ok none => .ok a

/-- A family may not be at a root of the framework. -/
def refuseFamilyUnderFrameworkRoot (full : Bytes) (pkg : String) :
    Except RouteConflict (Option Admission) :=
  a.refuseFrameworkRoot cfg (tenantOwnedConflict [] full ⟨"", pkg⟩)

/-- The conflicts of what is registered under a new family. -/
def trespasses (family : Bytes) : List RouteConflict :=
  (a.registered.filter fun c ↦ underPrefix c.path family).map ({ · with firstPath := family })

/-- Why a family is not claimed. -/
inductive ClaimError
  | started
  | overlaps (family : Bytes)

/-- A family is claimed before the start, apart from all others. -/
def claimFamily (full : Bytes) : Except ClaimError Admission :=
  if a.started then .error .started
  else match a.families.find? fun f ↦ underPrefix full f || underPrefix f full with
  | some f => .error (.overlaps f)
  | none => .ok { a with
      families := a.families ++ [full]
      conflicts := a.conflicts ++ a.trespasses full }

/-- `seal` -/
def sealNow : Admission :=
  { a with started := true, registered := [] }

end Admission

/-! ### Registrars -/

/-- Joins the prefix of a group and a relative one. -/
def combinePrefix (base suffix : Bytes) : Bytes :=
  base ++ suffix

/-- A path relative to the prefix of a group. -/
def relativePath (base path : Bytes) : Bytes :=
  let normalized := ensureLeadingSlash path
  if normalized = [slash] then []
  else (stripPathPrefix normalized base).getD normalized

/-- The path of a route below a base. -/
def fullPathFromRelative (base relative : Bytes) : Bytes :=
  if relative = [] then if base = [] then [slash] else base else base ++ relative

/-- The full prefix of `TenantOwnedGroup`, when it does not panic before it comes to the admission.
-/
def familyPrefix (cfg : Config) (base pre : Bytes) : Option Bytes :=
  let relative := normalizePrefix pre
  let full := combinePrefix base relative
  if relative = [] then none
  else if !isStaticTemplate full then none
  else if cfg.probePaths.any fun p ↦ underPrefix p full then none
  else some full

/-! ### Runs -/

/-- A call that was made before the seal. -/
inductive Call
  | route (r : AdmittedRoute)
  | group (path : Bytes) (pkg : String)
  | family (full : Bytes) (pkg : String)
  deriving DecidableEq

/-- The admission, families under construction, and the calls so far. -/
structure State where
  admission : Admission := {}
  /-- The families that are being built and have not been claimed. -/
  building : List Bytes := []
  /-- The calls before the seal, oldest first: a history variable. -/
  calls : List Call := []
  /-- What `seal` returned. -/
  sealed : Option (List RouteConflict) := none

/-- Who registers what. -/
inductive Label
  /-- A route from outside all families. -/
  | route (method path : Bytes) (reg : RouteRegistrant)
  /-- A route through a family's registrar, or one of a group below it with the prefix `base`. -/
  | familyRoute (family base method path : Bytes) (reg : RouteRegistrant)
  /-- A group that carries middleware, from outside all families. -/
  | group (path : Bytes) (pkg : String)
  /-- `TenantOwnedGroup`, up to the claim. -/
  | family (base pre : Bytes) (pkg : String)
  /-- `claimFamily` -/
  | claim (full : Bytes)
  | seal

namespace State

variable (cfg : Config) (s : State)

/-- Records a call until the seal. -/
def log (c : Call) : State :=
  if s.admission.started then s else { s with calls := s.calls ++ [c] }

/-- The state with another admission. -/
def set (a : Admission) : State :=
  { s with admission := a }

/-- A claim of a route; one that panics changes nothing. -/
def claimRoute (r : AdmittedRoute) : State :=
  match s.admission.claim cfg r with
  | .error _ => s.log (.route r)
  | .ok (a, _) => (s.log (.route r)).set a

/-- A group is opened. -/
def admitGroup (path : Bytes) (pkg : String) : State :=
  match s.admission.admitGroup cfg path pkg with
  | .error _ => s.log (.group path pkg)
  | .ok a => (s.log (.group path pkg)).set a

/-- A family is built. -/
def buildFamily (full : Bytes) (pkg : String) : State :=
  match s.admission.refuseFamilyUnderFrameworkRoot cfg full pkg with
  | .error _ => s.log (.family full pkg)
  | .ok (some a) => (s.log (.family full pkg)).set a
  | .ok none => { s.log (.family full pkg) with building := full :: s.building }

/-- A family is claimed. -/
def claimFamily (full : Bytes) : State :=
  let s' := { s with building := s.building.erase full }
  match s.admission.claimFamily full with
  | .error _ => s'
  | .ok a => s'.set a

/-- The prefix of a group below a family. -/
def ofFamily (family base : Bytes) : Bool :=
  family ∈ s.admission.families && underPrefix base family

/-- A step of the registration. -/
def step : Label → Option State
  | .route method path reg => some (s.claimRoute cfg ⟨method, path, reg, none⟩)
  | .familyRoute family base method path reg =>
    if s.ofFamily family base then
      some (s.claimRoute cfg
        ⟨method, fullPathFromRelative base (relativePath base path), reg, some family⟩)
    else none
  | .group path pkg => some (s.admitGroup cfg path pkg)
  | .family base pre pkg => (familyPrefix cfg base pre).map (s.buildFamily cfg · pkg)
  | .claim full => if full ∈ s.building then some (s.claimFamily full) else none
  | .seal =>
    some { s with
      admission := s.admission.sealNow
      sealed := s.sealed.or (some s.admission.conflicts) }

end State

/-- The registration, from its start on. -/
def system (cfg : Config) : StepSystem State Label where
  init s := s = {}
  step := State.step cfg

end Server
