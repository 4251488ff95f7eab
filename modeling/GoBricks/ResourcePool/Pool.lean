import GoBricks.Lib.ElementList
import Mathlib.Data.List.AList
import Mathlib.Logic.Function.Basic

/-!
# The keyed resource pool: its data and its critical sections

`internal/resourcepool/resourcepool.go`, as far as it runs under `Pool.mu`: every definition below
is one critical section, a pure function from the pool to the pool and to what the caller does after
unlocking. Who runs when is the business of `GoBricks.ResourcePool.System`.

Go's pointers are made explicit. An `*entry` is a natural number into `heap`, a `*pendingCreate` is
a position in `creates`, and an `*list.Element` is a handle of `ElementList`. A create allocates at
most one entry, so **the entry of a create is addressed by the create's own number**; that number is
also the identity of the value the create returned, which is what "the Closer runs at most once per
created value" counts.

Two things are inputs rather than state: a clock reading (`time.Now()`), and the order in which a
`range` over a map visits its keys.

Counters that the source keeps as `int` are integers here, so that "never negative" has to be
proved. The per-key generation is a `uint64` in the source; it is a natural number here, which
leaves out the wrap after `2 ^ 64` invalidations during a single create.
-/

namespace ResourcePool

/-- Why a `GetOrCreate` call returns no value: `ErrPoolClosed`, the caller's own context, or the
failure of the create it joined. -/
inductive PoolErr (E : Type*)
  | poolClosed
  | ctx
  | create (err : E)

/-- A pooled resource. `refs` counts the outstanding leases, unclaimed seeds included. -/
structure Entry (V : Type*) where
  value : V
  key : String
  lastUsed : ℤ
  /-- Position in the LRU list; `none` is Go's nil element, the state of an entry never cached. -/
  element : Option ℕ
  refs : ℤ
  seeds : ℤ
  detached : Bool
  closed : Bool

/-- Leases held by actual borrowers, discounting unclaimed seeds. -/
def Entry.liveLeases {V : Type*} (e : Entry V) : ℤ :=
  e.refs - e.seeds

/-- One in-flight create. `key` is the argument its goroutine carries. The `done` channel is not
stored: it closes only after `settled` is set, and the other arm of `await` reads `settled` itself,
so a waiter can take the result exactly from `settled` on. -/
structure PendingCreate (E : Type*) where
  key : String
  gen : ℕ
  waiters : ℤ
  settled : Bool
  e : Option ℕ
  err : Option (PoolErr E)

/-- What a critical section leaves to be closed after unlocking, by the path it came from: the paths
differ in whether a close failure is counted, retained, or discarded. -/
inductive Task
  /-- The final release of a detached entry. -/
  | release
  /-- A value created for a pool that was closed meanwhile. -/
  | orphan
  /-- A value detached at birth with no waiter left. -/
  | birth
  /-- The unleased victim of an eviction. -/
  | evicted
  /-- An idle entry, closed by cleanup loop `l`. -/
  | loop (l : ℕ)
  /-- An entry drained by `Close`. -/
  | close
  deriving DecidableEq

/-- The part of `Pool` guarded by `mu`, with the objects its pointers lead to. -/
structure Pool (V E : Type*) where
  entries : AList fun _ : String ↦ ℕ
  lru : ElementList ℕ
  pending : AList fun _ : String ↦ ℕ
  maxSize : ℤ
  idleTTL : ℤ
  totalCreated : ℕ
  evictions : ℕ
  removals : ℕ
  idleCleanups : ℕ
  generation : AList fun _ : String ↦ ℕ
  inFlight : AList fun _ : String ↦ ℤ
  errors : ℕ
  cleanupErrs : List E
  closed : Bool
  heap : ℕ → Option (Entry V)
  creates : List (PendingCreate E)

namespace Pool

variable {V E : Type*}

/-- `New`: an empty pool. `maxSize ≤ 0` means unlimited, `idleTTL ≤ 0` disables idle cleanup. -/
def new (maxSize idleTTL : ℤ) : Pool V E where
  entries := ∅
  lru := .empty
  pending := ∅
  maxSize := maxSize
  idleTTL := idleTTL
  totalCreated := 0
  evictions := 0
  removals := 0
  idleCleanups := 0
  generation := ∅
  inFlight := ∅
  errors := 0
  cleanupErrs := []
  closed := false
  heap := fun _ ↦ none
  creates := []

variable (p : Pool V E)

/-- Write through an entry pointer. -/
def updateEntry (i : ℕ) (f : Entry V → Entry V) : Pool V E :=
  { p with heap := Function.update p.heap i ((p.heap i).map f) }

/-- Write through a create pointer. -/
def updateCreate (c : ℕ) (f : PendingCreate E → PendingCreate E) : Pool V E :=
  { p with creates := p.creates.modify c f }

/-- `e.closed = true`. -/
def markClosed (i : ℕ) : Pool V E :=
  p.updateEntry i fun e ↦ { e with closed := true }

/-- `p.generation[key]`, zero when absent. -/
def generationOf (key : String) : ℕ :=
  (p.generation.lookup key).getD 0

/-- `p.inFlight[key]`, zero when absent. -/
def inFlightOf (key : String) : ℤ :=
  (p.inFlight.lookup key).getD 0

/-- The LRU position stored in an entry. -/
def elementOf (i : ℕ) : Option ℕ :=
  (p.heap i).bind Entry.element

/-! ### Leasing and joining -/

/-- What `leaseOrJoin` hands back: an error, a leased entry, or a create to wait for. `fresh` tells
whether this call started the create, that is, whether its goroutine begins here. -/
inductive Joined (E : Type*)
  | failed (err : PoolErr E)
  | leased (i : ℕ)
  | joined (c : ℕ) (fresh : Bool)

/-- Register a new in-flight create for `key`, capturing the key's generation. -/
def beginCreateLocked (key : String) : Pool V E × ℕ :=
  ({ p with
      creates := p.creates ++ [{
        key := key, gen := p.generationOf key, waiters := 0, settled := false, e := none
        err := none }]
      pending := p.pending.insert key p.creates.length
      inFlight := p.inFlight.insert key (p.inFlightOf key + 1) }, p.creates.length)

/-- Lease the cached entry for `key`, or join the key's in-flight create, starting one when none is
running. -/
def leaseOrJoin (key : String) (now : ℤ) : Pool V E × Joined E :=
  if p.closed then (p, .failed .poolClosed)
  else
    match p.entries.lookup key with
    | some i =>
      ({ p.updateEntry i fun e ↦ { e with lastUsed := now, refs := e.refs + 1 } with
          lru := (p.elementOf i).elim p.lru p.lru.moveToFront }, .leased i)
    | none =>
      match p.pending.lookup key with
      | some c => (p.updateCreate c fun pc ↦ { pc with waiters := pc.waiters + 1 }, .joined c false)
      | none =>
        let q := p.beginCreateLocked key
        (q.1.updateCreate q.2 fun pc ↦ { pc with waiters := pc.waiters + 1 }, .joined q.2 true)

/-- The losing arm of `await`: the caller's context ended before the create settled, so no seed will
be reserved for it. -/
def giveUp (c : ℕ) : Pool V E :=
  p.updateCreate c fun pc ↦ { pc with waiters := pc.waiters - 1 }

/-- Turn one reserved seed into the caller's lease; false when the entry is already closed. -/
def claimSeed (i : ℕ) : Pool V E × Bool :=
  match p.heap i with
  | some e =>
    if e.closed then (p, false)
    else (p.updateEntry i fun e ↦ { e with seeds := e.seeds - 1 }, true)
  | none => (p, false)

/-- Drop one lease; the final release of a detached entry closes it after unlocking. -/
def releaseEntry (i : ℕ) : Pool V E × List (Task × ℕ) :=
  match p.heap i with
  | some e =>
    let p := p.updateEntry i fun e ↦ { e with refs := e.refs - 1 }
    if e.detached ∧ e.refs - 1 ≤ 0 ∧ ¬e.closed then (p.markClosed i, [(.release, i)]) else (p, [])
  | none => (p, [])

/-! ### Removing from the map and the list -/

/-- Drop the bookkeeping for `key` and mark its entry detached. -/
def removeEntryLocked (key : String) : Pool V E × Option ℕ :=
  match p.entries.lookup key with
  | none => (p, none)
  | some i =>
    ({ p.updateEntry i fun e ↦ { e with detached := true } with
        lru := (p.elementOf i).elim p.lru p.lru.remove
        entries := p.entries.erase key }, some i)

/-- Remove the least recently used entry if at capacity, and return it when it may be closed now: a
victim still leased is closed by its final release instead. -/
def evictIfNeeded : Pool V E × List (Task × ℕ) :=
  if p.maxSize ≤ 0 ∨ (p.entries.keys.length : ℤ) < p.maxSize then (p, [])
  else
    match p.lru.back with
    | none => (p, [])
    | some (_, i) =>
      match p.heap i with
      | none => (p, [])
      | some e =>
        let p := { (p.removeEntryLocked e.key).1 with evictions := p.evictions + 1 }
        if 0 < e.refs then (p, []) else (p.markClosed i, [(.evicted, i)])

/-- `Remove`: detach the cached entry and invalidate every create in flight for `key`. The second
component is the entry handed back for the caller to close. -/
def remove (key : String) : Pool V E × Option ℕ :=
  let e := p.entries.lookup key
  let p₁ := (p.removeEntryLocked key).1
  let inFlight := 0 < p₁.inFlightOf key
  if e = none ∧ ¬inFlight then (p₁, none)
  else
    let p₂ := { p₁ with
      generation := if inFlight then p₁.generation.insert key (p₁.generationOf key + 1)
        else p₁.generation
      pending := if inFlight then p₁.pending.erase key else p₁.pending
      removals := p₁.removals + 1 }
    match e.bind fun i ↦ (p₂.heap i).map fun e ↦ (i, e) with
    | some (i, e) => if e.refs ≤ 0 ∧ ¬e.closed then (p₂.markClosed i, some i) else (p₂, none)
    | none => (p₂, none)

/-! ### Finishing a create -/

/-- Settle `c`, stop new callers joining it, and drop the key's in-flight count, releasing the key's
generation with the last create. -/
def endCreateLocked (key : String) (c : ℕ) : Pool V E :=
  { p with
    creates := p.creates.modify c fun pc ↦ { pc with settled := true }
    -- Remove may already have dropped `c` and let a newer create start
    pending := if p.pending.lookup key = some c then p.pending.erase key else p.pending
    inFlight := if p.inFlightOf key - 1 ≤ 0 then p.inFlight.erase key
      else p.inFlight.insert key (p.inFlightOf key - 1)
    generation := if p.inFlightOf key - 1 ≤ 0 then p.generation.erase key else p.generation }

/-- End `c` with `err` for every waiter: the create returned an error, panicked, or exited. -/
def failCreate (key : String) (c : ℕ) (err : E) : Pool V E :=
  ({ p with errors := p.errors + 1 }.endCreateLocked key c).updateCreate c fun pc ↦
    { pc with err := some (.create err) }

/-- The entry a create allocates: one seed lease for each waiter still on it. -/
def newEntry (pc : PendingCreate E) (value : V) (now : ℤ) (detached : Bool) : Entry V where
  value := value
  key := pc.key
  lastUsed := now
  element := none
  refs := pc.waiters
  seeds := pc.waiters
  detached := detached
  closed := false

/-- Allocate the entry of `c` and make it the result of `c`. -/
def allocate (c : ℕ) (pc : PendingCreate E) (value : V) (now : ℤ) (detached : Bool) : Pool V E :=
  { p.updateCreate c fun pc ↦ { pc with e := some c } with
    heap := Function.update p.heap c (some (newEntry pc value now detached))
    totalCreated := p.totalCreated + 1 }

/-- `e.element = p.lru.PushFront(e); p.entries[key] = e`. -/
def cache (key : String) (i : ℕ) : Pool V E :=
  { p.updateEntry i fun e ↦ { e with element := some (p.lru.pushFront i).2 } with
    lru := (p.lru.pushFront i).1
    entries := p.entries.insert key i }

/-- Place a successfully created value into the pool, or mark it detached-at-birth when `Remove`
moved the key's generation during create. `pc` is what `c` points to. The generation is read before
`endCreateLocked`, which may release it. -/
def installCreated (c : ℕ) (pc : PendingCreate E) (value : V) (now : ℤ) :
    Pool V E × List (Task × ℕ) :=
  let detached := decide (p.generationOf pc.key ≠ pc.gen)
  let p := p.endCreateLocked pc.key c
  if p.closed then
    (p.updateCreate c fun pc ↦ { pc with err := some .poolClosed }, [(.orphan, c)])
  else
    let p := p.allocate c pc value now detached
    if detached then
      -- detached with every waiter gone: no release will ever come, so it closes now
      if pc.waiters = 0 then (p.markClosed c, [(.birth, c)]) else (p, [])
    else (p.evictIfNeeded.1.cache pc.key c, p.evictIfNeeded.2)

/-! ### Sweeping the map -/

/-- The body of `cleanupIdle`'s loop at one key, with the entries to close collected so far. -/
def cleanupKey (now : ℤ) (acc : Pool V E × List ℕ) (key : String) : Pool V E × List ℕ :=
  match (acc.1.entries.lookup key).bind fun i ↦ (acc.1.heap i).map fun e ↦ (i, e) with
  | none => acc
  | some (i, e) =>
    if acc.1.idleTTL < now - e.lastUsed then
      let p := { (acc.1.removeEntryLocked key).1 with idleCleanups := acc.1.idleCleanups + 1 }
      if 0 < e.refs then (p, acc.2) else (p.markClosed i, acc.2 ++ [i])
    else acc

/-- `cleanupIdle`: remove the entries idle beyond the TTL, visiting the keys in `order`. -/
def cleanupIdle (now : ℤ) (order : List String) : Pool V E × List ℕ :=
  if p.idleTTL ≤ 0 then (p, []) else order.foldl (cleanupKey now) (p, [])

/-- The body of `Close`'s drain loop at one key. A borrowed entry is left to its final release; one
whose only leases are unclaimed seeds is closed. -/
def drainKey (acc : Pool V E × List ℕ) (key : String) : Pool V E × List ℕ :=
  match (acc.1.entries.lookup key).bind fun i ↦ (acc.1.heap i).map fun e ↦ (i, e) with
  | none => acc
  | some (i, e) =>
    let p := (acc.1.removeEntryLocked key).1
    if 0 < e.liveLeases then (p, acc.2) else (p.markClosed i, acc.2 ++ [i])

/-- The critical section of `Close`: take the recorded cleanup failures and empty the map. -/
def drain (order : List String) : Pool V E × List ℕ :=
  order.foldl drainKey ({ p with cleanupErrs := [] }, [])

end Pool

end ResourcePool
