import GoBricks.Lib.StepSystem
import GoBricks.Trace.Validate
import Mathlib.Logic.Function.Basic

/-!
# Trace context over hops

`trace.go`: a hop takes the trace context from the headers of what comes in (`extractFromHeaders`)
and writes it into the headers of what goes out (`injectIntoHeaders`), where headers may have been
set before. A `tracestate` belongs to one `traceparent`: the two have to come from the same carrier.

A run starts contexts without trace values, extracts from any carriers, also from ones that were
emitted before, and injects into any carriers. `emitted_paired` says of each carrier that is emitted
that its headers belong together.
-/

open Text List Function Option

namespace Trace

/-! ### Headers -/

/-- A value of a header: a string, bytes, or anything else with the text that it is printed as. -/
inductive Value
  | string (s : Bytes)
  | bytes (s : Bytes)
  | other (printed : Bytes)
  deriving DecidableEq

/-- What `Get` returns for a key, `none` for nil. -/
abbrev Carrier := String → Option Value

/-- The header of the request's id. -/
def headerXRequestID : String := "X-Request-ID"

/-- The header of the parent. -/
def headerTraceParent : String := "traceparent"

/-- The header of the vendors' state. -/
def headerTraceState : String := "tracestate"

/-- The text of a header's value. -/
def safeToString : Value → Bytes
  | .string s => s
  | .bytes s => s
  | .other printed => if printed = ascii "<nil>" then [] else printed

namespace Carrier

/-- `Set` of a carrier. -/
def set (h : Carrier) (key : String) (value : Bytes) : Carrier :=
  Function.update h key (some (.string value))

@[simp] theorem set_self (h : Carrier) (key : String) (value : Bytes) :
    h.set key value key = some (.string value) :=
  update_self ..

theorem set_of_ne {key key' : String} (hne : key' ≠ key) (h : Carrier) (value : Bytes) :
    h.set key value key' = h key' :=
  update_of_ne hne ..

end Carrier

/-- The text of a header and whether it is there. -/
def headerString (h : Carrier) (key : String) : Bytes × Bool :=
  match h key with
  | none => ([], false)
  | some v => (safeToString v, true)

/-! ### Contexts -/

/-- The trace values of a context. An empty one shadows what was there. -/
structure Ctx where
  traceID : Option Bytes := none
  traceParent : Option Bytes := none
  traceState : Option Bytes := none

namespace Ctx

variable (ctx : Ctx)

/-- `WithTraceID` -/
def withTraceID (id : Bytes) : Ctx :=
  { ctx with traceID := some id }

/-- `WithTraceParent` -/
def withTraceParent (tp : Bytes) : Ctx :=
  { ctx with traceParent := some tp }

/-- `WithTraceState` -/
def withTraceState (ts : Bytes) : Ctx :=
  { ctx with traceState := some ts }

/-- `IDFromContext` -/
def idFromContext : Option Bytes :=
  ctx.traceID.filter (· ≠ [])

/-- `ParentFromContext` -/
def parentFromContext : Option Bytes :=
  ctx.traceParent.filter (· ≠ [])

/-- `StateFromContext` -/
def stateFromContext : Option Bytes :=
  ctx.traceState.filter (· ≠ [])

/-- The trace ID of a context, or a new one. -/
def ensureTraceID (uuid : Bytes) : Bytes :=
  ctx.idFromContext.getD uuid

end Ctx

/-! ### Ingress -/

/-- The id that a carrier has, and whether it has a valid one. -/
def extractRequestID (ctx : Ctx) (h : Carrier) : Ctx × Bool :=
  match h headerXRequestID with
  | none => (ctx, false)
  | some v =>
    let traceID := validateRequestID (safeToString v)
    if traceID ≠ [] then (ctx.withTraceID traceID, true) else (ctx, false)

/-- The parent that a carrier has. Its trace is the id, unless the carrier had one. -/
def extractTraceParent (ctx : Ctx) (h : Carrier) (carriedID : Bool) : Ctx × Bool :=
  match h headerTraceParent with
  | none => (ctx, false)
  | some v =>
    let tp := validateTraceParent (safeToString v)
    if tp = [] then (ctx, false)
    else
      let ctx := ctx.withTraceParent tp
      (if carriedID then ctx else ctx.withTraceID (splitTraceParent tp).traceID, true)

/-- The state of a carrier counts only with the carrier's parent. -/
def extractTraceState (ctx : Ctx) (h : Carrier) (carriedParent : Bool) : Ctx :=
  if !carriedParent then ctx
  else
    match h headerTraceState with
    | none => ctx.withTraceState []
    | some v =>
      let ts := validateTraceState (safeToString v)
      if ts ≠ [] then ctx.withTraceState ts else ctx.withTraceState []

/-- `ExtractFromHeaders` -/
def extractFromHeaders (ctx : Ctx) (h : Carrier) : Ctx :=
  let id := extractRequestID ctx h
  let parent := extractTraceParent id.1 h id.2
  extractTraceState parent.1 h parent.2

/-! ### Egress -/

/-- The parent to send, and where it is from. -/
structure OutboundParent where
  value : Bytes
  traceID : Bytes
  fromHeader : Bool := false
  rejected : Bool := false

/-- The trace of a valid parent. -/
def extractTraceIDFromParent (tp : Bytes) : Bytes :=
  if validateTraceParent tp = [] then [] else (splitTraceParent tp).traceID

/-- The id follows the parent. -/
def alignTraceID (traceID parentTraceID : Bytes) : Bytes :=
  if parentTraceID = [] then traceID else parentTraceID

/-- What a hop generates when it has to. -/
structure Fresh where
  uuid : Bytes
  random : Random

/-- A valid parent of the carrier, or the context's, or a new one. -/
def computeTraceParent (ctx : Ctx) (h : Carrier) (fresh : Fresh) : OutboundParent :=
  let preset := headerString h headerTraceParent
  let v := validateTraceParent preset.1
  if v ≠ [] then { value := v, traceID := (splitTraceParent v).traceID, fromHeader := true }
  else match ctx.parentFromContext with
  | some tp => { value := tp, traceID := extractTraceIDFromParent tp, rejected := preset.2 }
  | none =>
    let generated := generateTraceParent fresh.random
    { value := generated, traceID := (splitTraceParent generated).traceID, rejected := preset.2 }

/-- The state is sent only with the parent that it belongs to. -/
def injectTraceState (ctx : Ctx) (h : Carrier) (parent : OutboundParent) : Carrier :=
  let preset := headerString h headerTraceState
  if parent.fromHeader then
    if preset.2 then h.set headerTraceState (validateTraceState preset.1) else h
  else match ctx.stateFromContext with
  | some ts => h.set headerTraceState ts
  | none => if preset.2 then h.set headerTraceState [] else h

/-- `InjectIntoHeaders` -/
def injectIntoHeaders (ctx : Ctx) (h : Carrier) (fresh : Fresh) : Carrier :=
  let parent := computeTraceParent ctx h fresh
  let h := h.set headerXRequestID (alignTraceID (ctx.ensureTraceID fresh.uuid) parent.traceID)
  let h := h.set headerTraceParent parent.value
  injectTraceState ctx h parent

/-! ### Runs -/

/-- A carrier that was written into. -/
structure Emission where
  before : Carrier
  /-- The carriers that the context was extracted from, the last one first. -/
  sources : List Carrier
  after : Carrier

/-- The context, the carriers it was extracted from, and all that was emitted. -/
structure State where
  ctx : Ctx := {}
  sources : List Carrier := []
  emitted : List Emission := []

/-- What is done with a context. -/
inductive Label
  /-- A context without trace values. -/
  | background
  | extract (h : Carrier)
  /-- Extracts from a carrier that was emitted before. -/
  | receive (i : ℕ)
  | inject (h : Carrier) (fresh : Fresh)

namespace State

variable (s : State)

/-- A carrier is extracted into the context. -/
def extract (h : Carrier) : State :=
  { s with ctx := extractFromHeaders s.ctx h, sources := h :: s.sources }

/-- A step of the propagation. -/
def step : Label → Option State
  | .background => some { s with ctx := {}, sources := [] }
  | .extract h => some (s.extract h)
  | .receive i => s.emitted[i]?.map fun e ↦ s.extract e.after
  | .inject h fresh =>
    some { s with emitted := s.emitted ++ [⟨h, s.sources, injectIntoHeaders s.ctx h fresh⟩] }

end State

/-- The propagation, from an empty context on. -/
def system : StepSystem State Label where
  init s := s = {}
  step := State.step

/-! ### Who supplies what -/

namespace Carrier

/-- The `traceparent` that a carrier supplies: a valid one. -/
def parent? (h : Carrier) : Option Bytes :=
  some (validateTraceParent (headerString h headerTraceParent).1) |>.filter (· ≠ [])

/-- The `tracestate` that a carrier supplies. -/
def state? (h : Carrier) : Option Bytes :=
  some (validateTraceState (headerString h headerTraceState).1) |>.filter (· ≠ [])

end Carrier

/-- The first of some carriers that supplies a `traceparent`. -/
def supplier (hs : List Carrier) : Option Carrier :=
  hs.find? (·.parent?.isSome)

/-- The headers of an emitted carrier belong together: its `traceparent` is valid, its request ID is
the trace ID of it, and a `tracestate` is a valid one of the carrier that supplied the
`traceparent`, which is the carrier itself before, or else the last one that was extracted from and
supplied one. -/
def Paired (e : Emission) : Prop :=
  ∃ tp, e.after headerTraceParent = some (.string tp) ∧ tp ≠ [] ∧ validateTraceParent tp = tp ∧
    e.after headerXRequestID = some (.string (splitTraceParent tp).traceID) ∧
    ∀ v, e.after headerTraceState = some v → safeToString v ≠ [] →
      validateTraceState (safeToString v) = safeToString v ∧
        ∃ h, supplier (e.before :: e.sources) = some h ∧ h.parent? = some tp ∧
          h.state? = some (safeToString v)

/-- The parent that a carrier has is valid. -/
theorem Carrier.parent?_eq_some {h : Carrier} {tp : Bytes} (hp : h.parent? = some tp) :
    tp ≠ [] ∧ validateTraceParent (headerString h headerTraceParent).1 = tp ∧
      validateTraceParent tp = tp := by
  obtain ⟨htp, hne⟩ := filter_eq_some_iff.mp hp
  cases htp
  have hne := of_decide_eq_true hne
  have hsame := ((validateTraceParent_cases _).resolve_left hne).1
  exact ⟨hne, rfl, by rw [hsame, hsame]⟩

theorem Carrier.parent?_eq_none {h : Carrier} (hp : h.parent? = none) :
    validateTraceParent (headerString h headerTraceParent).1 = [] := by
  rw [parent?, filter_eq_none_iff] at hp
  simpa using hp _ rfl

theorem Carrier.state?_eq {h : Carrier} :
    h.state? = if validateTraceState (headerString h headerTraceState).1 = [] then none
      else some (validateTraceState (headerString h headerTraceState).1) := by
  rw [state?, filter_some]
  split
  · next hne => rw [if_neg (of_decide_eq_true hne)]
  · next hne => rw [if_pos (by simpa using hne)]

/-! ### Extraction -/

variable {ctx : Ctx} {h : Carrier}

/-- The request ID changes neither of the other two values. -/
theorem extractRequestID_eq (ctx : Ctx) (h : Carrier) :
    (extractRequestID ctx h).1.traceParent = ctx.traceParent ∧
      (extractRequestID ctx h).1.traceState = ctx.traceState := by
  rw [extractRequestID]
  split
  · exact ⟨rfl, rfl⟩
  · dsimp only
    split
    · exact ⟨rfl, rfl⟩
    · exact ⟨rfl, rfl⟩

/-- Without a valid parent the context stays. -/
theorem extractTraceParent_none (hp : h.parent? = none) (ctx : Ctx) (carriedID : Bool) :
    extractTraceParent ctx h carriedID = (ctx, false) := by
  have hnil := Carrier.parent?_eq_none hp
  rw [headerString] at hnil
  rw [extractTraceParent]
  split
  · rfl
  · next v hv =>
    rw [hv] at hnil
    rw [hnil]
    rfl

/-- A valid parent is taken. -/
theorem extractTraceParent_some {tp : Bytes} (hp : h.parent? = some tp) (ctx : Ctx)
    (carriedID : Bool) :
    extractTraceParent ctx h carriedID =
      (if carriedID then ctx.withTraceParent tp
        else (ctx.withTraceParent tp).withTraceID (splitTraceParent tp).traceID, true) := by
  obtain ⟨hne, htp, -⟩ := Carrier.parent?_eq_some hp
  rw [headerString] at htp
  rw [extractTraceParent]
  split
  · next hv =>
    rw [hv] at htp
    exact absurd htp.symm hne
  · next v hv =>
    rw [hv] at htp
    rw [htp, if_neg hne]

/-- With the parent the state is replaced. -/
theorem extractTraceState_true (ctx : Ctx) (h : Carrier) :
    (extractTraceState ctx h true).traceParent = ctx.traceParent ∧
      (extractTraceState ctx h true).stateFromContext = h.state? := by
  rw [extractTraceState, Carrier.state?_eq, headerString, if_neg (by decide)]
  split
  · exact ⟨rfl, rfl⟩
  · dsimp only
    split
    · next hne => exact ⟨rfl, filter_some_pos (by simpa using hne)⟩
    · next hnil =>
      rw [if_pos (not_not.mp hnil)]
      exact ⟨rfl, rfl⟩

/-- With a `traceparent`, that and the `tracestate` of the same carrier are what the context holds.
-/
theorem extractFromHeaders_some {tp : Bytes} (hp : h.parent? = some tp) (ctx : Ctx) :
    (extractFromHeaders ctx h).parentFromContext = some tp ∧
      (extractFromHeaders ctx h).stateFromContext = h.state? := by
  have hextract := extractTraceParent_some hp (extractRequestID ctx h).1 (extractRequestID ctx h).2
  obtain ⟨hsame, hts⟩ := extractTraceState_true
    (extractTraceParent (extractRequestID ctx h).1 h (extractRequestID ctx h).2).1 h
  rw [show true = (extractTraceParent _ h _).2 from (congrArg Prod.snd hextract).symm] at hsame hts
  refine ⟨?_, hts⟩
  have hctx : (extractFromHeaders ctx h).traceParent = some tp := by
    refine hsame.trans ?_
    rw [hextract]
    cases (extractRequestID ctx h).2 <;> rfl
  rw [Ctx.parentFromContext, hctx]
  exact filter_some_pos (by simpa using (Carrier.parent?_eq_some hp).1)

/-- A context holds the `traceparent` of the carrier that last supplied one, and that carrier's
`tracestate`. -/
def Held (ctx : Ctx) (sources : List Carrier) : Prop :=
  ctx.parentFromContext = (supplier sources).bind Carrier.parent? ∧
    ctx.stateFromContext = (supplier sources).bind Carrier.state?

/-- An extraction keeps parent and state from one carrier. -/
theorem Held.extract {sources : List Carrier} (hheld : Held ctx sources) (h : Carrier) :
    Held (extractFromHeaders ctx h) (h :: sources) := by
  obtain ⟨hparent, hstate⟩ := extractRequestID_eq ctx h
  cases hp : h.parent? with
  | none =>
    have hsupplier : supplier (h :: sources) = supplier sources :=
      List.find?_cons_of_neg (by rw [hp]; decide)
    have hextract : extractFromHeaders ctx h = (extractRequestID ctx h).1 := by
      rw [extractFromHeaders, extractTraceParent_none hp]
      rfl
    rw [hextract, Held, hsupplier, Ctx.parentFromContext, Ctx.stateFromContext, hparent, hstate]
    exact hheld
  | some tp =>
    have hsupplier : supplier (h :: sources) = some h :=
      List.find?_cons_of_pos (by rw [hp]; rfl)
    rw [Held, hsupplier, bind_some, bind_some, hp]
    exact extractFromHeaders_some hp ctx

/-! ### Injection -/

/-- The three headers of an emitted carrier. -/
theorem injectIntoHeaders_apply (ctx : Ctx) (h : Carrier) (fresh : Fresh) :
    let parent := computeTraceParent ctx h fresh
    injectIntoHeaders ctx h fresh headerTraceParent = some (.string parent.value) ∧
    injectIntoHeaders ctx h fresh headerXRequestID =
      some (.string (alignTraceID (ctx.ensureTraceID fresh.uuid) parent.traceID)) ∧
    ∀ v, injectIntoHeaders ctx h fresh headerTraceState = some v → safeToString v ≠ [] →
      if parent.fromHeader then h.state? = some (safeToString v)
      else ctx.stateFromContext = some (safeToString v) := by
  intro parent
  have hne : headerTraceParent ≠ headerTraceState := by decide
  have hne' : headerXRequestID ≠ headerTraceState := by decide
  have hne'' : headerXRequestID ≠ headerTraceParent := by decide
  -- The headers that are written before the `tracestate`.
  obtain ⟨h', hh'⟩ : ∃ h', h' = (h.set headerXRequestID (alignTraceID
      (ctx.ensureTraceID fresh.uuid) parent.traceID)).set headerTraceParent parent.value := ⟨_, rfl⟩
  have hinject : injectIntoHeaders ctx h fresh = injectTraceState ctx h' parent := by
    rw [hh']
    rfl
  have hother : ∀ key, key ≠ headerTraceState → injectTraceState ctx h' parent key = h' key := by
    intro key hkey
    rw [injectTraceState]
    cases ctx.stateFromContext with
    | some ts =>
      dsimp only
      split
      · split
        · rw [Carrier.set_of_ne hkey]
        · rfl
      · rw [Carrier.set_of_ne hkey]
    | none =>
      dsimp only
      split
      · split
        · rw [Carrier.set_of_ne hkey]
        · rfl
      · split
        · rw [Carrier.set_of_ne hkey]
        · rfl
  have hstate : h' headerTraceState = h headerTraceState := by
    rw [hh', Carrier.set_of_ne hne.symm, Carrier.set_of_ne hne'.symm]
  have hstring : headerString h' headerTraceState = headerString h headerTraceState := by
    rw [headerString, headerString, hstate]
  have hcarried : ∀ v, h' headerTraceState = some v → (headerString h headerTraceState).2 := by
    intro v hv
    rw [headerString, ← hstate, hv]
  refine ⟨?_, ?_, fun v hv hv0 ↦ ?_⟩
  · rw [hinject, hother _ hne, hh', Carrier.set_self]
  · rw [hinject, hother _ hne', hh', Carrier.set_of_ne hne'', Carrier.set_self]
  · rw [hinject, injectTraceState, hstring] at hv
    by_cases hfrom : parent.fromHeader
    · rw [if_pos hfrom] at hv ⊢
      split at hv
      · rw [Carrier.set_self, some_inj] at hv
        subst hv
        rw [Carrier.state?_eq]
        exact if_neg hv0
      · next hnot => exact absurd (hcarried v hv) hnot
    · rw [if_neg hfrom] at hv ⊢
      cases hctx : ctx.stateFromContext with
      | some ts =>
        rw [hctx] at hv
        dsimp only at hv
        rw [Carrier.set_self, some_inj] at hv
        subst hv
        rfl
      | none =>
        rw [hctx] at hv
        dsimp only at hv
        split at hv
        · rw [Carrier.set_self, some_inj] at hv
          subst hv
          exact absurd rfl hv0
        · next hnot => exact absurd (hcarried v hv) hnot

theorem Held.paired {sources : List Carrier} (hheld : Held ctx sources) (h : Carrier)
    (fresh : Fresh) : Paired ⟨h, sources, injectIntoHeaders ctx h fresh⟩ := by
  obtain ⟨hparent, hid, hstate⟩ := injectIntoHeaders_apply ctx h fresh
  -- A valid `traceparent` decides the request ID.
  have halign : ∀ {tp id : Bytes}, tp ≠ [] → validateTraceParent tp = tp →
      alignTraceID id (splitTraceParent tp).traceID = (splitTraceParent tp).traceID :=
    fun hne htp ↦ if_neg (traceID_ne_nil (htp.symm ▸ hne))
  have hvalid : ∀ {c : Carrier} {ts : Bytes}, c.state? = some ts → validateTraceState ts = ts := by
    intro c ts hts
    rw [Carrier.state?_eq] at hts
    rw [ite_none_left_eq_some] at hts
    obtain ⟨hne, hts⟩ := hts
    have hsame := (validateTraceState_cases _).resolve_left hne
    rw [← Option.some.inj hts, hsame, hsame]
  cases hp : h.parent? with
  | some tp =>
    obtain ⟨hne, htp, hsame⟩ := Carrier.parent?_eq_some hp
    have hcompute : computeTraceParent ctx h fresh =
        { value := tp, traceID := (splitTraceParent tp).traceID, fromHeader := true } := by
      rw [computeTraceParent]
      rw [htp, if_pos hne]
    rw [hcompute] at hparent hid hstate
    rw [halign hne hsame] at hid
    refine ⟨tp, hparent, hne, hsame, hid, fun v hv hv0 ↦ ?_⟩
    have hts : h.state? = some (safeToString v) := hstate v hv hv0
    exact ⟨hvalid hts, h, List.find?_cons_of_pos (by rw [hp]; rfl), hp, hts⟩
  | none =>
    have hnil := Carrier.parent?_eq_none hp
    have hsupplier : supplier (h :: sources) = supplier sources :=
      List.find?_cons_of_neg (by rw [hp]; decide)
    cases hctx : ctx.parentFromContext with
    | some tp =>
      -- The context's `traceparent` is that of the last carrier which supplied one.
      obtain ⟨c, hc, hcp⟩ := bind_eq_some_iff.mp (hheld.1.symm.trans hctx)
      obtain ⟨hne, -, hsame⟩ := Carrier.parent?_eq_some hcp
      have hcompute : (computeTraceParent ctx h fresh).value = tp ∧
          (computeTraceParent ctx h fresh).traceID = (splitTraceParent tp).traceID ∧
          (computeTraceParent ctx h fresh).fromHeader = false := by
        rw [computeTraceParent]
        rw [hnil, if_neg (not_not.mpr rfl), hctx]
        refine ⟨rfl, ?_, rfl⟩
        dsimp only
        rw [extractTraceIDFromParent, hsame, if_neg hne]
      obtain ⟨hvalue, htraceID, hfrom⟩ := hcompute
      rw [hvalue] at hparent
      rw [htraceID, halign hne hsame] at hid
      rw [hfrom] at hstate
      refine ⟨tp, hparent, hne, hsame, hid, fun v hv hv0 ↦ ?_⟩
      have hts : ctx.stateFromContext = some (safeToString v) := hstate v hv hv0
      rw [hheld.2, hc, bind_some] at hts
      exact ⟨hvalid hts, c, hsupplier.trans hc, hcp, hts⟩
    | none =>
      have hcompute : (computeTraceParent ctx h fresh).value = generateTraceParent fresh.random ∧
          (computeTraceParent ctx h fresh).traceID =
            (splitTraceParent (generateTraceParent fresh.random)).traceID ∧
          (computeTraceParent ctx h fresh).fromHeader = false := by
        rw [computeTraceParent]
        rw [hnil, if_neg (not_not.mpr rfl), hctx]
        exact ⟨rfl, rfl, rfl⟩
      obtain ⟨hvalue, htraceID, hfrom⟩ := hcompute
      have hsame := validateTraceParent_generate fresh.random
      have hne : generateTraceParent fresh.random ≠ [] := cons_ne_nil _ _
      rw [hvalue] at hparent
      rw [htraceID, halign hne hsame] at hid
      rw [hfrom] at hstate
      refine ⟨_, hparent, hne, hsame, hid, fun v hv hv0 ↦ ?_⟩
      -- Without a `traceparent` the context has no `tracestate` either.
      have hts : ctx.stateFromContext = some (safeToString v) := hstate v hv hv0
      rw [hheld.2] at hts
      obtain ⟨c, hc, -⟩ := bind_eq_some_iff.mp hts
      have hcp := hheld.1.symm.trans hctx
      rw [hc, bind_some] at hcp
      have hsome := List.find?_some hc
      rw [hcp] at hsome
      cases hsome

/-! ### Runs -/

/-- In every run, from contexts without trace values, over any carriers, the headers of each emitted
carrier belong together. -/
theorem emitted_paired {s : State} (hs : system.Reachable s) : ∀ e ∈ s.emitted, Paired e := by
  refine (hs.invariant (P := fun s ↦ Held s.ctx s.sources ∧ ∀ e ∈ s.emitted, Paired e) ?_ ?_).2
  · rintro s rfl
    exact ⟨⟨rfl, rfl⟩, nofun⟩
  · intro s l t _ _ hinv hstep
    obtain ⟨hheld, hpaired⟩ := hinv
    cases l with
    | background =>
      cases hstep
      exact ⟨⟨rfl, rfl⟩, hpaired⟩
    | extract h =>
      cases hstep
      exact ⟨hheld.extract h, hpaired⟩
    | receive i =>
      obtain ⟨e, -, rfl⟩ := map_eq_some_iff.mp hstep
      exact ⟨hheld.extract e.after, hpaired⟩
    | inject h fresh =>
      cases hstep
      refine ⟨hheld, fun e he ↦ ?_⟩
      rcases mem_append.mp he with he | he
      · exact hpaired e he
      · rw [mem_singleton.mp he]
        exact hheld.paired h fresh

/-- Two hops: the first forwards what a carrier brought, the second gets it with an outdated
`tracestate` of its own in the way. -/
def twoHops : List Label :=
  [.extract fun key ↦ if key = headerTraceParent then
      some (.bytes (ascii "00-0af7651916cd43dd8448eb211c80319c-b7ad6b7169203331-01"))
    else if key = headerTraceState then some (.string (ascii "vendor=1")) else none,
    .inject (fun _ ↦ none) ⟨[], ⟨none, none⟩⟩, .background, .receive 0,
    .inject (fun key ↦ if key = headerTraceState then some (.string (ascii "stale=1")) else none)
      ⟨[], ⟨none, none⟩⟩]

theorem emitted_paired_twoHops : ∃ s e, system.run {} twoHops = some s ∧ s.emitted[1]? = some e ∧
    e.after headerTraceState = some (.string (ascii "vendor=1")) ∧ Paired e := by
  obtain ⟨s, hs⟩ : ∃ s, system.run {} twoHops = some s := ⟨_, rfl⟩
  have hstate : (system.run {} twoHops).bind (fun s ↦ s.emitted[1]?.bind fun e ↦
      e.after headerTraceState) = some (.string (ascii "vendor=1")) := by decide +kernel
  rw [hs, bind_some] at hstate
  obtain ⟨e, he, hstate⟩ := bind_eq_some_iff.mp hstate
  refine ⟨s, e, hs, he, hstate, ?_⟩
  exact emitted_paired (StepSystem.reach_of_run (.init rfl) hs) e (mem_of_getElem? he)

end Trace
