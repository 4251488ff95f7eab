import GoBricks.Trace.Pairing

/-!
# One trace after an extraction

`ExtractFromHeaders` is to leave the values of one trace in a context: all of them from the carrier,
or all of them as they were. Three steps take one value each, and each asks what the carrier has
supplied and not what the context holds.

With a `traceparent` the carrier's values replace all three (`seen_of_parent`). Without one the
request ID is still taken, beside the `traceparent` and the `tracestate` of the context
(`seen_of_requestID`); that is the only way to a mixture (`oneTrace_iff`).
-/

open Text

namespace Trace

/-- The trace values that can be seen. -/
structure Seen where
  id : Option Bytes := none
  parent : Option Bytes := none
  state : Option Bytes := none
  deriving DecidableEq

/-- What the readers of a context return. -/
def Ctx.seen (ctx : Ctx) : Seen :=
  ⟨ctx.idFromContext, ctx.parentFromContext, ctx.stateFromContext⟩

namespace Carrier

/-- The request ID that a carrier supplies: a valid one. -/
def requestID? (h : Carrier) : Option Bytes :=
  some (validateRequestID (headerString h headerXRequestID).1) |>.filter (· ≠ [])

/-- The trace ID that a carrier supplies, the one of its `traceparent` where it has no request
ID. -/
def id? (h : Carrier) : Option Bytes :=
  h.requestID? <|> h.parent?.map fun tp ↦ (splitTraceParent tp).traceID

/-- What a carrier supplies. A `tracestate` belongs to a `traceparent`. -/
def supplied (h : Carrier) : Seen :=
  ⟨h.id?, h.parent?, h.parent?.bind fun _ ↦ h.state?⟩

end Carrier

/-- `ExtractFromHeaders`, where there may be no headers at all. -/
def extractFromAccessor (ctx : Ctx) : Option Carrier → Ctx
  | none => ctx
  | some h => extractFromHeaders ctx h

/-- All the values are the carrier's, or all of them are the context's own. -/
def OneTrace (ctx : Ctx) (headers : Option Carrier) (seen : Seen) : Prop :=
  seen = (headers.map Carrier.supplied).getD {} ∨ seen = ctx.seen

variable {ctx : Ctx} {h : Carrier}

/-! ### The steps -/

theorem Carrier.requestID?_eq_some {id : Bytes} (hid : h.requestID? = some id) :
    id ≠ [] ∧ validateRequestID (headerString h headerXRequestID).1 = id := by
  obtain ⟨hid, hne⟩ := Option.filter_eq_some_iff.mp hid
  exact ⟨of_decide_eq_true hne, Option.some.inj hid⟩

theorem extractRequestID_none (hid : h.requestID? = none) (ctx : Ctx) :
    extractRequestID ctx h = (ctx, false) := by
  rw [Carrier.requestID?, Option.filter_eq_none_iff] at hid
  have hnil : validateRequestID (headerString h headerXRequestID).1 = [] := by simpa using hid _ rfl
  rw [headerString] at hnil
  rw [extractRequestID]
  split
  · rfl
  · next v hv =>
    rw [hv] at hnil
    exact if_neg (not_not.mpr hnil)

/-- A valid id is taken. -/
theorem extractRequestID_some {id : Bytes} (hid : h.requestID? = some id) (ctx : Ctx) :
    extractRequestID ctx h = (ctx.withTraceID id, true) := by
  obtain ⟨hne, hid⟩ := Carrier.requestID?_eq_some hid
  rw [headerString] at hid
  rw [extractRequestID]
  split
  · next hv =>
    rw [hv] at hid
    exact absurd hid.symm hne
  · next v hv =>
    rw [hv] at hid
    rw [hid, if_pos hne]

theorem extractTraceState_id (ctx : Ctx) (h : Carrier) (carriedParent : Bool) :
    (extractTraceState ctx h carriedParent).traceID = ctx.traceID := by
  rw [extractTraceState]
  split
  · rfl
  · split
    · rfl
    · dsimp only
      split <;> rfl

/-! ### What is seen -/

/-- With a `traceparent`, what the carrier supplies is all that is seen. -/
theorem seen_of_parent {tp : Bytes} (hp : h.parent? = some tp) (ctx : Ctx) :
    (extractFromHeaders ctx h).seen = h.supplied := by
  obtain ⟨hparent, hstate⟩ := extractFromHeaders_some hp ctx
  have hid : (extractFromHeaders ctx h).idFromContext = h.id? := by
    have htraceID : (extractFromHeaders ctx h).traceID = if (extractRequestID ctx h).2
        then (extractRequestID ctx h).1.traceID else some (splitTraceParent tp).traceID :=
      (extractTraceState_id ..).trans (by
        rw [extractTraceParent_some hp]
        cases (extractRequestID ctx h).2 <;> rfl)
    rw [Ctx.idFromContext, htraceID, Carrier.id?, hp]
    cases hid : h.requestID? with
    | none =>
      rw [extractRequestID_none hid]
      obtain ⟨hne, -, htp⟩ := Carrier.parent?_eq_some hp
      exact Option.filter_some_pos (decide_eq_true (traceID_ne_nil (htp.symm ▸ hne)))
    | some id =>
      rw [extractRequestID_some hid]
      exact Option.filter_some_pos (decide_eq_true (Carrier.requestID?_eq_some hid).1)
  rw [Ctx.seen, Carrier.supplied, hid, hparent, hstate, hp]
  rfl

/-- Without one, a request ID is taken alone. -/
theorem seen_of_requestID (hp : h.parent? = none) {id : Bytes} (hid : h.requestID? = some id)
    (ctx : Ctx) : (extractFromHeaders ctx h).seen = { ctx.seen with id := some id } := by
  have hextract : extractFromHeaders ctx h = ctx.withTraceID id := by
    rw [extractFromHeaders, extractRequestID_some hid, extractTraceParent_none hp]
    rfl
  have hvisible : (ctx.withTraceID id).idFromContext = some id :=
    Option.filter_some_pos (decide_eq_true (Carrier.requestID?_eq_some hid).1)
  rw [hextract, Ctx.seen, hvisible]
  rfl

/-- A carrier without anything valid changes nothing. -/
theorem extractFromHeaders_none (hp : h.parent? = none) (hid : h.requestID? = none) (ctx : Ctx) :
    extractFromHeaders ctx h = ctx := by
  rw [extractFromHeaders, extractRequestID_none hid, extractTraceParent_none hp]
  rfl

/-- Without a `traceparent` there is nothing but the request ID that a carrier supplies. -/
theorem Carrier.supplied_of_none (hp : h.parent? = none) :
    h.supplied = ⟨h.requestID?, none, none⟩ := by
  rw [supplied, id?, hp]
  cases h.requestID? <;> rfl

/-- The values that are seen after an extraction are those of one trace if and only if the carrier
supplies a `traceparent` or no request ID, or there is nothing in the context for its request ID to
be mixed with, or the request ID is already the context's. -/
theorem oneTrace_iff (ctx : Ctx) (headers : Option Carrier) :
    OneTrace ctx headers (extractFromAccessor ctx headers).seen ↔
      ∀ h ∈ headers, h.parent?.isSome ∨ h.requestID? = none ∨
        (ctx.parentFromContext = none ∧ ctx.stateFromContext = none) ∨
          ctx.idFromContext = h.requestID? := by
  cases headers with
  | none =>
    exact ⟨fun _ _ hh ↦ (Option.not_mem_none _ hh).elim, fun _ ↦ .inr rfl⟩
  | some h =>
    have hmem {P : Carrier → Prop} : (∀ h' ∈ some h, P h') ↔ P h := by simp
    rw [hmem]
    show (extractFromHeaders ctx h).seen = h.supplied ∨
      (extractFromHeaders ctx h).seen = ctx.seen ↔ _
    cases hp : h.parent? with
    | some tp => exact ⟨fun _ ↦ .inl rfl, fun _ ↦ .inl (seen_of_parent hp ctx)⟩
    | none =>
      cases hid : h.requestID? with
      | none =>
        exact ⟨fun _ ↦ .inr (.inl rfl),
          fun _ ↦ .inr (congrArg Ctx.seen (extractFromHeaders_none hp hid ctx))⟩
      | some id =>
        rw [seen_of_requestID hp hid, Carrier.supplied_of_none hp, hid]
        simp [Ctx.seen, eq_comm]

/-- The caller's trace, and a carrier with nothing but a request ID of its own: the request ID is
seen beside the caller's `traceparent` and `tracestate`. -/
theorem mixed_of_requestID_alone :
    let parent := ascii "00-aaaaaaaaaaaaaaaaaaaaaaaaaaaaaaaa-1111111111111111-01"
    let ctx : Ctx :=
      ⟨some (splitTraceParent parent).traceID, some parent, some (ascii "vendorA=alpha")⟩
    let headers : Option Carrier :=
      some fun key ↦ if key = headerXRequestID then some (.string (ascii "req-b")) else none
    (extractFromAccessor ctx headers).seen =
        ⟨some (ascii "req-b"), some parent, some (ascii "vendorA=alpha")⟩ ∧
      ¬OneTrace ctx headers (extractFromAccessor ctx headers).seen := by
  unfold OneTrace
  decide +kernel

/-! ### Relays -/

/-- A hop: the context that it has, the headers that are set before it injects, and what it
generates when it has to. -/
structure Hop where
  ctx : Ctx
  headers : Carrier
  fresh : Fresh

/-- Takes the trace from a carrier and passes it on in another one. -/
def Hop.relay (c : Carrier) (hop : Hop) : Carrier :=
  injectIntoHeaders (extractFromHeaders hop.ctx c) hop.headers hop.fresh

/-- The trace ID of a `traceparent` is let in as a request ID. -/
theorem validateRequestID_traceID {tp : Bytes} (h : validateTraceParent tp ≠ []) :
    validateRequestID (splitTraceParent tp).traceID = (splitTraceParent tp).traceID := by
  have hpattern := ((validateTraceParent_cases tp).resolve_left h).2
  simp only [traceParentPattern, Bool.and_eq_true] at hpattern
  have hfield : isHexField 32 (splitTraceParent tp).traceID := hpattern.1.1.1.1.1.2
  rw [isHexField, Bool.and_eq_true, decide_eq_true_iff, List.all_eq_true] at hfield
  have hbyte : ∀ b, isLowerHex b → isRequestIDByte b := by
    simp only [isLowerHex, isRequestIDByte, Bool.or_eq_true, Bool.and_eq_true, decide_eq_true_eq,
      UInt8.le_iff_toNat_le, UInt8.reduceToNat]
    omega
  refine if_pos ?_
  rw [requestIDPattern, hfield.1, List.all_eq_true.mpr fun b hb ↦ hbyte b (hfield.2 b hb)]
  rfl

theorem Carrier.state?_set (h : Carrier) (ts : Bytes) :
    (h.set headerTraceState (validateTraceState ts)).state? =
      (some (validateTraceState ts)).filter (· ≠ []) := by
  have hidem : validateTraceState (validateTraceState ts) = validateTraceState ts := by
    rcases validateTraceState_cases ts with hts | hts
    · rw [hts]
      rfl
    · rw [hts, hts]
  rw [state?, headerString, set_self]
  simp only [safeToString, hidem]

/-- The `tracestate` of an emitted carrier comes from where its `traceparent` does. -/
theorem state?_injectTraceState {c : Carrier} (hctx : ctx.stateFromContext = c.state?) (h : Carrier)
    (parent : OutboundParent) :
    (injectTraceState ctx h parent).state? = if parent.fromHeader then h.state? else c.state? := by
  have habsent : (headerString h headerTraceState).2 = false → h.state? = none := by
    rw [Carrier.state?, headerString]
    cases h headerTraceState with
    | none => exact fun _ ↦ rfl
    | some v =>
      intro h
      cases h
  rw [injectTraceState, hctx]
  cases parent.fromHeader with
  | true =>
    cases (headerString h headerTraceState).2 with
    | true => exact Carrier.state?_set h _
    | false => rfl
  | false =>
    cases hc : c.state? with
    | some ts =>
      rw [Carrier.state?_eq, Option.ite_none_left_eq_some] at hc
      obtain ⟨hne, hts⟩ := hc
      cases hts
      exact (Carrier.state?_set h _).trans (Option.filter_some_pos (decide_eq_true hne))
    | none =>
      cases hpreset : (headerString h headerTraceState).2 with
      | true => exact Carrier.state?_set h []
      | false => exact habsent hpreset

/-- The carrier passes on the trace of another one. -/
structure Relays (c h : Carrier) : Prop where
  parent : c.parent? = h.parent?
  state : c.state? = h.state?
  id : c.requestID? = h.parent?.map fun tp ↦ (splitTraceParent tp).traceID

/-- What a hop passes on is the trace of the carrier it injects into, if that supplies one, or else
of the carrier it extracted from. -/
theorem relays_relay {c : Carrier} (hc : c.parent?.isSome) (hop : Hop) :
    Relays (hop.relay c) (if hop.headers.parent?.isSome then hop.headers else c) := by
  obtain ⟨ctx, own, fresh⟩ := hop
  obtain ⟨tp, hc⟩ := Option.isSome_iff_exists.mp hc
  obtain ⟨hctx, hstate⟩ := extractFromHeaders_some hc ctx
  obtain ⟨src, hsrc⟩ : ∃ src, src = if own.parent?.isSome then own else c := ⟨_, rfl⟩
  obtain ⟨tp', htp', hcompute⟩ : ∃ tp', src.parent? = some tp' ∧
      computeTraceParent (extractFromHeaders ctx c) own fresh =
        ⟨tp', (splitTraceParent tp').traceID, own.parent?.isSome,
          (headerString own headerTraceParent).2 && own.parent?.isNone⟩ := by
    cases hp : own.parent? with
    | some tp' =>
      obtain ⟨hne, hown, -⟩ := Carrier.parent?_eq_some hp
      exact ⟨tp', by simp [hsrc, hp], by simp [computeTraceParent, hown, hne]⟩
    | none =>
      obtain ⟨hne, -, htp⟩ := Carrier.parent?_eq_some hc
      have hnil := Carrier.parent?_eq_none hp
      exact ⟨tp, by simp [hsrc, hp, hc],
        by simp [computeTraceParent, hnil, hctx, extractTraceIDFromParent, htp, hne]⟩
  obtain ⟨hne, -, htp⟩ := Carrier.parent?_eq_some htp'
  have hid := traceID_ne_nil (htp.symm ▸ hne)
  obtain ⟨hparent, hrequest, -⟩ := injectIntoHeaders_apply (extractFromHeaders ctx c) own fresh
  rw [hcompute] at hparent hrequest
  rw [← hsrc]
  refine ⟨?_, ?_, ?_⟩
  · rw [htp', Hop.relay, Carrier.parent?, headerString, hparent]
    simp [safeToString, htp, hne]
  · rw [Hop.relay, injectIntoHeaders, hcompute, state?_injectTraceState hstate]
    have hown : ∀ id, ((own.set headerXRequestID id).set headerTraceParent tp').state? =
        own.state? := by
      intro id
      rw [Carrier.state?, headerString, Carrier.set_of_ne (by decide),
        Carrier.set_of_ne (by decide)]
      rfl
    rw [hown, hsrc, apply_ite Carrier.state?]
  · rw [htp', Hop.relay, Carrier.requestID?, headerString, hrequest]
    simp [safeToString, alignTraceID, hid, validateRequestID_traceID (htp.symm ▸ hne)]

/-- Over any number of hops a trace is passed on as it is: what the last carrier has is the
`traceparent` and the `tracestate` of the last carrier on the way that brought a trace of its own,
and the trace ID of that for its request ID. -/
theorem relay_keeps_trace {c : Carrier} (hc : c.parent?.isSome) (hops : List Hop) (hop : Hop) :
    ∃ h, supplier (hop.headers :: (hops.map Hop.headers).reverse ++ [c]) = some h ∧
      Relays (hop.relay (hops.foldl Hop.relay c)) h := by
  -- The last hop takes up what the hops before it have passed on.
  induction hops using List.reverseRecOn generalizing hop with
  | nil =>
    refine ⟨_, ?_, relays_relay hc hop⟩
    cases hp : hop.headers.parent? <;> simp [supplier, hp, hc]
  | append_singleton hops last ih =>
    obtain ⟨h, hh, hlast⟩ := ih last
    have hsome : h.parent?.isSome := by simpa using List.find?_some (id hh : List.find? _ _ = _)
    have hnext := relays_relay (hlast.parent ▸ hsome) hop
    rw [List.foldl_concat]
    cases hp : hop.headers.parent? with
    | some own =>
      rw [hp] at hnext
      exact ⟨hop.headers, by simp [supplier, hp], hnext⟩
    | none =>
      rw [hp] at hnext
      refine ⟨h, ?_, hnext.parent.trans hlast.parent, hnext.state.trans hlast.state, ?_⟩
      · rw [List.map_append, List.reverse_append, List.cons_append, supplier,
          List.find?_cons_of_neg (by simp [hp])]
        exact hh
      · rw [hnext.id, ← hlast.parent]
        rfl

theorem relay_keeps_trace_twice :
    let c : Carrier := fun key ↦ if key = headerTraceParent then
      some (.string (ascii "00-0af7651916cd43dd8448eb211c80319c-b7ad6b7169203331-01")) else none
    let hop : Hop := ⟨{}, fun _ ↦ none, ⟨[], none, none⟩⟩
    c.parent?.isSome ∧ ∃ h, supplier [hop.headers, hop.headers, c] = some h ∧
      Relays (hop.relay (hop.relay c)) h := by
  intro c hop
  have hc : c.parent?.isSome := by decide +kernel
  exact ⟨hc, relay_keeps_trace hc [hop] hop⟩

end Trace
