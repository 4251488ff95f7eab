import GoBricks.KeyStore.Generation
import GoBricks.Trace.Validate

/-!
# Keys of the inbox ledger

`dedup_key.go`: the key under which a delivery is recorded as processed. A plain consumer's key is
an id from the wire, of the ledger's grammar. A sealed consumer's key is the family of the key that
signed the envelope and the signed token id, with a colon between them, which neither grammar has.
A sealed key is admitted only in the context of its own delivery.

* `dedupKeys_disjoint`: no wire key is spelled like a sealed key; a sealed key tells its family and
  its token id; the generations of a family share their keys; and a sealed key is admitted only
  under a delivery that composed it.
-/

open Text KeyName

namespace Messaging

/-! ### Event ids -/

/-- The longest id. -/
def maxEventIDBytes : ℕ := 128

/-- What `ErrInvalidEventID` is wrapped with. -/
inductive EventIDError
  | absent
  | tooLong (length : ℕ)
  | badByte (length : ℕ)
  | zeroKey
  | outsideDelivery
  | otherDelivery
  deriving DecidableEq

/-- The texts of the refusals. -/
def EventIDError.text : EventIDError → String
  | .absent => "absent or empty"
  | .tooLong n => toString n ++ " bytes, limit is " ++ toString maxEventIDBytes
  | .badByte n => "a byte outside [A-Za-z0-9_-] (length " ++ toString n ++ ")"
  | .zeroKey => "zero DedupKey"
  | .outsideDelivery => "sealed dedup key outside a sealed delivery"
  | .otherDelivery => "sealed dedup key belongs to another delivery"

/-- `ValidateEventID`: the ledger's grammar. -/
def validateEventID (id : Bytes) : Except EventIDError Unit :=
  if id = [] then .error .absent
  else if maxEventIDBytes < id.length then .error (.tooLong id.length)
  else if Trace.validateRequestID id = [] then .error (.badByte id.length)
  else .ok ()

/-! ### Keys -/

/-- The spelling of a key, and which door it comes from. -/
structure DedupKey where
  key : Bytes
  isSealed : Bool
  deriving DecidableEq

/-- `WireDedupKey` -/
def wireDedupKey (id : Bytes) : Except EventIDError DedupKey := do
  validateEventID id
  return ⟨id, false⟩

/-- The family and the token id, with a colon between them. -/
def sealedDedupKey (family jti : Bytes) : DedupKey :=
  ⟨family ++ 0x3A :: jti, true⟩

/-- What the key of a sealed delivery is made of, and the kid the family comes from. -/
structure SealedEnvelope where
  jti : Bytes
  signKid : Bytes
  signFamily : Bytes

/-- The value of a header. -/
inductive HeaderValue
  | string (s : Bytes)
  | bytes (s : Bytes)
  | other

/-- The text of a header. -/
def headerString : HeaderValue → Bytes
  | .string s | .bytes s => s
  | .other => []

/-- The header of the outbox's stamp. -/
def headerEventID : String := "x-outbox-event-id"

/-- A delivery as a typed consumer sees it. -/
structure Metadata where
  messageID : Bytes
  headers : String → Option HeaderValue
  envelope : Option SealedEnvelope

/-- `DedupKey`: the stamp counts before the property, even if it is malformed. -/
def Metadata.dedupKey (m : Metadata) : Except EventIDError DedupKey :=
  match m.envelope with
  | some envelope => .ok (sealedDedupKey envelope.signFamily envelope.jti)
  | none => wireDedupKey (((m.headers headerEventID).map headerString).getD m.messageID)

/-! ### Envelopes -/

/-- The family and the number of a generation. The number has to fit an `int`. -/
def splitGenerationKid (kid : Bytes) : Option (Bytes × ℕ) :=
  match splitGeneration kid with
  | (family, version, .generation) =>
    if versionNumber version < 2 ^ 63 then some (family, versionNumber version) else none
  | _ => none

/-- `^[A-Za-z0-9_-]{1,128}$` -/
def headerIDPattern (id : Bytes) : Bool :=
  1 ≤ id.length && id.length ≤ 128 && id.all Trace.isRequestIDByte

/-- The family of a kid, where it is the one the consumer declares. -/
def peekFamily (signLogical kid : Bytes) : Option Bytes :=
  match splitGenerationKid kid with
  | some (family, _) => if family = signLogical then some family else none
  | none => none

/-- What the opener has checked of an envelope. -/
def SealedEnvelope.Opened (envelope : SealedEnvelope) : Prop :=
  (∃ signLogical, peekFamily signLogical envelope.signKid = some envelope.signFamily) ∧
    headerIDPattern envelope.jti

/-! ### Contexts -/

/-- The context of a handler. Only the sealed handler stores a key, and it is that of the delivery
it is handling. -/
inductive Context
  | background
  | withValue (parent : Context)
  | handling (parent : Context) (delivery : Metadata)

namespace Context

/-- The delivery whose handler the context comes from. -/
def delivery? : Context → Option Metadata
  | background => none
  | withValue parent => parent.delivery?
  | handling _ delivery => some delivery

/-- The key that the sealed handler stored. -/
def sealedKeyFromDelivery (ctx : Context) : Option DedupKey :=
  match ctx.delivery?.map Metadata.dedupKey with
  | some (.ok key) => if key.isSealed then some key else none
  | _ => none

end Context

/-- `ValidateDedupKey` -/
def validateDedupKey (ctx : Context) (key : DedupKey) : Except EventIDError Unit :=
  if key.key = [] then .error .zeroKey
  else if !key.isSealed then .ok ()
  else
    match ctx.sealedKeyFromDelivery with
    | none => .error .outsideDelivery
    | some bound => if bound ≠ key then .error .otherDelivery else .ok ()

/-! ### Results -/

theorem colon_notMem {id : Bytes} (h : id.all Trace.isRequestIDByte) : 0x3A ∉ id := fun hmem ↦
  absurd (List.all_eq_true.mp h _ hmem) (by decide)

/-- No id has a colon. -/
theorem colon_notMem_of_validateEventID {id : Bytes} (h : validateEventID id = .ok ()) :
    0x3A ∉ id := by
  rw [validateEventID, Trace.validateRequestID] at h
  by_cases hid : Trace.requestIDPattern id
  · rw [Trace.requestIDPattern, Bool.and_eq_true] at hid
    exact colon_notMem hid.2
  · rw [if_neg hid, if_pos rfl] at h
    split_ifs at h

/-- A wire key has none. -/
theorem wireDedupKey_eq_ok {id : Bytes} {key : DedupKey} (h : wireDedupKey id = .ok key) :
    key.isSealed = false ∧ 0x3A ∉ key.key := by
  rw [wireDedupKey] at h
  cases hid : validateEventID id with
  | error e =>
    rw [hid] at h
    cases h
  | ok u =>
    rw [hid] at h
    cases h
    exact ⟨rfl, colon_notMem_of_validateEventID hid⟩

/-- A delivery's key is a wire key, or composed from its envelope. -/
theorem dedupKey_eq_ok {m : Metadata} {key : DedupKey} (h : m.dedupKey = .ok key) :
    key.isSealed = false ∧ 0x3A ∉ key.key ∨
      ∃ envelope, m.envelope = some envelope ∧
        key = sealedDedupKey envelope.signFamily envelope.jti := by
  rw [Metadata.dedupKey] at h
  split at h
  · next envelope henvelope =>
    cases h
    exact .inr ⟨envelope, henvelope, rfl⟩
  · exact .inl (wireDedupKey_eq_ok h)

theorem colon_mem_sealedDedupKey (family jti : Bytes) : 0x3A ∈ (sealedDedupKey family jti).key :=
  List.mem_append_right _ List.mem_cons_self

/-- The family of an opened envelope is that of its kid. -/
theorem signFamily_eq {e : SealedEnvelope} {family : Bytes} (he : e.Opened)
    (hfamily : IsGenerationOf e.signKid family) : e.signFamily = family := by
  obtain ⟨⟨signLogical, hpeek⟩, -⟩ := he
  obtain ⟨hlogical, version, hversion, hkid⟩ := hfamily
  rw [peekFamily, splitGenerationKid, hkid,
    splitGeneration_generationName hlogical hversion] at hpeek
  dsimp only at hpeek
  split at hpeek
  · next f n hsome =>
    split_ifs at hsome hpeek
    cases hsome
    exact (Option.some.inj hpeek).symm
  · cases hpeek

/-- A key that is found is that of the delivery. -/
theorem sealedKeyFromDelivery_eq_some {ctx : Context} {key : DedupKey}
    (h : ctx.sealedKeyFromDelivery = some key) :
    ∃ m, ctx.delivery? = some m ∧ m.dedupKey = .ok key := by
  rw [Context.sealedKeyFromDelivery] at h
  split at h
  · next bound hbound =>
    obtain ⟨m, hm, hkey⟩ := Option.map_eq_some_iff.mp hbound
    split_ifs at h
    cases h
    exact ⟨m, hm, hkey⟩
  · cases h

/-- **Keys of different doors do not collide.** -/
theorem dedupKeys_disjoint :
    (∀ (id : Bytes) (key : DedupKey) (family jti : Bytes), wireDedupKey id = .ok key →
      key.key ≠ (sealedDedupKey family jti).key) ∧
    (∀ (m m' : Metadata) (key key' : DedupKey), m.dedupKey = .ok key → m'.dedupKey = .ok key' →
      key.isSealed = false → key'.isSealed = true → key.key ≠ key'.key) ∧
    (∀ family family' jti jti' : Bytes, checkLogical family = .ok → checkLogical family' = .ok →
      headerIDPattern jti → headerIDPattern jti' →
      (sealedDedupKey family jti).key = (sealedDedupKey family' jti').key →
        family = family' ∧ jti = jti') ∧
    (∀ (m m' : Metadata) (e e' : SealedEnvelope) (family : Bytes), m.envelope = some e →
      m'.envelope = some e' → e.Opened → e'.Opened → IsGenerationOf e.signKid family →
      IsGenerationOf e'.signKid family → e.jti = e'.jti → m.dedupKey = m'.dedupKey) ∧
    ∀ (ctx : Context) (key : DedupKey), key.isSealed = true → validateDedupKey ctx key = .ok () →
      ∃ m, ctx.delivery? = some m ∧ m.dedupKey = .ok key := by
  refine ⟨fun id key family jti h heq ↦ ?_, fun m m' key key' h h' hwire hsealed heq ↦ ?_,
    fun family family' jti jti' _ _ hjti hjti' h ↦ ?_,
    fun m m' e e' family hm hm' he he' hkid hkid' hjti ↦ ?_, fun ctx key hsealed h ↦ ?_⟩
  · exact (wireDedupKey_eq_ok h).2 (heq ▸ colon_mem_sealedDedupKey family jti)
  · rcases dedupKey_eq_ok h with ⟨-, hcolon⟩ | ⟨envelope, -, rfl⟩
    · rcases dedupKey_eq_ok h' with ⟨hwire', -⟩ | ⟨envelope', -, rfl⟩
      · exact nomatch hwire'.symm.trans hsealed
      · exact hcolon (heq ▸ colon_mem_sealedDedupKey _ _)
    · exact nomatch hwire
  · have hcut := congrArg (cutLast 0x3A) h
    rw [headerIDPattern, Bool.and_eq_true] at hjti hjti'
    rw [sealedDedupKey, sealedDedupKey, cutLast_append (colon_notMem hjti.2),
      cutLast_append (colon_notMem hjti'.2)] at hcut
    exact Prod.mk.inj (Option.some.inj hcut)
  · rw [Metadata.dedupKey, Metadata.dedupKey, hm, hm']
    dsimp only
    rw [hjti, signFamily_eq he hkid, signFamily_eq he' hkid']
  · rw [validateDedupKey, hsealed, Bool.not_true, if_neg Bool.false_ne_true] at h
    split_ifs at h
    split at h
    · cases h
    · next bound hbound =>
      split_ifs at h with hne
      rw [not_not.mp hne] at hbound
      exact sealedKeyFromDelivery_eq_some hbound

/-- A delivery whose envelope a generation of `payments` signed. -/
def paymentsDelivery (signKid : Bytes) : Metadata :=
  ⟨ascii "t1", fun _ ↦ none, some ⟨ascii "t1", signKid, ascii "payments"⟩⟩

/-- Two generations of one family, and the key of the first under a context of its delivery. -/
theorem dedupKeys_disjoint_payments :
    ascii "t1" ≠ (sealedDedupKey (ascii "payments") (ascii "t1")).key ∧
    (paymentsDelivery (ascii "payments-v1")).dedupKey =
      (paymentsDelivery (ascii "payments-v2")).dedupKey ∧
    ∃ m, (Context.handling .background (paymentsDelivery (ascii "payments-v1"))).delivery? =
      some m ∧ m.dedupKey = .ok (sealedDedupKey (ascii "payments") (ascii "t1")) := by
  have hfamily : checkLogical (ascii "payments") = .ok := by decide +kernel
  exact ⟨dedupKeys_disjoint.1 (ascii "t1") ⟨ascii "t1", false⟩ _ _ (by decide +kernel),
    dedupKeys_disjoint.2.2.2.1 _ _ _ _ (ascii "payments") rfl rfl
      ⟨⟨ascii "payments", by decide +kernel⟩, by decide +kernel⟩
      ⟨⟨ascii "payments", by decide +kernel⟩, by decide +kernel⟩
      ⟨hfamily, ascii "v1", by decide +kernel, by decide +kernel⟩
      ⟨hfamily, ascii "v2", by decide +kernel, by decide +kernel⟩ rfl,
    dedupKeys_disjoint.2.2.2.2 _ _ rfl (by decide +kernel)⟩

end Messaging
