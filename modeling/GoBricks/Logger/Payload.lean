import GoBricks.Logger.Opaque

/-!
# What the payload door lets through

Two payloads are **alike** if they are written the same except inside the values of secret members:
those whose name is sensitive, at any depth, and the private members of a JWK. The filter's output
should not tell such payloads apart.

It does not where the walk masks something or gives up: the document it walks is the same for both
up to the values it masks (`maskJSON_alike`). But the walk sees the document after decoding, and of
several members of one name an object keeps the last. A secret under a member that a later one
replaces is not seen, and if nothing else is masked the payload is logged as it came
(`payload_noninterference`).
-/

open Json

namespace Logger

variable {lower : ℕ → ℕ} {f : SensitiveDataFilter}

/-! ### Alike texts -/

/-- Whether a member of the name occurs among members. -/
def hasName (name : Bytes) : {c : Cat} → Syn c → Bool
  | _, .lastMember n _ _ => n.name = name
  | _, .member n _ _ ms => n.name = name || hasName name ms
  | _, _ => false

/-- Texts that are the same except inside the values of secret members. The Boolean tells whether
members are those of a JWK. -/
inductive Alike (lower : ℕ → ℕ) (f : SensitiveDataFilter) :
    Bool → {c : Cat} → Syn c → Syn c → Prop
  | scalar {j : Bool} (s : Scalar) : Alike lower f j (.scalar s) (.scalar s)
  | emptyArray {j : Bool} (b : Blank) : Alike lower f j (.emptyArray b) (.emptyArray b)
  | array {j : Bool} {es es' : Syn .elements} :
      Alike lower f false es es' → Alike lower f j (.array es) (.array es')
  | emptyObject {j : Bool} (b : Blank) : Alike lower f j (.emptyObject b) (.emptyObject b)
  | object {j : Bool} {ms ms' : Syn .members} :
      Alike lower f (hasName kty ms) ms ms' → Alike lower f j (.object ms) (.object ms')
  | lastElement {j : Bool} (lead : Blank) {v v' : Json.Value} (trail : Blank) :
      Alike lower f false v v' →
      Alike lower f j (.lastElement lead v trail) (.lastElement lead v' trail)
  | element {j : Bool} (lead : Blank) {v v' : Json.Value} (trail : Blank) {es es' : Syn .elements} :
      Alike lower f false v v' → Alike lower f j es es' →
      Alike lower f j (.element lead v trail es) (.element lead v' trail es')
  | lastSecret {j : Bool} (n : Name) (v v' : Json.Value) (trail : Blank) :
      f.isSecret lower j n.name → Alike lower f j (.lastMember n v trail) (.lastMember n v' trail)
  | lastMember {j : Bool} (n : Name) {v v' : Json.Value} (trail : Blank) :
      Alike lower f false v v' → Alike lower f j (.lastMember n v trail) (.lastMember n v' trail)
  | secret {j : Bool} (n : Name) (v v' : Json.Value) (trail : Blank) {ms ms' : Syn .members} :
      f.isSecret lower j n.name → Alike lower f j ms ms' →
      Alike lower f j (.member n v trail ms) (.member n v' trail ms')
  | member {j : Bool} (n : Name) {v v' : Json.Value} (trail : Blank) {ms ms' : Syn .members} :
      Alike lower f false v v' → Alike lower f j ms ms' →
      Alike lower f j (.member n v trail ms) (.member n v' trail ms')

variable {c : Cat}

theorem Alike.refl (t : Syn c) : ∀ j, Alike lower f j t t := by
  induction t with
  | scalar s => exact fun _ ↦ .scalar s
  | emptyArray b => exact fun _ ↦ .emptyArray b
  | array es ih => exact fun _ ↦ .array (ih false)
  | emptyObject b => exact fun _ ↦ .emptyObject b
  | object ms ih => exact fun _ ↦ .object (ih _)
  | lastElement lead v trail ih => exact fun _ ↦ .lastElement lead trail (ih false)
  | element lead v trail es ihv ihes => exact fun j ↦ .element lead trail (ihv false) (ihes j)
  | lastMember n v trail ih => exact fun _ ↦ .lastMember n trail (ih false)
  | member n v trail ms ihv ihms => exact fun j ↦ .member n trail (ihv false) (ihms j)

variable {j : Bool}

/-- Alike values open with the same byte. -/
theorem Alike.head?_text {v v' : Json.Value} (h : Alike lower f j v v') :
    v.text.head? = v'.text.head? := by
  cases h <;> rfl

/-- Whether a text holds a secret member. -/
def hasSecret (lower : ℕ → ℕ) (f : SensitiveDataFilter) : {c : Cat} → Syn c → Bool → Bool
  | _, .array es, _ => hasSecret lower f es false
  | _, .object ms, _ => hasSecret lower f ms (hasName kty ms)
  | _, .lastElement _ v _, _ => hasSecret lower f v false
  | _, .element _ v _ es, j => hasSecret lower f v false || hasSecret lower f es j
  | _, .lastMember n v _, j => f.isSecret lower j n.name || hasSecret lower f v false
  | _, .member n v _ ms, j =>
    f.isSecret lower j n.name || hasSecret lower f v false || hasSecret lower f ms j
  | _, _, _ => false

/-- Without a secret, alike is the same. -/
theorem Alike.eq_of_not_hasSecret {t t' : Syn c} (h : Alike lower f j t t')
    (hs : hasSecret lower f t j = false) : t = t' := by
  induction h with
  | scalar s | emptyArray b => rfl
  | array _ ih => rw [ih hs]
  | emptyObject b => rfl
  | object _ ih | lastElement lead trail _ ih => rw [ih hs]
  | element lead trail _ _ ihv ihes =>
    simp only [hasSecret, Bool.or_eq_false_iff] at hs
    rw [ihv hs.1, ihes hs.2]
  | lastSecret n v v' trail hn => simp [hasSecret, hn] at hs
  | lastMember n trail _ ih =>
    simp only [hasSecret, Bool.or_eq_false_iff] at hs
    rw [ih hs.2]
  | secret n v v' trail hn => simp [hasSecret, hn] at hs
  | member n trail _ _ ihv ihms =>
    simp only [hasSecret, Bool.or_eq_false_iff] at hs
    rw [ihv hs.1.2, ihms hs.2]

/-- The one-digit number. -/
def digit (b : UInt8) (h : isDigit b) : Json.Value :=
  .scalar ⟨[b], .inr (.inr ⟨[], [b], [], [], .inl rfl, by
    by_cases h0 : b = 0x30
    · exact .inl (by rw [h0])
    · exact .inr ⟨b, [], rfl, h0, h, rfl⟩, .inl rfl, .inl rfl, rfl⟩)⟩

/-- For every value there is one written differently, no longer and nesting no deeper. -/
theorem exists_other (v : Json.Value) :
    ∃ v' : Json.Value, v'.text ≠ v.text ∧ v'.text.length ≤ v.text.length ∧ v'.depth ≤ v.depth := by
  have hlen : 1 ≤ v.text.length := by
    obtain ⟨b, w, h, -⟩ := v.head_value
    rw [h]
    exact Nat.succ_le_succ (Nat.zero_le _)
  by_cases h : v.text = [0x30]
  · exact ⟨digit 0x31 rfl, by rw [h]; decide, hlen, Nat.zero_le _⟩
  · exact ⟨digit 0x30 rfl, Ne.symm h, hlen, Nat.zero_le _⟩

/-- A text with a secret has another that is alike, no longer and nesting no deeper. -/
theorem exists_alike {t : Syn c} (h : hasSecret lower f t j) :
    ∃ t', Alike lower f j t t' ∧ t'.text ≠ t.text ∧ t'.text.length ≤ t.text.length ∧
      t'.depth ≤ t.depth := by
  induction t generalizing j with
  | scalar s | emptyArray b => cases h
  | array es ih =>
    obtain ⟨es', ha, hne, hlen, hd⟩ := ih h
    exact ⟨.array es', .array ha, by simpa [Syn.text] using hne, by simpa [Syn.text] using hlen,
      by simpa [Syn.depth] using hd⟩
  | emptyObject b => cases h
  | object ms ih =>
    obtain ⟨ms', ha, hne, hlen, hd⟩ := ih h
    exact ⟨.object ms', .object ha, by simpa [Syn.text] using hne, by simpa [Syn.text] using hlen,
      by simpa [Syn.depth] using hd⟩
  | lastElement lead v trail ih =>
    obtain ⟨v', ha, hne, hlen, hd⟩ := ih h
    exact ⟨.lastElement lead v' trail, .lastElement lead trail ha, by simpa [Syn.text] using hne,
      by simpa [Syn.text] using hlen, hd⟩
  | element lead v trail es ihv ihes =>
    rcases (Bool.or_eq_true _ _).mp h with h | h
    · obtain ⟨v', ha, hne, hlen, hd⟩ := ihv h
      exact ⟨.element lead v' trail es, .element lead trail ha (.refl es j),
        by simpa [Syn.text] using hne, by simpa [Syn.text] using hlen, by
          simp only [Syn.depth]; omega⟩
    · obtain ⟨es', ha, hne, hlen, hd⟩ := ihes h
      exact ⟨.element lead v trail es', .element lead trail (.refl v false) ha,
        by simpa [Syn.text] using hne, by simpa [Syn.text] using hlen, by
          simp only [Syn.depth]; omega⟩
  | lastMember n v trail ih =>
    rcases (Bool.or_eq_true _ _).mp h with h | h
    · obtain ⟨v', hne, hlen, hd⟩ := exists_other v
      exact ⟨.lastMember n v' trail, .lastSecret n v v' trail h, by simpa [Syn.text] using hne,
        by simpa [Syn.text] using hlen, hd⟩
    · obtain ⟨v', ha, hne, hlen, hd⟩ := ih h
      exact ⟨.lastMember n v' trail, .lastMember n trail ha, by simpa [Syn.text] using hne,
        by simpa [Syn.text] using hlen, hd⟩
  | member n v trail ms ihv ihms =>
    have h : (f.isSecret lower j n.name ∨ hasSecret lower f v false) ∨ hasSecret lower f ms j := by
      simpa [hasSecret] using h
    rcases h with (h | h) | h
    · obtain ⟨v', hne, hlen, hd⟩ := exists_other v
      exact ⟨.member n v' trail ms, .secret n v v' trail h (.refl ms j),
        by simpa [Syn.text] using hne, by simpa [Syn.text] using hlen, by
          simp only [Syn.depth]; omega⟩
    · obtain ⟨v', ha, hne, hlen, hd⟩ := ihv h
      exact ⟨.member n v' trail ms, .member n trail ha (.refl ms j),
        by simpa [Syn.text] using hne, by simpa [Syn.text] using hlen, by
          simp only [Syn.depth]; omega⟩
    · obtain ⟨ms', ha, hne, hlen, hd⟩ := ihms h
      exact ⟨.member n v trail ms', .member n trail (.refl v false) ha,
        by simpa [Syn.text] using hne, by simpa [Syn.text] using hlen, by
          simp only [Syn.depth]; omega⟩

/-! ### Alike documents -/

/-- Decoded values that are the same except for the values of secret entries. -/
inductive AlikeTree (lower : ℕ → ℕ) (f : SensitiveDataFilter) :
    Bool → {c : Cat} → Tree c → Tree c → Prop
  | null {j : Bool} : AlikeTree lower f j .null .null
  | bool {j : Bool} (b : Bool) : AlikeTree lower f j (.bool b) (.bool b)
  | number {j : Bool} (lit : Bytes) : AlikeTree lower f j (.number lit) (.number lit)
  | string {j : Bool} (s : Bytes) : AlikeTree lower f j (.string s) (.string s)
  | array {j : Bool} {es es' : Tree .elements} :
      AlikeTree lower f false es es' → AlikeTree lower f j (.array es) (.array es')
  | object {j : Bool} {ms ms' : Tree .members} :
      AlikeTree lower f (Tree.hasKey kty ms) ms ms' → AlikeTree lower f j (.object ms) (.object ms')
  | noElement {j : Bool} : AlikeTree lower f j .noElement .noElement
  | element {j : Bool} {v v' : Tree .value} {es es' : Tree .elements} :
      AlikeTree lower f false v v' → AlikeTree lower f j es es' →
      AlikeTree lower f j (.element v es) (.element v' es')
  | noEntry {j : Bool} : AlikeTree lower f j .noEntry .noEntry
  | secret {j : Bool} (key : Bytes) (v v' : Tree .value) {ms ms' : Tree .members} :
      f.isSecret lower j key → AlikeTree lower f j ms ms' →
      AlikeTree lower f j (.entry key v ms) (.entry key v' ms')
  | entry {j : Bool} (key : Bytes) {v v' : Tree .value} {ms ms' : Tree .members} :
      AlikeTree lower f false v v' → AlikeTree lower f j ms ms' →
      AlikeTree lower f j (.entry key v ms) (.entry key v' ms')

theorem AlikeTree.refl (t : Tree c) : ∀ j, AlikeTree lower f j t t := by
  induction t with
  | null => exact fun _ ↦ .null
  | bool b => exact fun _ ↦ .bool b
  | number lit => exact fun _ ↦ .number lit
  | string s => exact fun _ ↦ .string s
  | array es ih => exact fun _ ↦ .array (ih false)
  | object ms ih => exact fun _ ↦ .object (ih _)
  | noElement => exact fun _ ↦ .noElement
  | element v es ihv ihes => exact fun j ↦ .element (ihv false) (ihes j)
  | noEntry => exact fun _ ↦ .noEntry
  | entry key v ms ihv ihms => exact fun j ↦ .entry key (ihv false) (ihms j)

/-- Documents that are alike have the same keys. -/
theorem AlikeTree.hasKey_eq {t t' : Tree c} (h : AlikeTree lower f j t t') (key : Bytes) :
    Tree.hasKey key t = Tree.hasKey key t' := by
  induction h with
  | secret key' v v' _ _ ih | entry key' _ _ _ ih => rw [Tree.hasKey, Tree.hasKey, ih]
  | _ => rfl

/-- The walk does the same on alike documents: what it keeps of them is the same. -/
theorem maskJSON_alike {t t' : Tree c} (h : AlikeTree lower f j t t') (depth : ℕ) :
    f.maskJSON lower t j depth = f.maskJSON lower t' j depth := by
  induction h generalizing depth with
  | null | bool b | number lit | string s => rfl
  | array _ ih => simp only [SensitiveDataFilter.maskJSON, ih]
  | object h ih => simp only [SensitiveDataFilter.maskJSON, ih, ← h.hasKey_eq kty]
  | noElement => rfl
  | element _ _ ihv ihes => simp only [SensitiveDataFilter.maskJSON, ihv, ihes]
  | noEntry => rfl
  | secret key v v' hkey _ ih => simp only [SensitiveDataFilter.maskJSON, hkey, if_true, ih]
  | entry key _ _ ihv ihms => simp only [SensitiveDataFilter.maskJSON, ihv, ihms]

/-! ### Decoding -/

theorem hasKey_insert (key key' : Bytes) (v : Tree .value) : (m : Tree .members) →
    Tree.hasKey key (Tree.insert key' v m) = (decide (key' = key) || Tree.hasKey key m)
  | .noEntry => by simp [Tree.insert, Tree.hasKey]
  | .entry key₀ v₀ ms => by
    have ih := hasKey_insert key key' v ms
    rw [Tree.insert]
    split
    · next h => simp [Tree.hasKey, h]
    · rw [Tree.hasKey, ih, Tree.hasKey, Bool.or_left_comm]

/-- An insertion of secrets keeps documents alike. -/
theorem AlikeTree.insert {key : Bytes} {v v' : Tree .value} {m m' : Tree c}
    (hm : AlikeTree lower f j m m') (hv : f.isSecret lower j key ∨ AlikeTree lower f false v v') :
    AlikeTree lower f j (Tree.insert key v m) (Tree.insert key v' m') := by
  have hentry : ∀ {ms ms' : Tree .members}, AlikeTree lower f j ms ms' →
      AlikeTree lower f j (.entry key v ms) (.entry key v' ms') := fun h ↦
    hv.elim (fun hs ↦ .secret key v v' hs h) (fun ha ↦ .entry key ha h)
  induction hm with
  | noEntry => exact hentry .noEntry
  | secret key₀ v₀ v₀' hs h ih =>
    rw [Tree.insert, Tree.insert]
    split
    · next e =>
      subst e
      exact hentry h
    · exact .secret key₀ v₀ v₀' hs (ih hv hentry)
  | entry key₀ ha h _ ih =>
    rw [Tree.insert, Tree.insert]
    split
    · next e =>
      subst e
      exact hentry h
    · exact .entry key₀ ha (ih hv hentry)
  | null => exact .null
  | bool b => exact .bool b
  | number lit => exact .number lit
  | string s => exact .string s
  | array h => exact .array h
  | object h => exact .object h
  | noElement => exact .noElement
  | element hv' hes => exact .element hv' hes

/-- The map has the key if a member had the name, or it had the key before. -/
theorem hasKey_decode (key : Bytes) : (ms : Syn .members) → (m : Tree .members) →
    Tree.hasKey key (ms.decode m) = (hasName key ms || Tree.hasKey key m)
  | .lastMember n v trail, m => by
    rw [Syn.decode, hasKey_insert, hasName]
  | .member n v trail ms, m => by
    rw [Syn.decode, hasKey_decode key ms, hasKey_insert, hasName, Bool.or_assoc,
      Bool.or_left_comm]

/-- Alike texts decode into alike documents. -/
theorem Alike.decode {t t' : Syn c} (h : Alike lower f j t t') {m m' : Tree .members}
    (hm : AlikeTree lower f j m m') : AlikeTree lower f j (t.decode m) (t'.decode m') := by
  induction h generalizing m m' with
  | scalar s => exact .refl _ _
  | emptyArray b => exact .array .noElement
  | array _ ih => exact .array (ih .noEntry)
  | emptyObject b => exact .object .noEntry
  | object _ ih =>
    refine .object ?_
    rw [hasKey_decode, Tree.hasKey_noEntry, Bool.or_false]
    exact ih .noEntry
  | lastElement lead trail _ ih => exact .element (ih .noEntry) .noElement
  | element lead trail _ _ ihv ihes => exact .element (ihv .noEntry) (ihes .noEntry)
  | lastSecret n v v' trail hn => exact hm.insert (.inl hn)
  | lastMember n trail _ ih => exact hm.insert (.inr (ih .noEntry))
  | secret n v v' trail hn _ ih => exact ih (hm.insert (.inl hn))
  | member n trail _ _ ihv ihms => exact ihms (hm.insert (.inr (ihv .noEntry)))

/-- Documents that are alike decode alike. -/
theorem Alike.value {v v' : Json.Value} (h : Alike lower f false v v') :
    AlikeTree lower f false v.value v'.value :=
  h.decode .noEntry

/-! ### What the walk masks -/

/-- Whether there is anything to mask in a document: a secret entry or a private key. -/
def touched (lower : ℕ → ℕ) (f : SensitiveDataFilter) : {c : Cat} → Tree c → Bool → Bool
  | _, .string s, _ => looksLikePEMPrivateKey s
  | _, .array es, _ => touched lower f es false
  | _, .object ms, _ => touched lower f ms (Tree.hasKey kty ms)
  | _, .element v es, j => touched lower f v false || touched lower f es j
  | _, .entry key v ms, j =>
    f.isSecret lower j key || touched lower f v false || touched lower f ms j
  | _, _, _ => false

/-- Whether a document nests deeper than the walk goes, the values of secret entries aside. -/
def overflows (lower : ℕ → ℕ) (f : SensitiveDataFilter) : {c : Cat} → Tree c → Bool → ℕ → Bool
  | _, .array es, _, depth => overflows lower f es false depth
  | _, .object ms, _, depth => overflows lower f ms (Tree.hasKey kty ms) depth
  | _, .element v es, j, depth =>
    depth ≤ 1 || overflows lower f v false (depth - 1) || overflows lower f es j depth
  | _, .entry key v ms, j, depth =>
    (!f.isSecret lower j key && (depth ≤ 1 || overflows lower f v false (depth - 1))) ||
      overflows lower f ms j depth
  | _, _, _, _ => false

/-- The walk fails where the document is too deep, and otherwise tells whether there was anything to
mask. -/
theorem maskJSON_changed (lower : ℕ → ℕ) (f : SensitiveDataFilter) (t : Tree c) (j : Bool)
    (depth : ℕ) :
    (f.maskJSON lower t j depth).map (·.2) =
      if overflows lower f t j depth then none else some (touched lower f t j) := by
  induction t generalizing j depth with
  | null | bool b | number lit => rfl
  | string s =>
    by_cases h : looksLikePEMPrivateKey s <;>
      simp [SensitiveDataFilter.maskJSON, overflows, touched, h]
  | array es ih =>
    rw [overflows, touched, ← ih, SensitiveDataFilter.maskJSON]
    cases f.maskJSON lower es false depth <;> rfl
  | object ms ih =>
    rw [overflows, touched, ← ih, SensitiveDataFilter.maskJSON]
    cases f.maskJSON lower ms (Tree.hasKey kty ms) depth <;> rfl
  | noElement => rfl
  | element v es ihv ihes =>
    specialize ihv false (depth - 1)
    specialize ihes j depth
    by_cases hd : depth ≤ 1
    · simp [SensitiveDataFilter.maskJSON, overflows, hd]
    · simp only [SensitiveDataFilter.maskJSON, overflows, touched, hd, if_false, decide_false,
        Bool.false_or]
      cases hv : f.maskJSON lower v false (depth - 1) <;>
        cases hes : f.maskJSON lower es j depth <;> simp_all
  | noEntry => rfl
  | entry key v ms ihv ihms =>
    specialize ihv false (depth - 1)
    specialize ihms j depth
    by_cases hn : f.isSecret lower j key
    · cases hms : f.maskJSON lower ms j depth <;>
        simp_all [SensitiveDataFilter.maskJSON, overflows, touched]
    · by_cases hd : depth ≤ 1
      · simp [SensitiveDataFilter.maskJSON, overflows, hd, hn]
      · simp only [SensitiveDataFilter.maskJSON, overflows, touched, hn, hd, if_false,
          decide_false, Bool.false_or, Bool.not_false, Bool.true_and]
        cases hv : f.maskJSON lower v false (depth - 1) <;>
          cases hms : f.maskJSON lower ms j depth <;> simp_all

/-! ### The door -/

/-- The text of a value with whitespace around it. -/
structure Document where
  lead : Blank
  value : Json.Value
  trail : Blank

/-- The text of a document. -/
def Document.text (d : Document) : Bytes :=
  d.lead.1 ++ (d.value.text ++ d.trail.1)

theorem Document.follows (d : Document) : Follows d.trail.1 := by
  simpa using follows_nil.blank d.trail

theorem Document.skip_text (d : Document) : skip d.text = d.value.text ++ d.trail.1 :=
  skip_blank_append d.lead (d.value.dense_value _)

theorem Document.skip_trail (d : Document) : skip d.trail.1 = [] := by
  simpa using skip_blank_append d.trail dense_nil

/-- A document looks like JSON if it is an object or an array. -/
theorem Document.looksLikeJSON_text (d : Document) :
    looksLikeJSON d.text = (d.value.text.head?.any fun b ↦ b = 0x7B || b = 0x5B) := by
  obtain ⟨b, w, h, -⟩ := d.value.head_value
  rw [looksLikeJSON, d.skip_text, h]
  rfl

variable {d : Document}

theorem Document.text_inj {d' : Document} (h : d.text = d'.text) : d = d' := by
  have hskip := congrArg skip h
  rw [d.skip_text, d'.skip_text] at hskip
  obtain ⟨hv, htrail⟩ := text_append_inj d.follows d'.follows hskip
  have hlead := congrArg blank h
  rw [Document.text, blank_blank_append _ (d.value.dense_value _), Document.text,
    blank_blank_append _ (d'.value.dense_value _)] at hlead
  obtain ⟨lead', v', trail'⟩ := d'
  cases hlead
  cases hv
  cases Subtype.ext htrail
  rfl

/-- A document that is not too deep decodes to its value. -/
theorem decodeJSONPayload_text (hd : d.value.depth ≤ maxNestingDepth) :
    decodeJSONPayload d.text = some d.value.value := by
  rw [decodeJSONPayload, d.skip_text, parseValue_text d.value hd d.follows]
  simp [d.skip_trail]

/-- What decodes is a document. -/
theorem exists_document {payload : Bytes} (h : (decodeJSONPayload payload).isSome) :
    ∃ d : Document, d.text = payload ∧ d.value.depth ≤ maxNestingDepth := by
  rw [decodeJSONPayload] at h
  split at h
  · cases h
  · next v rest hparse =>
    split at h
    · next hrest =>
      obtain ⟨hv, hd⟩ := text_of_parseValue hparse
      have htrail := blank_append_skip rest
      rw [hrest, List.append_nil] at htrail
      refine ⟨⟨blank payload, v, blank rest⟩, ?_, hd⟩
      rw [Document.text, htrail, ← hv, blank_append_skip]
    · cases h

/-- The payload is one that the filter reads as JSON, within the limit. -/
structure ReadsAsJSON (f : SensitiveDataFilter) (payload : Bytes) : Prop where
  looks : looksLikeJSON payload
  fits : payload.length ≤ f.maxPayloadBytes
  decodes : (decodeJSONPayload payload).isSome

/-- The payloads are the same except inside the values of secret members. -/
def AlikePayloads (lower : ℕ → ℕ) (f : SensitiveDataFilter) (payload payload' : Bytes) : Prop :=
  ∃ d d' : Document, d.text = payload ∧ d'.text = payload' ∧ d.lead = d'.lead ∧
    Alike lower f false d.value d'.value ∧ d.trail = d'.trail

/-- The payload holds a secret member, and the document it decodes into is walked to its end with
nothing to mask: every secret is under a member, or is one, that a later member of the same name
replaces. -/
def Shadowed (lower : ℕ → ℕ) (f : SensitiveDataFilter) (payload : Bytes) : Prop :=
  ∃ d : Document, d.text = payload ∧ hasSecret lower f d.value false ∧
    touched lower f d.value.value false = false ∧
    overflows lower f d.value.value false defaultMaxDepth = false

theorem ReadsAsJSON.decode_eq (hp : ReadsAsJSON f d.text) :
    decodeJSONPayload d.text = some d.value.value := by
  obtain ⟨d', h, hd⟩ := exists_document hp.decodes
  cases Document.text_inj h
  exact decodeJSONPayload_text hd

/-- A document is masked as a value. -/
theorem filterOpaquePayload_text (hf : 0 ≤ f.config.maxPayloadBytes) (hp : ReadsAsJSON f d.text) :
    filterOpaquePayload lower f d.text =
      match f.maskJSON lower d.value.value false defaultMaxDepth with
      | none => .mask f.config.maskValue
      | some (masked, changed) =>
        if changed then .encoded masked.marshal else .original d.text := by
  rw [filterOpaquePayload, if_neg (not_lt.mpr hf), hp.looks, if_neg (not_lt.mpr hp.fits),
    hp.decode_eq]
  rfl

/-- What is walked to its end with nothing to mask is logged as it came. -/
theorem filterOpaquePayload_clean (hf : 0 ≤ f.config.maxPayloadBytes) (hp : ReadsAsJSON f d.text)
    {masked : Tree .value}
    (hmask : f.maskJSON lower d.value.value false defaultMaxDepth = some (masked, false)) :
    filterOpaquePayload lower f d.text = .original d.text := by
  rw [filterOpaquePayload_text hf hp, hmask]
  rfl

/-- Alike payloads have the same output where the walk fails or masks anything. -/
theorem filterOpaquePayload_alike (hf : 0 ≤ f.config.maxPayloadBytes) {d' : Document}
    (hp : ReadsAsJSON f d.text) (hp' : ReadsAsJSON f d'.text)
    (h : Alike lower f false d.value d'.value)
    (hseen : touched lower f d.value.value false ∨
      overflows lower f d.value.value false defaultMaxDepth) :
    filterOpaquePayload lower f d.text = filterOpaquePayload lower f d'.text := by
  have hwalk := maskJSON_changed lower f d.value.value false defaultMaxDepth
  rw [filterOpaquePayload_text hf hp, filterOpaquePayload_text hf hp',
    ← maskJSON_alike h.value]
  cases hmask : f.maskJSON lower d.value.value false defaultMaxDepth with
  | none => rfl
  | some r =>
    obtain ⟨masked, changed⟩ := r
    -- The walk did not fail, so it found something.
    have hc : changed = true := by
      rw [hmask] at hwalk
      rcases hseen with ht | ho
      · rw [ht] at hwalk
        split at hwalk
        · cases hwalk
        · simpa using hwalk
      · rw [ho, if_pos rfl] at hwalk
        cases hwalk
    rw [hc]
    rfl

/-- A shadowed secret is logged: some payload that is alike gives another output. -/
theorem Shadowed.exists_leak (hf : 0 ≤ f.config.maxPayloadBytes) {payload : Bytes}
    (hp : ReadsAsJSON f payload) (h : Shadowed lower f payload) :
    ∃ payload', ReadsAsJSON f payload' ∧ AlikePayloads lower f payload payload' ∧
      filterOpaquePayload lower f payload ≠ filterOpaquePayload lower f payload' := by
  obtain ⟨d, rfl, hs, ht, ho⟩ := h
  obtain ⟨v', ha, hne, hlen, hdepth⟩ := exists_alike hs
  have hdepth' : d.value.depth ≤ maxNestingDepth := by
    obtain ⟨d₀, h, hd⟩ := exists_document hp.decodes
    cases Document.text_inj h
    exact hd
  let d' : Document := ⟨d.lead, v', d.trail⟩
  have hdecode : decodeJSONPayload d'.text = some d'.value.value :=
    decodeJSONPayload_text (hdepth.trans hdepth')
  have hp' : ReadsAsJSON f d'.text := by
    refine ⟨?_, ?_, ?_⟩
    · rw [d'.looksLikeJSON_text, ← ha.head?_text, ← d.looksLikeJSON_text]
      exact hp.looks
    · have hlen' : d'.text.length ≤ d.text.length := by
        simp only [d', Document.text, List.length_append]
        omega
      exact le_trans (by exact_mod_cast hlen') hp.fits
    · rw [hdecode]
      rfl
  refine ⟨d'.text, hp', ⟨d, d', rfl, rfl, rfl, ha, rfl⟩, ?_⟩
  -- Both are walked alike, and nothing is masked in either.
  have hwalk := maskJSON_changed lower f d.value.value false defaultMaxDepth
  rw [ht, ho, if_neg Bool.false_ne_true, Option.map_eq_some_iff] at hwalk
  obtain ⟨⟨masked, _⟩, hmask, rfl⟩ := hwalk
  have hmask' : f.maskJSON lower d'.value.value false defaultMaxDepth = some (masked, false) := by
    rw [← maskJSON_alike ha.value]
    exact hmask
  rw [filterOpaquePayload_clean hf hp hmask, filterOpaquePayload_clean hf hp' hmask']
  intro h
  have hd := Document.text_inj (Filtered.original.inj h)
  exact hne (congrArg (·.value.text) hd).symm

/-- Payloads that are the same except inside secret members give the same output, unless the
secrets are shadowed. -/
theorem payload_noninterference (hf : 0 ≤ f.config.maxPayloadBytes) {payload : Bytes}
    (hp : ReadsAsJSON f payload) :
    (∀ payload', ReadsAsJSON f payload' → AlikePayloads lower f payload payload' →
      filterOpaquePayload lower f payload = filterOpaquePayload lower f payload') ↔
    ¬Shadowed lower f payload := by
  constructor
  · intro h hshadowed
    obtain ⟨payload', hp', ha, hne⟩ := hshadowed.exists_leak hf hp
    exact hne (h payload' hp' ha)
  · rintro hshadowed payload' hp' ⟨d, d', rfl, rfl, hlead, ha, htrail⟩
    by_cases hseen : touched lower f d.value.value false ∨
        overflows lower f d.value.value false defaultMaxDepth
    · exact filterOpaquePayload_alike hf hp hp' ha hseen
    · -- Nothing is masked, so there is no secret for the payloads to differ in.
      have hs : hasSecret lower f d.value false = false := by
        by_contra hs
        simp only [not_or, Bool.not_eq_true] at hseen
        exact hshadowed ⟨d, rfl, by simpa using hs, hseen⟩
      rw [Document.text, hlead, ha.eq_of_not_hasSecret hs, htrail]
      rfl

/-- A name written as it is, with no whitespace. -/
def plainName (w : Bytes) (h : w.all isPlainAscii) : Name :=
  ⟨⟨[], rfl⟩, ⟨_, isString_plain h⟩, ⟨[], rfl⟩, ⟨[], rfl⟩⟩

/-- The member name `password`. -/
def password : Name :=
  plainName passwordText rfl

/-- The document `{"password":0}`. -/
def openSecret : Document :=
  ⟨⟨[], rfl⟩, .object (.lastMember password (digit 0x30 rfl) ⟨[], rfl⟩), ⟨[], rfl⟩⟩

theorem payload_noninterference_openSecret :
    ReadsAsJSON passwordFilter openSecret.text ∧
      ∀ payload', ReadsAsJSON passwordFilter payload' →
        AlikePayloads Utf8.asciiFold passwordFilter openSecret.text payload' →
        filterOpaquePayload Utf8.asciiFold passwordFilter openSecret.text =
          filterOpaquePayload Utf8.asciiFold passwordFilter payload' := by
  have hp : ReadsAsJSON passwordFilter openSecret.text := ⟨by decide, by decide, by decide⟩
  refine ⟨hp, (payload_noninterference (by decide) hp).mpr ?_⟩
  rintro ⟨d, hd, -, ht, -⟩
  cases Document.text_inj hd
  revert ht
  decide

/-- The document `{"a":{"password":b},"a":0}`, for a digit `b`. -/
def shadowedSecret (b : UInt8) (h : isDigit b) : Document :=
  ⟨⟨[], rfl⟩,
    .object (.member (plainName [0x61] rfl)
      (.object (.lastMember password (digit b h) ⟨[], rfl⟩)) ⟨[], rfl⟩
      (.lastMember (plainName [0x61] rfl) (digit 0x30 rfl) ⟨[], rfl⟩)), ⟨[], rfl⟩⟩

/-- The password is logged. -/
theorem leaks_shadowed_secret :
    let payload := (shadowedSecret 0x30 rfl).text
    let payload' := (shadowedSecret 0x31 rfl).text
    0 ≤ passwordFilter.config.maxPayloadBytes ∧
      ReadsAsJSON passwordFilter payload ∧ ReadsAsJSON passwordFilter payload' ∧
      AlikePayloads Utf8.asciiFold passwordFilter payload payload' ∧
      filterOpaquePayload Utf8.asciiFold passwordFilter payload = .original payload ∧
      filterOpaquePayload Utf8.asciiFold passwordFilter payload' = .original payload' ∧
      payload ≠ payload' := by
  refine ⟨by decide, ⟨by decide, by decide, by decide⟩, ⟨by decide, by decide, by decide⟩, ?_,
    by decide, by decide, by decide⟩
  refine ⟨_, _, rfl, rfl, rfl, .object ?_, rfl⟩
  exact .member _ _ (.object (.lastSecret _ _ _ _ (by decide))) (.refl _ _)

end Logger
