import GoBricks.Lib.Text

/-!
# What trace headers are checked against

`validate.go`: the values of `X-Request-ID`, `traceparent` and `tracestate` that are let in. Each
validator returns the value it was given, or nothing. `traceparent` has fields of fixed lengths at
fixed positions, and after them, in a version to come, further fields behind dashes.

A `traceparent` that is generated is accepted (`validateTraceParent_generate`), whatever the random
bytes.
-/

open Text

namespace Trace

/-- The longest state. -/
def maxTraceStateBytes : ℕ := 512

/-- The longest parent. -/
def maxTraceParentBytes : ℕ := 255

/-- The length of a `traceparent` of version 00. -/
def traceParentV00Len : ℕ := 55

/-- What separates the fields of a parent. -/
def dash : UInt8 := 0x2D

/-- A hexadecimal digit in lower case. -/
def isLowerHex (b : UInt8) : Bool :=
  0x30 ≤ b && b ≤ 0x39 || 0x61 ≤ b && b ≤ 0x66

/-- `[[:graph:]]` -/
def isGraph (b : UInt8) : Bool :=
  0x21 ≤ b && b ≤ 0x7E

/-- `[[:print:]]` -/
def isPrint (b : UInt8) : Bool :=
  0x20 ≤ b && b ≤ 0x7E

/-- `[A-Za-z0-9_-]` -/
def isRequestIDByte (b : UInt8) : Bool :=
  0x41 ≤ b && b ≤ 0x5A || 0x61 ≤ b && b ≤ 0x7A || 0x30 ≤ b && b ≤ 0x39 || b == 0x5F || b == dash

/-- The pattern of an id. -/
def requestIDPattern (id : Bytes) : Bool :=
  1 ≤ id.length && id.length ≤ 128 && id.all isRequestIDByte

/-- An id that matches the pattern, or none. -/
def validateRequestID (id : Bytes) : Bytes :=
  if requestIDPattern id then id else []

/-- The pattern of a state. -/
def traceStatePattern (ts : Bytes) : Bool :=
  1 ≤ ts.length && ts.all isPrint

/-- A state that is short enough and matches the pattern, or none. -/
def validateTraceState (ts : Bytes) : Bytes :=
  if ts = [] ∨ maxTraceStateBytes < ts.length ∨ !traceStatePattern ts then [] else ts

/-- A field of hexadecimal digits. -/
def isHexField (n : ℕ) (s : Bytes) : Bool :=
  s.length = n && s.all isLowerHex

/-- `(-[[:graph:]]+)*` at the end of a text. A dash is a graphic character too, so that this is
nothing, or a dash and at least one graphic character. -/
def isAdditional (s : Bytes) : Bool :=
  s = [] || s.head? == some dash && 2 ≤ s.length && s.tail.all isGraph

/-- The grammar of `traceparent`, a field at each position. -/
def traceParentPattern (tp : Bytes) : Bool :=
  isHexField 2 (tp.take 2) && tp[2]? == some dash &&
    isHexField 32 ((tp.drop 3).take 32) && tp[35]? == some dash &&
    isHexField 16 ((tp.drop 36).take 16) && tp[52]? == some dash &&
    isHexField 2 ((tp.drop 53).take 2) && isAdditional (tp.drop 55)

/-- The fields of a parent. -/
structure TraceParentFields where
  traceID : Bytes
  parentID : Bytes

/-- The fields of a parent that matches the pattern. -/
def splitTraceParent (tp : Bytes) : TraceParentFields where
  traceID := (tp.drop 3).take 32
  parentID := (tp.drop 36).take 16

/-- The trace that the standard excludes. -/
def zeroTraceID : Bytes := .replicate 32 0x30

/-- The span that the standard excludes. -/
def zeroParentID : Bytes := .replicate 16 0x30

/-- A parent that matches the pattern, of a version and ids that are allowed, or none. -/
def validateTraceParent (tp : Bytes) : Bytes :=
  if maxTraceParentBytes < tp.length ∨ !traceParentPattern tp then []
  else if tp.take 2 = ascii "ff" then []
  else if tp.take 2 = ascii "00" ∧ tp.length ≠ traceParentV00Len then []
  else
    let parts := splitTraceParent tp
    if parts.traceID = zeroTraceID ∨ parts.parentID = zeroParentID then [] else tp

/-- A validator returns what it was given, or nothing. -/
theorem validateTraceParent_cases (tp : Bytes) :
    validateTraceParent tp = [] ∨ validateTraceParent tp = tp ∧ traceParentPattern tp := by
  rw [validateTraceParent]
  split
  · exact .inl rfl
  · next hpattern =>
    rw [not_or, Bool.not_eq_true', Bool.not_eq_false] at hpattern
    split
    · exact .inl rfl
    · split
      · exact .inl rfl
      · dsimp only
        split
        · exact .inl rfl
        · exact .inr ⟨rfl, hpattern.2⟩

theorem validateTraceState_cases (ts : Bytes) :
    validateTraceState ts = [] ∨ validateTraceState ts = ts := by
  rw [validateTraceState]
  split
  · exact .inl rfl
  · exact .inr rfl

/-- A valid `traceparent` has a trace ID. -/
theorem traceID_ne_nil {tp : Bytes} (h : validateTraceParent tp ≠ []) :
    (splitTraceParent tp).traceID ≠ [] := by
  have hpattern := ((validateTraceParent_cases tp).resolve_left h).2
  rw [traceParentPattern] at hpattern
  simp only [Bool.and_eq_true] at hpattern
  have hfield := hpattern.1.1.1.1.1.2
  rw [isHexField, Bool.and_eq_true, decide_eq_true_iff] at hfield
  intro hnil
  have hnil : (tp.drop 3).take 32 = [] := hnil
  rw [hnil] at hfield
  cases hfield.1

/-! ### Generated values -/

/-- A digit of the lower-case hexadecimal form. -/
def hexDigit (n : ℕ) : UInt8 :=
  .ofNat (if n < 10 then 0x30 + n else 0x61 + (n - 10))

/-- `hex.EncodeToString`; `ToLower` leaves it as it is. -/
def hexEncode (bs : Bytes) : Bytes :=
  bs.flatMap fun b ↦ [hexDigit (b.toNat / 16), hexDigit (b.toNat % 16)]

/-- What the source of randomness returns: the bytes, or nothing when it fails. -/
structure Random where
  traceID : Option (Vector UInt8 16)
  spanID : Option (Vector UInt8 8)

/-- Bytes that are not all zero. -/
def nonZero (bs : Bytes) : Bytes :=
  if bs.all (· == 0) then bs.set (bs.length - 1) 1 else bs

/-- A new parent. -/
def generateTraceParent (r : Random) : Bytes :=
  let traceID := nonZero ((r.traceID.map Vector.toList).getD (.replicate 16 0))
  let spanID := nonZero ((r.spanID.map Vector.toList).getD (.replicate 8 0))
  ascii "00-" ++ hexEncode traceID ++ ascii "-" ++ hexEncode spanID ++ ascii "-01"

theorem length_hexEncode (bs : Bytes) : (hexEncode bs).length = 2 * bs.length := by
  induction bs with
  | nil => rfl
  | cons b bs ih =>
    rw [hexEncode] at ih ⊢
    rw [List.flatMap_cons, List.length_append, ih, List.length_cons]
    simp only [List.length_cons, List.length_nil]
    omega

theorem isLowerHex_hexDigit : ∀ n < 16, isLowerHex (hexDigit n) := by
  decide

theorem hexDigit_eq_zero : ∀ n < 16, hexDigit n = 0x30 → n = 0 := by
  decide

theorem all_isLowerHex_hexEncode (bs : Bytes) : (hexEncode bs).all isLowerHex := by
  rw [List.all_eq_true]
  intro c hc
  obtain ⟨b, -, hc⟩ := List.mem_flatMap.mp hc
  have hb := b.toNat_lt
  rcases List.mem_cons.mp hc with rfl | hc
  · exact isLowerHex_hexDigit _ (by omega)
  · rw [List.mem_singleton.mp hc]
    exact isLowerHex_hexDigit _ (by omega)

/-- Only zeros are written as zeros. -/
theorem hexEncode_eq_zero {bs : Bytes} (h : ∀ c ∈ hexEncode bs, c = 0x30) : ∀ b ∈ bs, b = 0 := by
  intro b hb
  have hmem : ∀ c ∈ [hexDigit (b.toNat / 16), hexDigit (b.toNat % 16)], c = 0x30 :=
    fun c hc ↦ h c (List.mem_flatMap.mpr ⟨b, hb, hc⟩)
  have hlt := b.toNat_lt
  have hdiv := hexDigit_eq_zero _ (by omega) (hmem _ List.mem_cons_self)
  have hmod := hexDigit_eq_zero _ (by omega) (hmem _ (List.mem_cons_of_mem _ List.mem_cons_self))
  apply UInt8.toNat_inj.mp
  rw [UInt8.toNat_zero]
  omega

theorem length_nonZero (bs : Bytes) : (nonZero bs).length = bs.length := by
  rw [nonZero]
  split
  · exact List.length_set
  · rfl

/-- An id that is drawn is not zero. -/
theorem exists_ne_zero_nonZero {bs : Bytes} (hne : bs ≠ []) : ∃ b ∈ nonZero bs, b ≠ 0 := by
  rw [nonZero]
  split
  · refine ⟨1, List.mem_set (Nat.sub_lt (List.length_pos_iff.mpr hne) Nat.one_pos) 1, ?_⟩
    decide
  · next hall =>
    simpa using hall

theorem hexEncode_nonZero_ne {bs : Bytes} (hne : bs ≠ []) (n : ℕ) :
    hexEncode (nonZero bs) ≠ .replicate n 0x30 := by
  intro h
  obtain ⟨b, hb, hb0⟩ := exists_ne_zero_nonZero hne
  refine hb0 (hexEncode_eq_zero (fun c hc ↦ ?_) b hb)
  rw [h] at hc
  exact List.eq_of_mem_replicate hc

/-- A `traceparent` of version 00 that is put together from its fields. -/
theorem validateTraceParent_mk {traceID parentID : Bytes} (ht : isHexField 32 traceID)
    (hp : isHexField 16 parentID) (ht0 : traceID ≠ zeroTraceID) (hp0 : parentID ≠ zeroParentID) :
    let tp := ascii "00-" ++ traceID ++ ascii "-" ++ parentID ++ ascii "-01"
    validateTraceParent tp = tp := by
  intro tp
  have htl : traceID.length = 32 := of_decide_eq_true (Bool.and_eq_true_iff.mp ht).1
  have hpl : parentID.length = 16 := of_decide_eq_true (Bool.and_eq_true_iff.mp hp).1
  have hdrop : tp.drop 3 = traceID ++ (dash :: parentID ++ [dash, 0x30, 0x31]) := by
    simp only [tp, List.append_assoc]
    rfl
  have hdropAt : ∀ n s, (dash :: parentID ++ [dash, 0x30, 0x31]).drop n = s →
      tp.drop (35 + n) = s := by
    rintro n s rfl
    rw [show 35 + n = 3 + (32 + n) by omega, ← List.drop_drop, hdrop, ← List.drop_drop, ← htl,
      List.drop_left]
  have hparent : tp.drop 36 = parentID ++ [dash, 0x30, 0x31] := hdropAt 1 _ rfl
  have hflags : tp.drop 52 = [dash, 0x30, 0x31] := by
    refine hdropAt 17 _ ?_
    rw [List.cons_append, List.drop_succ_cons, ← hpl, List.drop_left]
  have hget : ∀ n s, tp.drop n = dash :: s → tp[n]? = some dash := by
    intro n s hs
    rw [← List.head?_drop, hs, List.head?_cons]
  have hlength : tp.length = 55 := by
    have := congrArg List.length hflags
    rw [List.length_drop] at this
    simp only [List.length_cons, List.length_nil] at this
    omega
  have hsplit : splitTraceParent tp = ⟨traceID, parentID⟩ := by
    rw [splitTraceParent, hdrop, hparent, ← htl, List.take_left, ← hpl, List.take_left]
  have hpattern : traceParentPattern tp := by
    have htrace := congrArg TraceParentFields.traceID hsplit
    have hspan := congrArg TraceParentFields.parentID hsplit
    have hflags' : tp.drop 53 = [0x30, 0x31] := by
      rw [show 53 = 52 + 1 by omega, ← List.drop_drop, hflags]
      rfl
    have hend : tp.drop 55 = [] := List.drop_eq_nil_of_le hlength.le
    dsimp only [splitTraceParent] at htrace hspan
    rw [traceParentPattern, htrace, hspan, ht, hp, hget 35 _ (hdropAt 0 _ rfl), hget 52 _ hflags,
      hflags', hend]
    rfl
  rw [validateTraceParent, if_neg, if_neg, if_neg, hsplit, if_neg]
  · exact not_or.mpr ⟨ht0, hp0⟩
  · exact fun h ↦ h.2 hlength
  · have hversion : tp.take 2 = ascii "00" := rfl
    rw [hversion]
    decide
  · rw [hlength, hpattern]
    decide

/-- Encoded bytes are a field. -/
theorem isHexField_hexEncode {n : ℕ} {bs : Bytes} (h : bs.length = n) :
    isHexField (2 * n) (hexEncode (nonZero bs)) := by
  rw [isHexField, length_hexEncode, length_nonZero, h, all_isLowerHex_hexEncode]
  simp

/-- A new parent is valid. -/
theorem validateTraceParent_generate (r : Random) :
    validateTraceParent (generateTraceParent r) = generateTraceParent r := by
  have hlength : ∀ {n} (bs : Option (Vector UInt8 n)),
      ((bs.map Vector.toList).getD (.replicate n 0)).length = n := by
    intro n bs
    cases bs with
    | none => exact List.length_replicate
    | some bs => exact Vector.length_toList
  have hne : ∀ {bs : Bytes} {n}, bs.length = n → 0 < n → bs ≠ [] := by
    rintro _ n h hn rfl
    rw [List.length_nil] at h
    omega
  exact validateTraceParent_mk (isHexField_hexEncode (hlength r.traceID))
    (isHexField_hexEncode (hlength r.spanID))
    (hexEncode_nonZero_ne (hne (hlength r.traceID) (by omega)) 32)
    (hexEncode_nonZero_ne (hne (hlength r.spanID) (by omega)) 16)

end Trace
