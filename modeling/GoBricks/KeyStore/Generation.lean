import GoBricks.KeyStore.Name
import Mathlib.Algebra.Group.Nat.Defs

/-!
# Generations of a family

The name of a generation gives its family and its version back (`splitGeneration_generationName`),
because a family has no marker at its end and a version no separator inside. The keystore sorts the
generations of a family by their versions as texts, the shorter first, which is the order of the
numbers (`sign_compareGenerations`).
-/

open Text List Bool

namespace KeyName

variable {logical version version' : Bytes}

/-- A canonical version is a marker segment. -/
theorem isMarkerSegment_of_validVersion (h : validVersion version) : isMarkerSegment version :=
  (and_eq_true_iff.mp h).1

/-- The marker of a generation's name is the one that its family fixes. -/
theorem splitMarker_generationName (logical : Bytes) (hversion : isMarkerSegment version) :
    splitMarker (generationName logical version) = some (logical, version) := by
  have hsep := sep_not_mem_of_isMarkerSegment hversion
  rw [generationName]
  split
  · rw [splitMarker, cutLast_append hsep]
    dsimp only
    rw [if_pos hversion]
  · next hlogical =>
    -- Without a dot there is no last segment to look at.
    have hfree : sep ∉ logical ++ hyphen :: version := by
      rw [mem_append, mem_cons]
      rintro (hmem | heq | hmem)
      · exact hlogical (contains_iff_mem.mpr hmem)
      · exact absurd heq (by decide)
      · exact hsep hmem
    rw [splitMarker]
    split
    · next before last hcut =>
      rw [eq_of_cutLast hcut] at hfree
      exact absurd (mem_append_right _ mem_cons_self) hfree
    · exact hyphenMarker_append hversion logical

/-- **A generation's name gives its family and its version back.** -/
theorem splitGeneration_generationName (hlogical : checkLogical logical = .ok)
    (hversion : validVersion version) :
    splitGeneration (generationName logical version) = (logical, version, .generation) := by
  rw [splitGeneration,
    splitMarker_generationName logical (isMarkerSegment_of_validVersion hversion)]
  simp [hlogical, hversion]

/-- The name is that of a generation of the family. -/
def IsGenerationOf (name logical : Bytes) : Prop :=
  checkLogical logical = .ok ∧
    ∃ version, validVersion version ∧ name = generationName logical version

/-! ### Versions -/

/-- The number that digits denote. -/
def number : Bytes → ℕ
  | [] => 0
  | c :: digits => (c.toNat - 0x30) * 10 ^ digits.length + number digits

/-- The number of a version. -/
def versionNumber (version : Bytes) : ℕ :=
  number version.tail

/-- `strings.Compare`. -/
def compareStrings (s t : Bytes) : ℤ :=
  if s = t then 0 else if le s t then -1 else 1

/-- A key of a family, by its version. -/
structure Generation where
  logical : Bytes
  version : Bytes
  deriving DecidableEq

/-- The shorter version is the smaller one. -/
def compareGenerations (a b : Generation) : ℤ :=
  let c : ℤ := a.version.length - b.version.length
  if c ≠ 0 then c else compareStrings a.version b.version

theorem isDigit_iff {c : UInt8} : isDigit c ↔ 0x30 ≤ c.toNat ∧ c.toNat ≤ 0x39 := by
  simp [isDigit, UInt8.le_iff_toNat_le]

/-- A number has as many digits as it needs. -/
theorem number_lt {digits : Bytes} (h : ∀ c ∈ digits, isDigit c) :
    number digits < 10 ^ digits.length := by
  induction digits with
  | nil => simp [number]
  | cons c digits ih =>
    obtain ⟨hc, hdigits⟩ := forall_mem_cons.mp h
    have hrest := ih hdigits
    have hdigit : c.toNat - 0x30 ≤ 9 := by
      have := isDigit_iff.mp hc
      omega
    have hle := Nat.mul_le_mul_right (10 ^ digits.length) hdigit
    rw [number, length_cons, pow_succ]
    omega

/-- A number without leading zeros is at least as large as its length says. -/
theorem le_number {c : UInt8} (hc : isDigit c) (hne : c ≠ 0x30) (digits : Bytes) :
    10 ^ digits.length ≤ number (c :: digits) := by
  have hpos : 1 ≤ c.toNat - 0x30 := by
    have hbounds := isDigit_iff.mp hc
    have hne : c.toNat ≠ 0x30 := fun h ↦ hne (UInt8.toNat.inj h)
    omega
  have hle := Nat.mul_le_mul_right (10 ^ digits.length) hpos
  rw [number]
  omega

/-- Texts of digits of one length are ordered as their numbers. -/
theorem le_iff_number_le {s t : Bytes} (hs : ∀ c ∈ s, isDigit c) (ht : ∀ c ∈ t, isDigit c)
    (hlength : s.length = t.length) : le s t ↔ number s ≤ number t := by
  induction s generalizing t with
  | nil => simp [le, number]
  | cons a s ih =>
    cases t with
    | nil => cases hlength
    | cons b t =>
      obtain ⟨ha, hs⟩ := forall_mem_cons.mp hs
      obtain ⟨hb, ht⟩ := forall_mem_cons.mp ht
      have hlength : s.length = t.length := by simpa using hlength
      have hns := number_lt hs
      have hnt := number_lt ht
      have hda := isDigit_iff.mp ha
      have hdb := isDigit_iff.mp hb
      have hih := ih hs ht hlength
      rw [hlength] at hns
      simp only [le, number, hlength, or_eq_true, and_eq_true, decide_eq_true_eq,
        beq_iff_eq, UInt8.lt_iff_toNat_lt, hih]
      -- The first digit decides, unless it is the same.
      rcases lt_trichotomy a.toNat b.toNat with hlt | heq | hgt
      · have hmul := Nat.mul_le_mul_right (10 ^ t.length)
          (show a.toNat - 0x30 + 1 ≤ b.toNat - 0x30 by omega)
        rw [Nat.succ_mul] at hmul
        exact iff_of_true (.inl hlt) (by omega)
      · obtain rfl := UInt8.toNat.inj heq
        simp
      · have hmul := Nat.mul_le_mul_right (10 ^ t.length)
          (show b.toNat - 0x30 + 1 ≤ a.toNat - 0x30 by omega)
        rw [Nat.succ_mul] at hmul
        refine iff_of_false ?_ (by omega)
        rintro (hlt | ⟨rfl, -⟩) <;> omega

/-- The digits of a version, of which the first is not zero. -/
theorem digits_of_validVersion (h : validVersion version) :
    ∃ c digits, version = 0x76 :: c :: digits ∧ c ≠ 0x30 ∧ ∀ d ∈ c :: digits, isDigit d := by
  obtain ⟨digits, rfl, hne, hdigits⟩ :=
    IsMarkerSegment.cases (isMarkerSegment_of_validVersion h)
  cases digits with
  | nil => exact absurd rfl hne
  | cons c digits =>
    refine ⟨c, digits, rfl, ?_, hdigits⟩
    rintro rfl
    simp [validVersion] at h

/-- **The keystore orders versions as the numbers they denote**, whatever their lengths. -/
theorem sign_compareGenerations {a b : Generation} (ha : validVersion a.version)
    (hb : validVersion b.version) :
    (compareGenerations a b).sign =
      ((versionNumber a.version : ℤ) - versionNumber b.version).sign := by
  obtain ⟨la, va⟩ := a
  obtain ⟨lb, vb⟩ := b
  obtain ⟨c, s, rfl, hc, hs⟩ := digits_of_validVersion ha
  obtain ⟨d, t, rfl, hd, ht⟩ := digits_of_validVersion hb
  have hlows := le_number (hs c mem_cons_self) hc s
  have hlowt := le_number (ht d mem_cons_self) hd t
  have hups := number_lt hs
  have hupt := number_lt ht
  rw [length_cons] at hups hupt
  simp only [compareGenerations, versionNumber, tail_cons, length_cons]
  rcases lt_trichotomy s.length t.length with hlt | heq | hgt
  · have hpow := Nat.pow_le_pow_right (n := 10) (by decide) hlt
    rw [if_pos (by omega), Int.sign_eq_neg_one_of_neg (by omega),
      Int.sign_eq_neg_one_of_neg (by omega)]
  · have hst := le_iff_number_le hs ht (by simp [heq])
    have hts := le_iff_number_le ht hs (by simp [heq])
    have hcons : le (0x76 :: c :: s) (0x76 :: d :: t) = le (c :: s) (d :: t) := by simp [le]
    rw [if_neg (by omega), compareStrings, hcons]
    by_cases hsame : c :: s = d :: t
    · rw [if_pos (congrArg _ hsame), hsame, Int.sub_self]
    · rw [if_neg fun h ↦ hsame (cons_inj_right _ |>.mp h)]
      by_cases hle : le (c :: s) (d :: t)
      · have hlt : ¬number (d :: t) ≤ number (c :: s) := fun h ↦
          hsame (le_antisymm hle (hts.mpr h))
        rw [if_pos hle, Int.sign_eq_neg_one_of_neg (a := _ - _) (by omega)]
        rfl
      · have hgt := mt hst.mpr hle
        rw [if_neg hle, Int.sign_eq_one_of_pos (a := _ - _) (by omega)]
        rfl
  · have hpow := Nat.pow_le_pow_right (n := 10) (by decide) hgt
    rw [if_pos (by omega), Int.sign_eq_one_of_pos (by omega), Int.sign_eq_one_of_pos (by omega)]

/-! ### The result -/

/-- **Names of generations.** A name made of a family and a canonical version is split into the two;
so no two generations share a name, and a name is of one family only. If the family and the version
of a malformed name are in order, the name made of the two is well formed. Versions are ordered as
the numbers they denote. -/
theorem generation_names :
    (∀ f v, checkLogical f = .ok → validVersion v →
      splitGeneration (generationName f v) = (f, v, .generation)) ∧
    (∀ f v f' v', checkLogical f = .ok → validVersion v → checkLogical f' = .ok →
      validVersion v' → generationName f v = generationName f' v' → f = f' ∧ v = v') ∧
    (∀ name f f', IsGenerationOf name f → IsGenerationOf name f' → f = f') ∧
    (∀ name f v, splitGeneration name = (f, v, .malformed) → checkLogical f = .ok →
      validVersion v → splitGeneration (generationName f v) = (f, v, .generation)) ∧
    ∀ a b : Generation, validVersion a.version → validVersion b.version →
      (compareGenerations a b).sign =
        ((versionNumber a.version : ℤ) - versionNumber b.version).sign := by
  have hinj (f v f' v' : Bytes) (hf : checkLogical f = .ok) (hv : validVersion v)
      (hf' : checkLogical f' = .ok) (hv' : validVersion v')
      (h : generationName f v = generationName f' v') : f = f' ∧ v = v' := by
    have hsplit := congrArg splitGeneration h
    rw [splitGeneration_generationName hf hv, splitGeneration_generationName hf' hv'] at hsplit
    simpa using hsplit
  refine ⟨fun f v ↦ splitGeneration_generationName, hinj, ?_, ?_, fun a b ↦ sign_compareGenerations⟩
  · rintro name f f' ⟨hf, v, hv, rfl⟩ ⟨hf', v', hv', hname⟩
    exact (hinj f v f' v' hf hv hf' hv' hname).1
  · exact fun _ f v _ ↦ splitGeneration_generationName

/-- Generations of two families. The malformed name has the marker of the other kind of family. -/
theorem generation_names_payments :
    IsGenerationOf (ascii "payments-v2") (ascii "payments") ∧
    splitGeneration (ascii "payments.v2") = (ascii "payments", ascii "v2", .malformed) ∧
    splitGeneration (generationName (ascii "payments") (ascii "v2")) =
      (ascii "payments", ascii "v2", .generation) ∧
    generationName (ascii "payments") (ascii "v2") ≠ generationName (ascii "refunds") (ascii "v2") ∧
    ¬IsGenerationOf (ascii "payments-v2") (ascii "refunds") ∧
    (compareGenerations ⟨ascii "payments", ascii "v2"⟩ ⟨ascii "payments", ascii "v10"⟩).sign =
      -1 := by
  obtain ⟨-, hinj, hfamily, hmalformed, hcompare⟩ := generation_names
  have hpayments : checkLogical (ascii "payments") = .ok := by decide +kernel
  have hrefunds : checkLogical (ascii "refunds") = .ok := by decide +kernel
  have hv : validVersion (ascii "v2") := by decide +kernel
  have hname : IsGenerationOf (ascii "payments-v2") (ascii "payments") :=
    ⟨hpayments, ascii "v2", hv, by decide +kernel⟩
  have hsplit : splitGeneration (ascii "payments.v2") =
      (ascii "payments", ascii "v2", .malformed) := by decide +kernel
  refine ⟨hname, hsplit, hmalformed _ _ _ hsplit hpayments hv, fun h ↦ ?_, fun h ↦ ?_, ?_⟩
  · exact absurd (hinj _ _ _ _ hpayments hv hrefunds hv h).1 (by decide)
  · exact absurd (hfamily _ _ _ hname h) (by decide)
  · rw [hcompare _ _ hv (by decide +kernel)]
    decide +kernel

end KeyName
