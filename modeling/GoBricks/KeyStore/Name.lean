import GoBricks.Lib.Segments
import GoBricks.Lib.Text

/-!
# Key names

The grammar of key names: a keystore entry is named by a dotted path of segments, and a
**generation** of a sealing family by the family's name and a marker, `.v2` for a family with a dot
and `-v2` for one without.

`fold` reads a hyphen as a dot. Whether a name carries a marker can be seen from its fold
(`isSome_splitMarker_iff`), and of a generation the fold gives the version and the fold of the
family (`fold_generationName`).
-/

open Text List Option

namespace KeyName

/-- How long the name of a family may be. -/
def maxLogicalLen : ℕ := 64

/-- The separator of segments. -/
def sep : UInt8 := 0x2E

/-- The marker of families without dots. -/
def hyphen : UInt8 := 0x2D

/-- The names of an entry's fields. -/
def fieldSegments : List Bytes :=
  [ascii "public", ascii "private", ascii "secret", ascii "pkcs12"]

/-! ### Bytes -/

/-- A decimal digit. -/
def isDigit (b : UInt8) : Bool :=
  0x30 ≤ b && b ≤ 0x39

/-- `[a-z0-9-]` -/
def isSectionByte (b : UInt8) : Bool :=
  0x61 ≤ b && b ≤ 0x7A || isDigit b || b == hyphen

/-- `[A-Za-z0-9_-]` -/
def isKidByte (b : UInt8) : Bool :=
  0x41 ≤ b && b ≤ 0x5A || b == 0x5F || isSectionByte b

/-- `^v\d+$` -/
def isMarkerSegment (seg : Bytes) : Bool :=
  seg.head? == some 0x76 && seg.tail != [] && seg.tail.all isDigit

/-- `-v\d+$`: what stands before the match, and the match after its hyphen. -/
def hyphenMarker (name : Bytes) : Option (Bytes × Bytes) :=
  let digits := name.reverse.takeWhile isDigit
  let rest := name.reverse.dropWhile isDigit
  if digits ≠ [] ∧ [0x76, hyphen].isPrefixOf rest then
    some ((rest.drop 2).reverse, 0x76 :: digits.reverse)
  else none

/-! ### Names -/

/-- A segment of a name. -/
def validSectionName (name : Bytes) : Bool :=
  name != [] && name.all isSectionByte

/-- Segments with dots between them. -/
def validName (name : Bytes) : Bool :=
  (name.splitOn sep).all validSectionName

/-- The first field word that follows a dot. -/
def reservedAfterDot (name : Bytes) : Option Bytes :=
  (cut sep name).bind fun p ↦ (p.2.splitOn sep).find? (fieldSegments.contains ·)

/-- A name that may be an entry's. -/
def validEntryName (name : Bytes) : Bool :=
  validName name && (reservedAfterDot name).isNone

/-- The name with hyphens as dots, as an environment variable has them. -/
def fold (name : Bytes) : Bytes :=
  replaceAll [hyphen] [sep] name

/-- A name is one of the segments before another. -/
def isDottedPrefix (pre name : Bytes) : Bool :=
  (pre ++ [sep]).isPrefixOf name

/-! ### Look-alikes -/

/-- The loop of `firstFoldClash`, with the names seen by their folds. -/
def firstFoldClashFrom (seen : List (Bytes × Bytes)) : List Bytes → Option (Bytes × Bytes)
  | [] => none
  | name :: rest =>
    match seen.lookup (fold name) with
    | some first => some (first, name)
    | none => firstFoldClashFrom ((fold name, name) :: seen) rest

/-- The first two names that fold equal. -/
def firstFoldClash (names : List Bytes) : Option (Bytes × Bytes) :=
  firstFoldClashFrom [] names

/-- The first two names of which one nests in the other. -/
def firstNesting (nests : Bytes → Bytes → Bool) : List Bytes → Option (Bytes × Bytes)
  | [] => none
  | a :: rest =>
    (rest.findSome? fun b ↦
      if nests a b then some (a, b) else if nests b a then some (b, a) else none).or
      (firstNesting nests rest)

/-- The first two names of which one is a path to the other. -/
def firstDottedPrefix (names : List Bytes) : Option (Bytes × Bytes) :=
  firstNesting isDottedPrefix names

/-- A name is, when folded, a path to another; one of them has a dot. -/
def isFoldedPrefix (pre name : Bytes) : Bool :=
  (pre.contains sep || name.contains sep) && isDottedPrefix (fold pre) (fold name)

/-- The first two names of which one is a folded path to the other. -/
def firstFoldedPrefix (names : List Bytes) : Option (Bytes × Bytes) :=
  firstNesting isFoldedPrefix names

/-! ### Generations -/

/-- `^[A-Za-z0-9_-]+(\.[A-Za-z0-9_-]+)*$` -/
def validKid (kid : Bytes) : Bool :=
  (kid.splitOn sep).all fun run ↦ run != [] && run.all isKidByte

/-- `^v[1-9]\d*$` -/
def validVersion (version : Bytes) : Bool :=
  isMarkerSegment version && version.tail.head? != some 0x30

/-- What is wrong with a name of a family. -/
inductive LogicalFault
  | ok
  | notKid
  | tooLong
  | endsInMarker
  deriving DecidableEq

/-- What a name is read as. -/
inductive Form
  | ordinary
  | generation
  | malformed
  deriving DecidableEq

/-- The marker of a name: what stands before it, and the version. -/
def splitMarker (name : Bytes) : Option (Bytes × Bytes) :=
  match cutLast sep name with
  | some (before, last) =>
    if isMarkerSegment last then some (before, last) else hyphenMarker name
  | none => hyphenMarker name

/-- What a family may be called. -/
def checkLogical (logical : Bytes) : LogicalFault :=
  if !validKid logical then .notKid
  else if maxLogicalLen < logical.length then .tooLong
  else if (splitMarker logical).isSome then .endsInMarker
  else .ok

/-- `GenerationName`: families with dots have a dot before the version. -/
def generationName (logical version : Bytes) : Bytes :=
  if logical.contains sep then logical ++ sep :: version else logical ++ hyphen :: version

/-- `SplitGeneration`: the family, the version and the form of a name. -/
def splitGeneration (name : Bytes) : Bytes × Bytes × Form :=
  match splitMarker name with
  | none => ([], [], .ordinary)
  | some (logical, version) =>
    if checkLogical logical ≠ .ok ∨ validVersion version = false ∨
        generationName logical version ≠ name then
      (logical, version, .malformed)
    else (logical, version, .generation)

/-! ### Folds -/

theorem fold_eq_map (name : Bytes) :
    fold name = name.map fun b ↦ if b = hyphen then sep else b := by
  rw [fold, replaceAll_singleton, map_eq_flatMap]
  congr 1
  funext b
  split
  · rfl
  · rfl

theorem fold_append (a b : Bytes) : fold (a ++ b) = fold a ++ fold b := by
  simp only [fold_eq_map, map_append]

variable {name : Bytes}

/-- A name without a hyphen is its own fold. -/
theorem fold_eq_self (h : hyphen ∉ name) : fold name = name := by
  have hkeep : ∀ b ∈ name, (if b = hyphen then sep else b) = id b := fun b hb ↦
    if_neg fun (heq : b = hyphen) ↦ h (heq ▸ hb)
  rw [fold_eq_map, List.map_congr_left hkeep, List.map_id]

theorem hyphen_not_mem_of_sep_not_mem_fold (h : sep ∉ fold name) : hyphen ∉ name := by
  rw [fold_eq_map, List.mem_map] at h
  exact fun hmem ↦ h ⟨hyphen, hmem, if_pos rfl⟩

/-- A marker is the letter and its digits. -/
theorem IsMarkerSegment.cases {seg : Bytes} (h : isMarkerSegment seg) :
    ∃ digits, seg = 0x76 :: digits ∧ digits ≠ [] ∧ ∀ b ∈ digits, isDigit b := by
  simp only [isMarkerSegment, Bool.and_eq_true, beq_iff_eq, bne_iff_ne, List.all_eq_true] at h
  obtain ⟨⟨hhead, htail⟩, hdigits⟩ := h
  cases seg with
  | nil => cases hhead
  | cons b digits =>
    cases hhead
    exact ⟨digits, rfl, htail, hdigits⟩

/-- A marker is one segment. -/
theorem sep_not_mem_of_isMarkerSegment {seg : Bytes} (h : isMarkerSegment seg) : sep ∉ seg := by
  obtain ⟨digits, rfl, -, hdigits⟩ := IsMarkerSegment.cases h
  rintro (_ | ⟨_, hmem⟩)
  exact absurd (hdigits sep hmem) (by decide)

theorem hyphen_not_mem_of_isMarkerSegment {seg : Bytes} (h : isMarkerSegment seg) :
    hyphen ∉ seg := by
  obtain ⟨digits, rfl, -, hdigits⟩ := IsMarkerSegment.cases h
  rintro (_ | ⟨_, hmem⟩)
  exact absurd (hdigits hyphen hmem) (by decide)

/-! ### Markers -/

variable {version : Bytes}

/-- A marker after a hyphen is found. -/
theorem hyphenMarker_append (hversion : isMarkerSegment version) (logical : Bytes) :
    hyphenMarker (logical ++ hyphen :: version) = some (logical, version) := by
  obtain ⟨digits, rfl, hne, hdigits⟩ := IsMarkerSegment.cases hversion
  have hrev : (logical ++ hyphen :: 0x76 :: digits).reverse =
      digits.reverse ++ 0x76 :: hyphen :: logical.reverse := by simp
  have hdigits : ∀ b ∈ digits.reverse, isDigit b = true := fun b hb ↦
    hdigits b (mem_reverse.mp hb)
  have htake :
      (logical ++ hyphen :: 0x76 :: digits).reverse.takeWhile isDigit = digits.reverse := by
    rw [hrev, takeWhile_append_of_pos hdigits,
      takeWhile_cons_of_neg (by decide), append_nil]
  have hdrop : (logical ++ hyphen :: 0x76 :: digits).reverse.dropWhile isDigit =
      0x76 :: hyphen :: logical.reverse := by
    rw [hrev, dropWhile_append_of_pos hdigits, dropWhile_cons_of_neg (by decide)]
  rw [hyphenMarker, htake, hdrop, if_pos ⟨by simpa using hne, rfl⟩]
  simp

variable {logical : Bytes}

/-- What is found is a marker after a hyphen. -/
theorem eq_of_hyphenMarker (h : hyphenMarker name = some (logical, version)) :
    name = logical ++ hyphen :: version ∧ isMarkerSegment version := by
  rw [hyphenMarker] at h
  split at h
  · next hguard =>
    obtain ⟨hne, hpre⟩ := hguard
    obtain ⟨before, hbefore⟩ := List.isPrefixOf_iff_prefix.mp hpre
    rw [← hbefore] at h
    cases h
    have hsplit := List.takeWhile_append_dropWhile (p := isDigit) (l := name.reverse)
    rw [← hbefore] at hsplit
    have hname := congrArg List.reverse hsplit
    rw [List.reverse_reverse] at hname
    refine ⟨?_, ?_⟩
    · rw [show List.drop 2 ([0x76, hyphen] ++ before) = before from rfl]
      refine hname.symm.trans ?_
      simp only [List.reverse_append, List.append_assoc, List.reverse_cons, List.nil_append,
        List.cons_append]
    · simp only [isMarkerSegment, List.head?_cons, List.tail_cons, beq_self_eq_true, Bool.true_and,
        Bool.and_eq_true, bne_iff_ne, List.all_eq_true]
      refine ⟨by simpa using hne, fun b hb ↦ ?_⟩
      exact List.mem_takeWhile_imp (List.mem_reverse.mp hb)
  · cases h

/-- A marker is after a dot or after a hyphen. -/
theorem eq_of_splitMarker (h : splitMarker name = some (logical, version)) :
    (name = logical ++ sep :: version ∨ name = logical ++ hyphen :: version) ∧
      isMarkerSegment version := by
  rw [splitMarker] at h
  split at h
  · next before last hcut =>
    split at h
    · next hmarker =>
      cases h
      exact ⟨.inl (eq_of_cutLast hcut), hmarker⟩
    · obtain ⟨hname, hmarker⟩ := eq_of_hyphenMarker h
      exact ⟨.inr hname, hmarker⟩
  · obtain ⟨hname, hmarker⟩ := eq_of_hyphenMarker h
    exact ⟨.inr hname, hmarker⟩

theorem isSome_splitMarker_append (hversion : isMarkerSegment version) (logical : Bytes)
    {c : UInt8} (hc : c = sep ∨ c = hyphen) : (splitMarker (logical ++ c :: version)).isSome := by
  rcases hc with rfl | rfl
  · rw [splitMarker, cutLast_append (sep_not_mem_of_isMarkerSegment hversion)]
    dsimp only
    rw [if_pos hversion]
    rfl
  · rw [splitMarker, hyphenMarker_append hversion]
    split
    · split
      · rfl
      · rfl
    · rfl

/-- A name carries a marker exactly if its fold ends in a version after a dot. -/
theorem isSome_splitMarker_iff :
    (splitMarker name).isSome ↔ ∃ a version, isMarkerSegment version ∧ fold name = a ++ sep ::
    version := by
  constructor
  · intro h
    obtain ⟨⟨logical, version⟩, hsplit⟩ := isSome_iff_exists.mp h
    obtain ⟨hname, hmarker⟩ := eq_of_splitMarker hsplit
    have hversion := fold_eq_self (hyphen_not_mem_of_isMarkerSegment hmarker)
    refine ⟨fold logical, version, hmarker, ?_⟩
    rcases hname with rfl | rfl
    · rw [fold_append, ← singleton_append, fold_append, hversion]
      rfl
    · rw [fold_append, ← singleton_append, fold_append, hversion]
      rfl
  · rintro ⟨a, version, hmarker, hfold⟩
    rw [fold_eq_map, map_eq_append_iff] at hfold
    obtain ⟨logical, rest, rfl, -, hrest⟩ := hfold
    obtain ⟨c, version', rfl, hc, hversion'⟩ := map_eq_cons_iff.mp hrest
    rw [← fold_eq_map] at hversion'
    have hfree : hyphen ∉ version' := by
      refine hyphen_not_mem_of_sep_not_mem_fold ?_
      rw [hversion']
      exact sep_not_mem_of_isMarkerSegment hmarker
    rw [fold_eq_self hfree] at hversion'
    subst hversion'
    refine isSome_splitMarker_append hmarker logical ?_
    by_cases hhyphen : c = hyphen
    · exact .inr hhyphen
    · rw [if_neg hhyphen] at hc
      exact .inl hc

/-! ### Forms -/

/-- An ordinary name is one without a marker. -/
theorem form_eq_ordinary_iff :
    (splitGeneration name).2.2 = .ordinary ↔ splitMarker name = none := by
  rw [splitGeneration]
  split
  · next hnone => exact iff_of_true rfl hnone
  · next logical version hsome =>
    refine iff_of_false ?_ (by rw [hsome]; exact some_ne_none _)
    split
    · exact nofun
    · exact nofun

/-- A generation is the name that its parts make. -/
theorem of_form_eq_generation (h : splitGeneration name = (logical, version, .generation)) :
    name = generationName logical version ∧ isMarkerSegment version := by
  rw [splitGeneration] at h
  split at h
  · cases h
  · next l v hsplit =>
    split at h
    · cases h
    · next hguard =>
      cases h
      rw [not_or, not_or, not_not, not_not, Bool.not_eq_false] at hguard
      exact ⟨hguard.2.2.symm, (eq_of_splitMarker hsplit).2⟩

/-- The fold of a generation is that of its logical name, and the marker. -/
theorem fold_generationName (logical : Bytes) (hversion : isMarkerSegment version) :
    fold (generationName logical version) = fold logical ++ sep :: version := by
  have hself := fold_eq_self (hyphen_not_mem_of_isMarkerSegment hversion)
  rw [generationName]
  split
  · rw [fold_append, ← singleton_append, fold_append, hself]
    rfl
  · rw [fold_append, ← singleton_append, fold_append, hself]
    rfl

/-- Two generations that fold equal are of one version, and their families fold equal. -/
theorem fold_generationName_inj {logical' version' : Bytes} (hversion : isMarkerSegment version)
    (hversion' : isMarkerSegment version')
    (h : fold (generationName logical version) = fold (generationName logical' version')) :
    fold logical = fold logical' ∧ version = version' := by
  rw [fold_generationName logical hversion, fold_generationName logical' hversion'] at h
  have hcut := congrArg (cutLast sep) h
  rw [cutLast_append (sep_not_mem_of_isMarkerSegment hversion),
    cutLast_append (sep_not_mem_of_isMarkerSegment hversion')] at hcut
  exact Prod.mk.inj (Option.some.inj hcut)

/-! ### Entry names -/

/-- No segment but the first may be a field of an entry. -/
theorem reservedAfterDot_eq_none_iff :
    reservedAfterDot name = none ↔ ∀ seg ∈ (name.splitOn sep).tail, seg ∉ fieldSegments := by
  rw [reservedAfterDot]
  by_cases hsep : sep ∈ name
  · obtain ⟨a, b, rfl, ha⟩ := eq_append_cons_of_mem hsep
    rw [cut_append ha, bind_some, splitOn_append_cons_self,
      splitOn_eq_singleton ha, singleton_append, tail_cons, List.find?_eq_none]
    simp
  · rw [cut_eq_none hsep, splitOn_eq_singleton hsep]
    simp

theorem validSegment_of_validName {seg : Bytes} (h : validName name)
    (hseg : seg ∈ name.splitOn sep) : validSectionName seg :=
  all_eq_true.mp h seg hseg

end KeyName
