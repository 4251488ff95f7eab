import GoBricks.KeyStore.Name
import GoBricks.Lib.Assign
import Mathlib.Data.List.Nodup
import Mathlib.Data.List.Pairwise

/-!
# The names of a keystore

The entry names of a keystore are judged one by one and then as a set. Ordinary names and
generations are held to different rules: no two of the first may fold equal, and of the second no
two families.

`checkKeyNames_iff` says what the checks accept, and `Apart.fold_inj` that in an accepted set
no two names fold equal, whatever their forms.
-/

open Text KeyName List Option

namespace KeyStore

/-- Where entries are configured. -/
def fieldKeystoreKeys : Bytes := ascii "keystore.keys"

/-- What is wrong with the name of an entry, with the data of the message. -/
inductive NameFault
  | emptySegment (name : Bytes)
  | unreachable (name : Bytes)
  | reservedWord (name word : Bytes)
  | dottedPrefix (pre name : Bytes)
  /-- The two differ only in hyphens and dots. -/
  | lookAlike (earlier name : Bytes)
  | familyTooLong (logical : Bytes)
  | noFamily (logical : Bytes)
  | versionNotCanonical (logical version : Bytes)
  /-- A dotted family has its generations in a last segment. -/
  | wantsSegment (logical version : Bytes)
  | wantsHyphen (logical version : Bytes)
  | familiesAlike (earlier earlierName family familyName : Bytes)
  | familiesNest (family other : Bytes) (asWritten : Bool)
  deriving DecidableEq

/-- A fault and the field that it is reported at. -/
structure NameError where
  field : Bytes
  fault : NameFault
  deriving DecidableEq

/-- The field of an entry. -/
def entryPath (name : Bytes) : Bytes :=
  fieldKeystoreKeys ++ sep :: name

/-- Two dots meet, or one is at an end. -/
def hasEmptySegment (name : Bytes) : Bool :=
  (name.splitOn sep).contains []

/-- What the name of an entry may be. -/
def checkKeyName (name : Bytes) : Except NameError Unit :=
  if !validName name then
    if hasEmptySegment name then .error ⟨fieldKeystoreKeys, .emptySegment name⟩
    else .error ⟨entryPath name, .unreachable name⟩
  else match reservedAfterDot name with
  | some word => .error ⟨fieldKeystoreKeys, .reservedWord name word⟩
  | none => .ok ()

/-- The names without a marker. -/
def ordinaryNames (names : List Bytes) : List Bytes :=
  names.filter fun name ↦ (splitGeneration name).2.2 = .ordinary

/-- The rules for the set of all names. -/
def checkKeyNameSet (names : List Bytes) : Except NameError Unit :=
  match firstDottedPrefix names with
  | some (pre, name) => .error ⟨entryPath pre, .dottedPrefix pre name⟩
  | none =>
    match firstFoldClash (ordinaryNames names) with
    | some (earlier, name) => .error ⟨entryPath name, .lookAlike earlier name⟩
    | none => .ok ()

/-- The families of the generations among the names, each with its versions. -/
def generationFamilies (names : List Bytes) : List (Bytes × List Bytes) :=
  names.foldl (fun families name ↦
    let p := splitGeneration name
    if p.2.2 = .generation then
      Assign.assign p.1 ((families.lookup p.1).getD [] ++ [p.2.1]) families
    else families) []

/-- What is wrong with a name that is almost a generation's. -/
def malformedGenerationError (name logical version : Bytes) : NameError :=
  ⟨entryPath name,
    if checkLogical logical = .tooLong then .familyTooLong logical
    else if checkLogical logical ≠ .ok then .noFamily logical
    else if !validVersion version then .versionNotCanonical logical version
    else if logical.contains sep then .wantsSegment logical version
    else .wantsHyphen logical version⟩

/-- The name of the first generation of a family. -/
def firstGeneration (families : List (Bytes × List Bytes)) (family : Bytes) : Bytes :=
  generationName family (((families.lookup family).bind List.head?).getD [])

/-- The rules for generations and their families. -/
def checkKeyFamilies (names : List Bytes) : Except NameError Unit :=
  match names.find? fun name ↦ (splitGeneration name).2.2 = .malformed with
  | some name =>
    .error (malformedGenerationError name (splitGeneration name).1 (splitGeneration name).2.1)
  | none =>
    let families := generationFamilies names
    let sorted := sort (families.map Prod.fst)
    match firstFoldClash sorted with
    | some (earlier, family) =>
      .error ⟨fieldKeystoreKeys, .familiesAlike earlier (firstGeneration families earlier) family
        (firstGeneration families family)⟩
    | none =>
      match firstFoldedPrefix sorted with
      | some (family, other) =>
        .error ⟨fieldKeystoreKeys, .familiesNest family other (isDottedPrefix family other)⟩
      | none => .ok ()

/-- What `checkKeyStore` holds the names of the entries to. -/
def checkKeyNames (keys : List Bytes) : Except NameError Unit := do
  let names := sort keys
  names.forM checkKeyName
  checkKeyNameSet names
  checkKeyFamilies names

/-! ### The rules -/

/-- A family of the set. -/
def IsFamily (names : List Bytes) (family : Bytes) : Prop :=
  ∃ name ∈ names, ∃ version, splitGeneration name = (family, version, .generation)

/-- The rules for a set of names. -/
structure Apart (names : List Bytes) : Prop where
  noPrefix : ∀ a ∈ names, ∀ b ∈ names, ¬isDottedPrefix a b
  ordinary : ∀ a ∈ names, ∀ b ∈ names, (splitGeneration a).2.2 = .ordinary →
    (splitGeneration b).2.2 = .ordinary → fold a = fold b → a = b
  wellFormed : ∀ a ∈ names, (splitGeneration a).2.2 ≠ .malformed
  families : ∀ a b, IsFamily names a → IsFamily names b → fold a = fold b → a = b
  noNesting : ∀ a b, IsFamily names a → IsFamily names b → sep ∈ a ∨ sep ∈ b →
    ¬isDottedPrefix (fold a) (fold b)

/-! ### The searches -/

/-- No name nests in itself. -/
theorem not_isDottedPrefix_self (a : Bytes) : ¬isDottedPrefix a a := by
  rw [isDottedPrefix, isPrefixOf_iff_prefix]
  intro h
  have hlength := h.length_le
  rw [length_append, length_singleton] at hlength
  omega

variable {names : List Bytes}

/-- The search for a nesting is complete. -/
theorem firstNesting_eq_none_iff {nests : Bytes → Bytes → Bool} (hirrefl : ∀ a, ¬nests a a) :
    firstNesting nests names = none ↔ ∀ a ∈ names, ∀ b ∈ names, ¬nests a b := by
  have hpairwise : firstNesting nests names = none ↔
      names.Pairwise fun a b ↦ ¬nests a b ∧ ¬nests b a := by
    induction names with
    | nil => simp [firstNesting]
    | cons a names ih =>
      rw [firstNesting, or_eq_none_iff, ih, List.findSome?_eq_none_iff, pairwise_cons]
      refine and_congr_left fun _ ↦ forall₂_congr fun b _ ↦ ?_
      by_cases hab : nests a b
      · simp [hab]
      · by_cases hba : nests b a
        · simp [hab, hba]
        · simp [hab, hba]
  rw [hpairwise]
  constructor
  · intro h a ha b hb
    have hsymm : Std.Symm fun a b ↦ ¬nests a b ∧ ¬nests b a := ⟨fun _ _ hxy ↦ hxy.symm⟩
    exact (h.forall_of_forall (fun x _ ↦ ⟨hirrefl x, hirrefl x⟩) ha hb).1
  · exact fun h ↦ pairwise_of_forall_mem_list fun a ha b hb ↦ ⟨h a ha b hb, h b hb a ha⟩

/-- The search for a clash, with what was seen before. -/
theorem firstFoldClashFrom_eq_none_iff {seen : List (Bytes × Bytes)} :
    firstFoldClashFrom seen names = none ↔
      (names.map fold).Nodup ∧ ∀ name ∈ names, fold name ∉ seen.map Prod.fst := by
  induction names generalizing seen with
  | nil => simp [firstFoldClashFrom]
  | cons name names ih =>
    rw [firstFoldClashFrom]
    split
    · next first hfirst =>
      refine iff_of_false (some_ne_none _) fun h ↦ h.2 name mem_cons_self ?_
      obtain ⟨before, after, rfl, -⟩ := lookup_eq_some_iff.mp hfirst
      simp
    · next hnone =>
      have hfresh : fold name ∉ seen.map Prod.fst := by
        intro hmem
        obtain ⟨p, hp, heq⟩ := mem_map.mp hmem
        exact absurd heq.symm (bne_iff_ne.mp (lookup_eq_none_iff.mp hnone p hp))
      rw [ih, map_cons (f := fold), nodup_cons, map_cons (f := Prod.fst)]
      constructor
      · rintro ⟨hnodup, hseen⟩
        refine ⟨⟨fun hmem ↦ ?_, hnodup⟩, fun n hn ↦ ?_⟩
        · obtain ⟨n, hn, heq⟩ := mem_map.mp hmem
          exact hseen n hn (heq ▸ mem_cons_self)
        · rcases mem_cons.mp hn with rfl | hn
          · exact hfresh
          · exact fun hmem ↦ hseen n hn (mem_cons_of_mem _ hmem)
      · rintro ⟨⟨hname, hnodup⟩, hseen⟩
        refine ⟨hnodup, fun n hn hmem ↦ ?_⟩
        rcases mem_cons.mp hmem with heq | hmem
        · have heq : fold n = fold name := heq
          exact hname (heq ▸ mem_map_of_mem hn)
        · exact hseen n (mem_cons_of_mem _ hn) hmem

/-- The search for a clash is complete. -/
theorem firstFoldClash_eq_none_iff (hnodup : names.Nodup) :
    firstFoldClash names = none ↔ ∀ a ∈ names, ∀ b ∈ names, fold a = fold b → a = b := by
  rw [firstFoldClash, firstFoldClashFrom_eq_none_iff]
  simp only [List.map_nil, List.not_mem_nil, not_false_eq_true, implies_true, and_true]
  exact List.nodup_map_iff_inj_on hnodup

/-- The check of dotted prefixes. -/
theorem firstDottedPrefix_eq_none_iff :
    firstDottedPrefix names = none ↔ ∀ a ∈ names, ∀ b ∈ names, ¬isDottedPrefix a b :=
  firstNesting_eq_none_iff not_isDottedPrefix_self

/-- The check of dotted prefixes, after folding. -/
theorem firstFoldedPrefix_eq_none_iff :
    firstFoldedPrefix names = none ↔
      ∀ a ∈ names, ∀ b ∈ names, sep ∈ a ∨ sep ∈ b → ¬isDottedPrefix (fold a) (fold b) := by
  have hirrefl : ∀ a, ¬isFoldedPrefix a a := by
    intro a h
    rw [isFoldedPrefix, Bool.and_eq_true] at h
    exact not_isDottedPrefix_self _ h.2
  rw [firstFoldedPrefix, firstNesting_eq_none_iff hirrefl]
  refine forall₄_congr fun a _ b _ ↦ ?_
  rw [isFoldedPrefix, Bool.and_eq_true, Bool.or_eq_true, List.contains_iff_mem,
    List.contains_iff_mem, not_and]

/-! ### Families -/

/-- The families are those of the names, each of them once. -/
theorem keys_generationFamilies (names : List Bytes) :
    ((generationFamilies names).map Prod.fst).Nodup ∧
      ∀ family, family ∈ (generationFamilies names).map Prod.fst ↔ IsFamily names family := by
  induction names using List.reverseRecOn with
  | nil =>
    refine ⟨List.nodup_nil, fun family ↦ ?_⟩
    simp [generationFamilies, IsFamily]
  | append_singleton names name ih =>
    obtain ⟨hnodup, hkeys⟩ := ih
    have hstep : generationFamilies (names ++ [name]) =
        if (splitGeneration name).2.2 = .generation then
          Assign.assign (splitGeneration name).1 (((generationFamilies names).lookup
            (splitGeneration name).1).getD [] ++ [(splitGeneration name).2.1])
            (generationFamilies names)
        else generationFamilies names := by
      rw [generationFamilies, List.foldl_append]
      rfl
    have hfamily : ∀ family, IsFamily (names ++ [name]) family ↔ IsFamily names family ∨
        ∃ version, splitGeneration name = (family, version, .generation) := by
      intro family
      simp only [IsFamily, List.mem_append, List.mem_singleton, or_and_right, exists_or,
        exists_eq_left]
    rw [hstep]
    split
    · next hform =>
      refine ⟨Assign.nodup_assign hnodup _ _, fun family ↦ ?_⟩
      rw [Assign.mem_keys_assign, hkeys, hfamily, or_comm]
      refine or_congr_right ⟨?_, ?_⟩
      · rintro rfl
        exact ⟨(splitGeneration name).2.1, Prod.ext rfl (Prod.ext rfl hform)⟩
      · rintro ⟨version, heq⟩
        rw [heq]
    · next hform =>
      refine ⟨hnodup, fun family ↦ ?_⟩
      rw [hkeys, hfamily, or_iff_left]
      rintro ⟨version, heq⟩
      rw [heq] at hform
      exact hform rfl

/-! ### What is accepted -/

variable {names : List Bytes}

/-- A valid name passes the check of single names. -/
theorem checkKeyName_of_validEntryName {name : Bytes} (h : validEntryName name) :
    checkKeyName name = .ok () := by
  rw [validEntryName, Bool.and_eq_true, isNone_iff_eq_none] at h
  rw [checkKeyName, h.1, h.2]
  rfl

theorem forM_checkKeyName (h : ∀ name ∈ names, validEntryName name) :
    names.forM checkKeyName = .ok () := by
  induction names with
  | nil => rfl
  | cons name names ih =>
    show (do checkKeyName name; names.forM checkKeyName) = _
    rw [checkKeyName_of_validEntryName (h name mem_cons_self)]
    exact ih fun n hn ↦ h n (mem_cons_of_mem _ hn)

/-- What the check of a set accepts. -/
theorem checkKeyNameSet_iff (hnodup : names.Nodup) :
    checkKeyNameSet names = .ok () ↔ (∀ a ∈ names, ∀ b ∈ names, ¬isDottedPrefix a b) ∧
      ∀ a ∈ names, ∀ b ∈ names, (splitGeneration a).2.2 = .ordinary →
        (splitGeneration b).2.2 = .ordinary → fold a = fold b → a = b := by
  rw [← firstDottedPrefix_eq_none_iff]
  have hordinary : firstFoldClash (ordinaryNames names) = none ↔
      ∀ a ∈ names, ∀ b ∈ names, (splitGeneration a).2.2 = .ordinary →
        (splitGeneration b).2.2 = .ordinary → fold a = fold b → a = b := by
    rw [ordinaryNames, firstFoldClash_eq_none_iff (hnodup.filter _)]
    simp only [mem_filter, decide_eq_true_eq, and_imp]
    exact ⟨fun h a ha b hb ha' hb' ↦ h a ha ha' b hb hb', fun h a ha ha' b hb hb' ↦
      h a ha b hb ha' hb'⟩
  rw [← hordinary, checkKeyNameSet]
  split
  · next hsome => simp [hsome]
  · next hnone =>
    split
    · next hsome => simp [hsome]
    · next hnone' => simp [hnone, hnone']

/-- What the check of the families accepts. -/
theorem checkKeyFamilies_iff : checkKeyFamilies names = .ok () ↔
    (∀ a ∈ names, (splitGeneration a).2.2 ≠ .malformed) ∧
      (∀ a b, IsFamily names a → IsFamily names b → fold a = fold b → a = b) ∧
      ∀ a b, IsFamily names a → IsFamily names b → sep ∈ a ∨ sep ∈ b →
        ¬isDottedPrefix (fold a) (fold b) := by
  obtain ⟨hnodup, hkeys⟩ := keys_generationFamilies names
  have hperm := perm_sort ((generationFamilies names).map Prod.fst)
  have hmem : ∀ family, family ∈ sort ((generationFamilies names).map Prod.fst) ↔
      IsFamily names family := fun family ↦ hperm.mem_iff.trans (hkeys family)
  have hmalformed : (names.find? fun name ↦ (splitGeneration name).2.2 = .malformed) = none ↔
      ∀ a ∈ names, (splitGeneration a).2.2 ≠ .malformed := by
    simp
  have hclash : firstFoldClash (sort ((generationFamilies names).map Prod.fst)) = none ↔
      ∀ a b, IsFamily names a → IsFamily names b → fold a = fold b → a = b := by
    rw [firstFoldClash_eq_none_iff (hperm.nodup_iff.mpr hnodup)]
    simp only [hmem]
    exact ⟨fun h a b ha hb ↦ h a ha b hb, fun h a ha b hb ↦ h a b ha hb⟩
  have hnest : firstFoldedPrefix (sort ((generationFamilies names).map Prod.fst)) = none ↔
      ∀ a b, IsFamily names a → IsFamily names b → sep ∈ a ∨ sep ∈ b →
        ¬isDottedPrefix (fold a) (fold b) := by
    rw [firstFoldedPrefix_eq_none_iff]
    simp only [hmem]
    exact ⟨fun h a b ha hb ↦ h a ha b hb, fun h a ha b hb ↦ h a b ha hb⟩
  rw [← hmalformed, ← hclash, ← hnest, checkKeyFamilies]
  split
  · next hsome => simp [hsome]
  · next hnone =>
    dsimp only
    split
    · next hsome => simp [hsome]
    · next hnone' =>
      split
      · next hsome => simp [hsome]
      · next hnone'' => simp [hnone, hnone', hnone'']

/-- The rules do not depend on an order. -/
theorem Apart.congr {names' : List Bytes} (hmem : ∀ name, name ∈ names' ↔ name ∈ names)
    (h : Apart names) : Apart names' := by
  have hfamily : ∀ family, IsFamily names' family ↔ IsFamily names family := by
    intro family
    simp only [IsFamily, hmem]
  refine ⟨?_, ?_, ?_, ?_, ?_⟩
  · simpa only [hmem] using h.noPrefix
  · simpa only [hmem] using h.ordinary
  · simpa only [hmem] using h.wellFormed
  · simpa only [hfamily] using h.families
  · simpa only [hfamily] using h.noNesting

/-- What all checks together accept. -/
theorem checkKeyNames_iff (hnodup : names.Nodup) (hvalid : ∀ name ∈ names, validEntryName name) :
    checkKeyNames names = .ok () ↔ Apart names := by
  have hperm := perm_sort names
  have hsorted : checkKeyNames names = .ok () ↔ Apart (sort names) := by
    have hforM : (sort names).forM checkKeyName = .ok () :=
      forM_checkKeyName fun name hname ↦ hvalid name (hperm.mem_iff.mp hname)
    have hsteps : checkKeyNames names = .ok () ↔
        checkKeyNameSet (sort names) = .ok () ∧ checkKeyFamilies (sort names) = .ok () := by
      rw [checkKeyNames, hforM]
      cases checkKeyNameSet (sort names) with
      | error e => exact iff_of_false nofun (fun h ↦ nomatch h.1)
      | ok u => exact (and_iff_right rfl).symm
    rw [hsteps, checkKeyNameSet_iff (hperm.nodup_iff.mpr hnodup), checkKeyFamilies_iff]
    exact ⟨fun h ↦ ⟨h.1.1, h.1.2, h.2.1, h.2.2.1, h.2.2.2⟩, fun h ↦
      ⟨⟨h.noPrefix, h.ordinary⟩, h.wellFormed, h.families, h.noNesting⟩⟩
  rw [hsorted]
  exact ⟨.congr fun _ ↦ hperm.mem_iff.symm, .congr fun _ ↦ hperm.mem_iff⟩

/-- No two names of an accepted set fold equal. -/
theorem Apart.fold_inj (h : Apart names) {a b : Bytes} (ha : a ∈ names) (hb : b ∈ names)
    (hfold : fold a = fold b) : a = b := by
  -- Marks can be seen from the folds, so both are ordinary or both are generations.
  have hmarked : (splitMarker a).isSome ↔ (splitMarker b).isSome := by
    rw [isSome_splitMarker_iff, isSome_splitMarker_iff, hfold]
  have hgeneration : ∀ {name}, name ∈ names → (splitMarker name).isSome →
      (splitGeneration name).2.2 = .generation := by
    intro name hname hsome
    have hform := h.wellFormed name hname
    cases hcase : (splitGeneration name).2.2 with
    | ordinary =>
      rw [form_eq_ordinary_iff.mp hcase] at hsome
      cases hsome
    | malformed => exact absurd hcase hform
    | generation => rfl
  by_cases hsome : (splitMarker a).isSome
  · have ha' : splitGeneration a = ((splitGeneration a).1, (splitGeneration a).2.1, .generation) :=
      Prod.ext rfl (Prod.ext rfl (hgeneration ha hsome))
    have hb' : splitGeneration b = ((splitGeneration b).1, (splitGeneration b).2.1, .generation) :=
      Prod.ext rfl (Prod.ext rfl (hgeneration hb (hmarked.mp hsome)))
    obtain ⟨hnameA, hversionA⟩ := of_form_eq_generation ha'
    obtain ⟨hnameB, hversionB⟩ := of_form_eq_generation hb'
    obtain ⟨hfamily, hversion⟩ := fold_generationName_inj hversionA hversionB
      (by rw [← hnameA, ← hnameB, hfold])
    have hsame := h.families _ _ ⟨a, ha, _, ha'⟩ ⟨b, hb, _, hb'⟩ hfamily
    rw [hnameA, hnameB, hsame, hversion]
  · have hnone : splitMarker a = none := not_isSome_iff_eq_none.mp hsome
    have hnone' : splitMarker b = none := not_isSome_iff_eq_none.mp fun h ↦ hsome
      (hmarked.mpr h)
    exact h.ordinary a ha b hb (form_eq_ordinary_iff.mpr hnone) (form_eq_ordinary_iff.mpr hnone')
      hfold

end KeyStore
