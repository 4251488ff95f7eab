import Mathlib.Data.List.Forall2
import GoBricks.Logger.Filter

/-!
# The log filter does not tell secrets apart

Two graphs of values are **alike** if they are the same except for what is held under sensitive
names. Since graphs may be cyclic this is a relation closed under one step (`AlikeGraphs`), as for
bisimilarity; addresses are matched one to one, as the two values lie at different places in memory.

* `filterValue_alike`: values that are alike are logged the same.
* `calls_wellFounded`: every call of the walk spends some of its depth budget, so that the walk ends
  on every graph, cyclic or not. `Calls` are all the calls there are: the walk of a value is given
  by the results of these (`Calls.byType_eq`).
-/

open Json

namespace Logger

variable {Ty Node Data : Type} {T : Types Ty} {lower : ℕ → ℕ}
  {f : SensitiveDataFilter} {G G' : Graph T Node Data}

/-! ### Alike values -/

/-- Values under the same name, which need to be related only if the name is not sensitive. -/
def SameEntry (lower : ℕ → ℕ) (f : SensitiveDataFilter)
    (R : Value Ty Node Data → Value Ty Node Data → Prop) (e e' : Bytes × Value Ty Node Data) :
    Prop :=
  e.1 = e'.1 ∧ (f.isSensitiveField lower e.1 ∨ R e.2 e'.2)

/-- Fields of the same type, whose values need to be related only if their name is not sensitive. -/
def SameField (lower : ℕ → ℕ) (f : SensitiveDataFilter)
    (R : Value Ty Node Data → Value Ty Node Data → Prop) (e e' : Field × Value Ty Node Data) :
    Prop :=
  e.1 = e'.1 ∧ (f.isSensitiveField lower e.1.logName ∨ R e.2 e'.2)

/-- The values are the same up to what they hold, which is related. -/
inductive Matches (lower : ℕ → ℕ) (f : SensitiveDataFilter) (G G' : Graph T Node Data)
    (R : Value Ty Node Data → Value Ty Node Data → Prop) (ρ : ℕ → ℕ → Prop) :
    Value Ty Node Data → Value Ty Node Data → Prop
  | nil : Matches lower f G G' R ρ .nil .nil
  | leaf (t : Ty) (x : Data) : Matches lower f G G' R ρ (.leaf t x) (.leaf t x)
  | string (t : Ty) (s : Bytes) : Matches lower f G G' R ρ (.string t s) (.string t s)
  | nilMap (t : Ty) : Matches lower f G G' R ρ (.map t none) (.map t none)
  | map (t : Ty) {n n' : Node} :
      List.Forall₂ (SameEntry lower f R) (G.entries n) (G'.entries n') →
      Matches lower f G G' R ρ (.map t (some n)) (.map t (some n'))
  | nilSlice (t : Ty) : Matches lower f G G' R ρ (.slice t none) (.slice t none)
  | slice (t : Ty) {n n' : Node} :
      List.Forall₂ R (G.elements t n) (G'.elements t n') →
      Matches lower f G G' R ρ (.slice t (some n)) (.slice t (some n'))
  | array (t : Ty) {n n' : Node} :
      List.Forall₂ R (G.elements t n) (G'.elements t n') →
      Matches lower f G G' R ρ (.array t n) (.array t n')
  | struct (t : Ty) {n n' : Node} :
      List.Forall₂ (SameField lower f R) (G.fields t n) (G'.fields t n') →
      Matches lower f G G' R ρ (.struct t n) (.struct t n')
  | nilPointer (t : Ty) : Matches lower f G G' R ρ (.pointer t 0) (.pointer t 0)
  | pointer (t : Ty) {addr addr' : ℕ} : addr ≠ 0 → addr' ≠ 0 → ρ addr addr' →
      R (G.target t addr) (G'.target t addr') →
      Matches lower f G G' R ρ (.pointer t addr) (.pointer t addr')

/-- A relation of values that are the same except for what is held under sensitive names. -/
structure AlikeGraphs (lower : ℕ → ℕ) (f : SensitiveDataFilter) (G G' : Graph T Node Data)
    (R : Value Ty Node Data → Value Ty Node Data → Prop) (ρ : ℕ → ℕ → Prop) : Prop where
  /-- Bytes are read the same. -/
  byte : G.byte = G'.byte
  matches_of : ∀ {v v'}, R v v' → Matches lower f G G' R ρ v v'
  /-- A Redactor returns what does not depend on the secrets either. -/
  redacted : ∀ {v v'}, R v v' → T.asRedactor v → R (G.redactedForLog v) (G'.redactedForLog v')
  /-- Addresses are matched one to one. -/
  addr_iff : ∀ {a b a' b'}, ρ a b → ρ a' b' → (a = a' ↔ b = b')

variable {R : Value Ty Node Data → Value Ty Node Data → Prop} {ρ : ℕ → ℕ → Prop}

variable {v v' : Value Ty Node Data}

/-- Values that match are both redactors, or neither is. -/
theorem Matches.asRedactor_eq (h : Matches lower f G G' R ρ v v') :
    T.asRedactor v = T.asRedactor v' := by
  cases h with
  | pointer t ha ha' => rw [T.asRedactor_pointer ha, T.asRedactor_pointer ha']
  | _ => rfl

theorem Matches.eq_nil_iff (h : Matches lower f G G' R ρ v v') : v = .nil ↔ v' = .nil := by
  cases h <;> simp

/-- The same pointers were visited. -/
theorem AlikeGraphs.mem_iff (hR : AlikeGraphs lower f G G' R ρ) {addr addr' : ℕ}
    (h : ρ addr addr') {visited visited' : List ℕ} (hv : List.Forall₂ ρ visited visited') :
    addr ∈ visited ↔ addr' ∈ visited' := by
  induction hv with
  | nil => simp
  | cons ha _ ih => rw [List.mem_cons, List.mem_cons, ih, hR.addr_iff h ha]

/-- Values of a type that the walk does not change are the same. -/
theorem AlikeGraphs.eq_of_holds (hR : AlikeGraphs lower f G G' R ρ) {t : Ty}
    (ht : T.rewritesType t = false) (hv : T.Holds t v) (h : R v v') : v = v' := by
  obtain ⟨hfits, hkind | htype⟩ := hv
  · simp [Types.rewritesType, hkind] at ht
  · -- A value that holds others is of a kind that the walk changes.
    cases hR.matches_of h with
    | nil | leaf t x | string t s | nilMap t | nilSlice t | nilPointer t => rfl
    | map t | slice t | array t | struct t | pointer t =>
      cases htype
      simp only [Types.Fits] at hfits
      simp [Types.rewritesType, hfits] at ht

/-- Elements that are not filtered are the same. -/
theorem AlikeGraphs.elements_eq (hR : AlikeGraphs lower f G G' R ρ) {t : Ty} {n n' : Node}
    (ht : T.rewritesType (T.elem t) = false)
    (h : List.Forall₂ R (G.elements t n) (G'.elements t n')) :
    G.elements t n = G'.elements t n' := by
  have hholds := G.elements_holds t n
  generalize G.elements t n = vs, G'.elements t n' = vs' at h hholds ⊢
  induction h with
  | nil => rfl
  | cons h _ ih =>
    obtain ⟨hv, hvs⟩ := List.forall_mem_cons.mp hholds
    rw [hR.eq_of_holds ht hv h, ih hvs]

/-! ### Walking alike values -/

/-- The walks give the same for alike values. -/
def AlikeWalks (lower : ℕ → ℕ) (f : SensitiveDataFilter)
    (R : Value Ty Node Data → Value Ty Node Data → Prop) (ρ : ℕ → ℕ → Prop)
    (walk walk' : Walk Ty Node Data) : Prop :=
  ∀ key v v' visited visited', f.isSensitiveField lower key ∨ R v v' →
    List.Forall₂ ρ visited visited' → walk key v visited = walk' key v' visited'

variable {walk walk' : Walk Ty Node Data} {visited visited' : List ℕ}

theorem map_eq_map_of_forall₂ {α β γ : Type} {r : α → β → Prop} {g : α → γ} {g' : β → γ}
    {l : List α} {l' : List β} (h : List.Forall₂ r l l') (hg : ∀ {a b}, r a b → g a = g' b) :
    l.map g = l'.map g' := by
  induction h with
  | nil => rfl
  | cons h _ ih => rw [List.map_cons, List.map_cons, hg h, ih]

/-- Entries with the same keys are filtered alike. -/
theorem filterEntries_alike (hw : AlikeWalks lower f R ρ walk walk')
    (hvis : List.Forall₂ ρ visited visited') {l l' : List (Bytes × Value Ty Node Data)}
    (h : List.Forall₂ (SameEntry lower f R) l l') :
    filterEntries walk l visited = filterEntries walk' l' visited' := by
  rw [filterEntries, filterEntries]
  congr 2
  refine map_eq_map_of_forall₂ h ?_
  rintro ⟨key, v⟩ ⟨key', v'⟩ ⟨hkey, hv⟩
  cases hkey
  exact congrArg (key, ·) (hw _ _ _ _ _ hv hvis)

/-- So are structs, by their names. -/
theorem namedFields_alike {l l' : List (Field × Value Ty Node Data)}
    (h : List.Forall₂ (SameField lower f R) l l') :
    List.Forall₂ (SameEntry lower f R) (namedFields l) (namedFields l') := by
  induction h with
  | nil => exact .nil
  | @cons e e' _ _ h _ ih =>
    obtain ⟨field, v⟩ := e
    obtain ⟨field', v'⟩ := e'
    obtain ⟨hfield, hv⟩ := h
    cases hfield
    simp only [namedFields, List.filterMap_cons] at ih ⊢
    by_cases hexp : field.exported
    · by_cases hname : field.logName = []
      · simpa [hexp, hname] using ih
      · simp only [hexp, hname, Bool.not_true, Bool.false_eq_true, if_false]
        exact .cons ⟨rfl, hv⟩ ih
    · simpa [hexp] using ih

theorem filterSliceOrArray_alike (hR : AlikeGraphs lower f G G' R ρ)
    (hw : AlikeWalks lower f R ρ walk walk') (hvis : List.Forall₂ ρ visited visited') {depth : ℕ}
    {key : Bytes} {t : Ty} {n n' : Node} (h : List.Forall₂ R (G.elements t n) (G'.elements t n')) :
    filterSliceOrArray G walk depth key t n visited =
      filterSliceOrArray G' walk' depth key t n' visited' := by
  have hlist : (G.elements t n).map (fun v ↦ walk key v visited) =
      (G'.elements t n').map fun v ↦ walk' key v visited' :=
    map_eq_map_of_forall₂ h fun hv ↦ hw _ _ _ _ _ (.inr hv) hvis
  rw [filterSliceOrArray, filterSliceOrArray, hlist]
  by_cases ht : T.rewritesType (T.elem t)
  · simp [keepsSlice, ht]
  · rw [keepsSlice, keepsSlice, hR.elements_eq (by simpa using ht) h]

/-- So are pointers, by what they point to. -/
theorem filterPointer_alike (hR : AlikeGraphs lower f G G' R ρ)
    (hw : AlikeWalks lower f R ρ walk walk') (hvis : List.Forall₂ ρ visited visited')
    {key : Bytes} {t : Ty} {addr addr' : ℕ} (haddr : addr ≠ 0) (haddr' : addr' ≠ 0)
    (hρ : ρ addr addr') (h : R (G.target t addr) (G'.target t addr')) :
    filterPointer G walk key t addr visited = filterPointer G' walk' key t addr' visited' := by
  have hmem := hR.mem_iff hρ hvis
  by_cases hstruct : T.kind (T.elem t) = .struct
  · obtain ⟨n, hn⟩ := G.exists_struct haddr hstruct
    obtain ⟨n', hn'⟩ := G'.exists_struct haddr' hstruct
    have hfields : List.Forall₂ (SameField lower f R) (G.fields (T.elem t) n)
        (G'.fields (T.elem t) n') := by
      have hm := hR.matches_of h
      rw [hn, hn'] at hm
      cases hm with
      | struct _ h => exact h
    rw [filterPointer_struct haddr hstruct hn, filterPointer_struct haddr' hstruct hn']
    simp only [hmem, filterEntries_alike hw (.cons hρ hvis) (namedFields_alike hfields)]
  · by_cases hkept : keepsPointer T t
    · simp only [filterPointer, if_neg haddr, if_neg haddr', if_neg hstruct, if_pos hkept]
      rw [hR.eq_of_holds (by simpa using (Bool.and_eq_true_iff.mp hkept).2)
          (G.target_holds t addr haddr) h]
    · rw [filterPointer_walked haddr hstruct hkept, filterPointer_walked haddr' hstruct hkept]
      simp only [hmem, hw _ _ _ _ _ (.inr h) (.cons hρ hvis)]

/-- So are values, by their type. -/
theorem filterByType_alike (hR : AlikeGraphs lower f G G' R ρ)
    (hw : AlikeWalks lower f R ρ walk walk') (hvis : List.Forall₂ ρ visited visited') {depth : ℕ}
    {key : Bytes} (h : R v v') :
    filterByType G lower f walk depth key v visited =
      filterByType G' lower f walk' depth key v' visited' := by
  cases hR.matches_of h with
  | nil | leaf t x | string t s | nilMap t | nilSlice t | nilPointer t => rfl
  | map t hentries =>
    rw [filterByType_map, filterByType_map]
    exact filterEntries_alike hw hvis hentries
  | slice t helements =>
    simp only [filterByType, filterSliceOrArray_alike hR hw hvis helements]
    by_cases hbyte : T.kind (T.elem t) = .uint8
    · have ht : T.rewritesType (T.elem t) = false := by simp [Types.rewritesType, hbyte]
      simp only [hR.elements_eq ht helements, Graph.payload, hR.byte]
    · rw [if_neg hbyte, if_neg hbyte]
  | array t helements => exact filterSliceOrArray_alike hR hw hvis helements
  | struct t hfields =>
    simp only [filterByType, filterStruct, extractStructValueWithPointer, if_true,
      filterEntries_alike hw hvis (namedFields_alike hfields)]
  | pointer t haddr haddr' hρ htarget =>
    exact filterPointer_alike hR hw hvis haddr haddr' hρ htarget

theorem filterRedactedShape_alike (hR : AlikeGraphs lower f G G' R ρ)
    (hw : AlikeWalks lower f R ρ walk walk') (hvis : List.Forall₂ ρ visited visited') {depth : ℕ}
    {key : Bytes} (h : R v v') :
    filterRedactedShape G lower f walk depth key v visited =
      filterRedactedShape G' lower f walk' depth key v' visited' := by
  have hnil := (hR.matches_of h).eq_nil_iff
  by_cases hv : v = .nil
  · rw [hv, hnil.mp hv]
    rfl
  · rw [filterRedactedShape_of_ne_nil G lower f walk hv,
      filterRedactedShape_of_ne_nil G' lower f walk' (mt hnil.mpr hv),
      filterByType_alike hR hw hvis h]

/-- **The walk gives the same for alike values**, at every depth: what one level of it does with the
results of the next, it does alike. -/
theorem filterValue_alike (hR : AlikeGraphs lower f G G' R ρ) (depth : ℕ) :
    AlikeWalks lower f R ρ (filterValue G lower f depth) (filterValue G' lower f depth) := by
  induction depth using Nat.strongRecOn with
  | ind depth ih =>
    intro key v v' visited visited' h hvis
    by_cases hkey : f.isSensitiveField lower key
    · rw [filterValue_sensitive hkey, filterValue_sensitive hkey]
    · have hkey : f.isSensitiveField lower key = false := by simpa using hkey
      have h : R v v' := h.resolve_left (by simp [hkey])
      have hm := hR.matches_of h
      by_cases hv : v = .nil
      · rw [hv, hm.eq_nil_iff.mp hv, filterValue_nil hkey, filterValue_nil hkey]
      · have hv' := mt hm.eq_nil_iff.mpr hv
        cases depth with
        | zero => rw [filterValue_zero hv, filterValue_zero hv']
        | succ depth =>
          by_cases hred : T.asRedactor v
          · rw [filterValue_redactor hkey hred, filterValue_redactor hkey (hm.asRedactor_eq ▸ hred),
              filterRedactedShape_alike hR (ih (depth - 1) (by omega)) hvis (hR.redacted h hred)]
          · have hred : T.asRedactor v = false := by simpa using hred
            rw [filterValue_byType hkey hv hred,
              filterValue_byType hkey hv' (hm.asRedactor_eq ▸ hred),
              filterByType_alike hR (ih depth (by omega)) hvis h]

/-! ### Termination -/

/-- The calls that a call of the walk makes: for the value by its kind, or for what a Redactor
returned. -/
inductive Calls (G : Graph T Node Data) (lower : ℕ → ℕ) (f : SensitiveDataFilter) :
    Call Ty Node Data → Call Ty Node Data → Prop
  | value {c c' : Call Ty Node Data} : f.isSensitiveField lower c.key = false → 0 < c.depth →
      T.asRedactor c.value = false → Descends G (fun l k u ↦ (k, u) ∈ l) c c' →
      Calls G lower f c c'
  | redactor {c c' : Call Ty Node Data} : f.isSensitiveField lower c.key = false → 1 < c.depth →
      T.asRedactor c.value →
      Descends G (fun l k u ↦ (k, u) ∈ l)
        ⟨c.depth - 1, c.key, G.redactedForLog c.value, c.visited⟩ c' →
      Calls G lower f c c'

theorem Calls.depth_lt {c c' : Call Ty Node Data} (h : Calls G lower f c c') :
    c'.depth < c.depth := by
  cases h with
  | value _ hdepth _ h =>
    have := h.depth_eq
    omega
  | redactor _ hdepth _ h =>
    have := h.depth_eq
    simp only at this
    omega

/-- One level of the walk depends on the results for the calls it makes, and on no others. -/
theorem filterByType_congr {walk walk' : Walk Ty Node Data} {d : Call Ty Node Data}
    (h : ∀ c', Descends G (fun l k u ↦ (k, u) ∈ l) d c' →
      walk c'.key c'.value c'.visited = walk' c'.key c'.value c'.visited) :
    filterByType G lower f walk d.depth d.key d.value d.visited =
      filterByType G lower f walk' d.depth d.key d.value d.visited := by
  obtain ⟨depth, key, v, visited⟩ := d
  have hentries {l : List (Bytes × Value Ty Node Data)} {visited' : List ℕ}
      (hl : ∀ e ∈ l, walk e.1 e.2 visited' = walk' e.1 e.2 visited') :
      filterEntries walk l visited' = filterEntries walk' l visited' := by
    rw [filterEntries, filterEntries, List.map_congr_left fun e he ↦ by rw [hl e he]]
  cases v with
  | nil | leaf t x | string t s => rfl
  | map t n =>
    cases n with
    | none => rfl
    | some n =>
      rw [filterByType_map, filterByType_map]
      exact hentries fun e he ↦ h _ (.entry he)
  | slice t n =>
    cases n with
    | none => rfl
    | some n =>
      by_cases hbyte : T.kind (T.elem t) = .uint8
      · simp only [filterByType, if_pos hbyte]
      · rw [filterByType_slice hbyte, filterByType_slice hbyte]
        by_cases hkeep : keepsSlice G depth t n
        · simp only [filterSliceOrArray, if_pos hkeep]
        · simp only [filterSliceOrArray, if_neg hkeep]
          rw [List.map_congr_left fun w hw ↦ h _ (.sliceElement hbyte (by simpa using hkeep) hw)]
  | array t n =>
    by_cases hkeep : keepsSlice G depth t n
    · simp only [filterByType, filterSliceOrArray, if_pos hkeep]
    · simp only [filterByType, filterSliceOrArray, if_neg hkeep]
      rw [List.map_congr_left fun w hw ↦ h _ (.arrayElement (by simpa using hkeep) hw)]
  | struct t n => exact hentries fun e he ↦ h _ (.field he)
  | pointer t addr =>
    simp only [filterByType]
    by_cases haddr : addr = 0
    · rw [filterPointer, if_pos haddr, filterPointer, if_pos haddr]
    by_cases hstruct : T.kind (T.elem t) = .struct
    · obtain ⟨n, hn⟩ := G.exists_struct haddr hstruct
      rw [filterPointer_struct haddr hstruct hn, filterPointer_struct haddr hstruct hn]
      by_cases hmem : addr ∈ visited
      · rw [if_pos hmem, if_pos hmem]
      · rw [if_neg hmem, if_neg hmem]
        exact hentries fun e he ↦ h _ (.pointerField haddr hstruct hn hmem he)
    by_cases hkeep : keepsPointer T t
    · simp only [filterPointer, if_neg hstruct, if_pos hkeep]
    · rw [filterPointer_walked haddr hstruct hkeep, filterPointer_walked haddr hstruct hkeep]
      by_cases hmem : addr ∈ visited
      · rw [if_pos hmem, if_pos hmem]
      · rw [if_neg hmem, if_neg hmem]
        exact h _ (.pointer haddr hstruct (by simpa using hkeep) hmem)

/-- **A call is made of the results of its calls**: whatever gives these gives what is walked by its
kind. -/
theorem Calls.byType_eq {walk : Walk Ty Node Data} {c d : Call Ty Node Data} {asked : Bool}
    (hd : Enters G lower f c asked d) (hwalk : ∀ c', Calls G lower f c c' →
      walk c'.key c'.value c'.visited = c'.out G lower f) :
    filterByType G lower f walk d.depth d.key d.value d.visited = d.byType G lower f := by
  refine filterByType_congr fun c' hc' ↦ ?_
  have hcalls : Calls G lower f c c' := by
    cases hd with
    | value hkey hdepth hv => exact .value hkey hdepth hv hc'
    | rendering hkey hdepth hv => exact .redactor hkey hdepth hv hc'
  rw [hwalk c' hcalls, Call.out, hc'.depth_eq]

/-- **The walk ends**: no graph has an endless chain of calls. -/
theorem calls_wellFounded : WellFounded fun c' c : Call Ty Node Data ↦ Calls G lower f c c' :=
  Subrelation.wf Calls.depth_lt (measure Call.depth).wf

/-! ### Noninterference -/

/-- The values are the same except for what is held under sensitive names. -/
def AlikeValues (lower : ℕ → ℕ) (f : SensitiveDataFilter) (G G' : Graph T Node Data)
    (v v' : Value Ty Node Data) : Prop :=
  ∃ R ρ, AlikeGraphs lower f G G' R ρ ∧ R v v'

/-- Values that are the same except for what is held under sensitive names are logged the same, and
the walk ends on every graph. -/
theorem FilterValue_noninterference :
    (∀ key v v', f.isSensitiveField lower key ∨ AlikeValues lower f G G' v v' →
      FilterValue G lower f key v = FilterValue G' lower f key v') ∧
    WellFounded fun c' c : Call Ty Node Data ↦ Calls G lower f c c' := by
  refine ⟨?_, calls_wellFounded⟩
  rintro key v v' (hkey | ⟨R, ρ, hR, h⟩)
  · rw [FilterValue, FilterValue, filterValue_sensitive hkey, filterValue_sensitive hkey]
  · exact filterValue_alike hR defaultMaxDepth key v v' [] [] (.inr h) .nil

/-- A struct type (0) with a password and a pointer (of type 1) to the next; strings are of type 2.
-/
def sessionTypes : Types (Fin 3) where
  kind t := if t = 0 then .struct else if t = 1 then .pointer else .string
  elem _ := 0
  anyMap _ := false
  redactor _ := false

/-- One struct, which points to itself. -/
def session (password : Bytes) : Graph sessionTypes Unit Unit where
  entries _ := []
  elements _ _ := []
  fields _ _ :=
    [(⟨passwordText, [], true⟩, .string 2 password), (⟨[0x4E], [], true⟩, .pointer 1 1)]
  target _ _ := .struct 0 ()
  byte _ := 0
  redactedForLog v := v
  elements_holds := by simp
  target_holds := fun _ _ _ ↦ ⟨rfl, .inr rfl⟩

/-- Sessions with different passwords are logged the same, around the cycle. -/
theorem FilterValue_noninterference_session :
    FilterValue (session [0x61]) Utf8.asciiFold passwordFilter [] (.pointer 1 1) =
      FilterValue (session [0x62]) Utf8.asciiFold passwordFilter [] (.pointer 1 1) := by
  refine FilterValue_noninterference.1 _ _ _ (.inr ⟨Eq, Eq, ⟨rfl, ?_, ?_, ?_⟩, rfl⟩)
  · rintro v _ rfl
    cases v with
    | nil => exact .nil
    | leaf t x => exact .leaf t x
    | string t s => exact .string t s
    | map t n => cases n with
      | none => exact .nilMap t
      | some n => exact .map t .nil
    | slice t n => cases n with
      | none => exact .nilSlice t
      | some n => exact .slice t .nil
    | array t n => exact .array t .nil
    | struct t n => exact .struct t (.cons ⟨rfl, .inl (by decide)⟩ (.cons ⟨rfl, .inr rfl⟩ .nil))
    | pointer t addr =>
      by_cases haddr : addr = 0
      · rw [haddr]
        exact .nilPointer t
      · exact .pointer t haddr haddr rfl rfl
  · rintro v _ rfl h
    rfl
  · rintro a _ a' _ rfl rfl
    rfl

end Logger
