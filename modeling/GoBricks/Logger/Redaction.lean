import Mathlib.Logic.Relation
import GoBricks.Logger.Filter

/-!
# Where the log filter asks a Redactor

A Redactor is to be logged as its method renders it, at every depth. Here the output of the walk is
laid beside the values: `At` relates a value that is reached through fields, entries, elements and
pointers with the place in the output that stands for it, and the filter **honours** Redactors if
every such place holds a rendering or the mask. A rendering is a value in turn: it is not asked
again, but what it holds is, and `At` goes on into it.

The walk asks the values it is called on. Two shortcuts take others along without asking: a slice or
an array whose elements are of a kind that needs no walk is logged as it came, and so is what a
pointer leads to if that is a struct or of such a kind; a pointer type declared by itself has no
methods even where its element type is a Redactor. The filter honours Redactors unless the walk
comes to one of these (`FilterValue_honours`).
-/

open Json Relation

namespace Logger

variable {Ty Node Data : Type} {T : Types Ty} {lower : ℕ → ℕ} {f : SensitiveDataFilter}
  {G : Graph T Node Data}

/-! ### Places in the output -/

/-- The type and the node of a slice or an array. -/
def Value.list? : Value Ty Node Data → Option (Ty × Node)
  | .slice t n => n.map (t, ·)
  | .array t n => some (t, n)
  | _ => none

/-- The values that a map or a struct holds under names. -/
def Graph.named? (G : Graph T Node Data) :
    Value Ty Node Data → Option (List (Bytes × Value Ty Node Data))
  | .map _ n => n.map G.entries
  | .struct t n => some (namedFields (G.fields t n))
  | _ => none

/-- Whether the walk asks what a pointer leads to. -/
def asksTarget (T : Types Ty) (t : Ty) : Bool :=
  T.kind (T.elem t) ≠ .struct && !keepsPointer T t

/-- `At G asked v o u p`: where `v` is logged as `o`, the place `p` stands for the value `u` that is
reached from `v`. A value that is not asked is a rendering, or stands in its place: it has no place
of its own, only what it holds has. -/
inductive At (G : Graph T Node Data) :
    Bool → Value Ty Node Data → Out Ty Node Data → Value Ty Node Data → Out Ty Node Data → Prop
  | here (v : Value Ty Node Data) (o : Out Ty Node Data) : At G true v o v o
  | rendering {v u : Value Ty Node Data} {o p : Out Ty Node Data} : T.asRedactor v →
      At G false (G.redactedForLog v) o u p → At G true v (.rendered o) u p
  | entry {asked : Bool} {v u u' : Value Ty Node Data} {l : List (Bytes × Value Ty Node Data)}
      {k : Bytes} {es : List (Bytes × Out Ty Node Data)} {p p' : Out Ty Node Data} :
      (asked → T.asRedactor v = false) → G.named? v = some l → Assign.IsLast l k u →
      (k, p) ∈ es → At G true u p u' p' → At G asked v (.map es) u' p'
  | element {asked : Bool} {v u u' : Value Ty Node Data} {t : Ty} {n : Node} {i : ℕ}
      {os : List (Out Ty Node Data)} {p p' : Out Ty Node Data} :
      (asked → T.asRedactor v = false) → v.list? = some (t, n) → (G.elements t n)[i]? = some u →
      os[i]? = some p → At G true u p u' p' → At G asked v (.list os) u' p'
  | keptElement {asked : Bool} {v u w : Value Ty Node Data} {t t' : Ty} {n : Node} {i : ℕ}
      {vs : List (Value Ty Node Data)} :
      (asked → T.asRedactor v = false) → v.list? = some (t, n) → (G.elements t n)[i]? = some u →
      vs[i]? = some w → At G asked v (.keptSlice t' vs) u (.kept w)
  | encodedElement {asked : Bool} {v u : Value Ty Node Data} {t : Ty} {n : Node} {doc : Bytes} :
      (asked → T.asRedactor v = false) → v.list? = some (t, n) → u ∈ G.elements t n →
      At G asked v (.encoded doc) u (.encoded doc)
  | pointer {asked : Bool} {t : Ty} {addr : ℕ} {u : Value Ty Node Data} {o p : Out Ty Node Data} :
      (asked → T.asRedactor (.pointer t addr : Value Ty Node Data) = false) → addr ≠ 0 →
      At G (asked || asksTarget T t) (G.target t addr) o u p → At G asked (.pointer t addr) o u p

/-- What may stand for a Redactor. -/
def Honoured (o : Out Ty Node Data) : Prop :=
  o = .mask ∨ ∃ p, o = .rendered p

/-- Every Redactor that is reached, in renderings too, is logged as its rendering, or masked. -/
def Honours (G : Graph T Node Data) (v : Value Ty Node Data) (o : Out Ty Node Data) : Prop :=
  ∀ u p, At G true v o u p → T.asRedactor u → Honoured p

/-! ### What the walk comes to -/

/-- The walk of a value goes on to another, whose result is in the output. -/
def Visits (G : Graph T Node Data) (lower : ℕ → ℕ) (f : SensitiveDataFilter)
    (c c' : Call Ty Node Data) : Prop :=
  ∃ asked d, Enters G lower f c asked d ∧ Descends G Assign.IsLast d c'

/-- A Redactor is taken along with the value, without being asked. What a rendering points to stands
in the place of the rendering. -/
inductive HandsOver (G : Graph T Node Data) (lower : ℕ → ℕ) (f : SensitiveDataFilter) :
    Bool → Call Ty Node Data → Prop
  | slice {asked : Bool} {depth : ℕ} {key : Bytes} {t : Ty} {n : Node} {u : Value Ty Node Data}
      {visited : List ℕ} : T.kind (T.elem t) ≠ .uint8 → keepsSlice G depth t n →
      u ∈ G.elements t n → T.asRedactor u →
      HandsOver G lower f asked ⟨depth, key, .slice t (some n), visited⟩
  | array {asked : Bool} {depth : ℕ} {key : Bytes} {t : Ty} {n : Node} {u : Value Ty Node Data}
      {visited : List ℕ} : keepsSlice G depth t n → u ∈ G.elements t n → T.asRedactor u →
      HandsOver G lower f asked ⟨depth, key, .array t n, visited⟩
  /-- Bytes, unless the payload they are is masked whole. -/
  | bytes {asked : Bool} {depth : ℕ} {key : Bytes} {t : Ty} {n : Node} {u : Value Ty Node Data}
      {visited : List ℕ} : T.kind (T.elem t) = .uint8 →
      (∀ m, filterOpaquePayload lower f (G.payload (G.elements t n)) ≠ .mask m) →
      u ∈ G.elements t n → T.asRedactor u →
      HandsOver G lower f asked ⟨depth, key, .slice t (some n), visited⟩
  | structPointer {depth : ℕ} {key : Bytes} {t : Ty} {addr : ℕ} {visited : List ℕ} : addr ≠ 0 →
      T.kind (T.elem t) = .struct → addr ∉ visited → T.asRedactor (G.target t addr) →
      HandsOver G lower f true ⟨depth, key, .pointer t addr, visited⟩
  | keptPointer {depth : ℕ} {key : Bytes} {t : Ty} {addr : ℕ} {visited : List ℕ} : addr ≠ 0 →
      T.kind (T.elem t) ≠ .struct → keepsPointer T t → T.asRedactor (G.target t addr) →
      HandsOver G lower f true ⟨depth, key, .pointer t addr, visited⟩

/-- The walk comes to a value with which it takes a Redactor along. -/
def Exposes (G : Graph T Node Data) (lower : ℕ → ℕ) (f : SensitiveDataFilter)
    (c : Call Ty Node Data) : Prop :=
  ∃ c' asked d, ReflTransGen (Visits G lower f) c c' ∧ Enters G lower f c' asked d ∧
    HandsOver G lower f asked d

/-! ### Places under the mask and of the parts of a value -/

variable {asked : Bool} {v u : Value Ty Node Data} {o p : Out Ty Node Data}

/-- Inside a mask there is only the mask. -/
theorem At.of_mask (h : At G asked v o u p) (ho : o = .mask) : p = .mask := by
  induction h with
  | here => exact ho
  | pointer _ _ _ ih => exact ih ho
  | _ => cases ho

variable {walk : Walk Ty Node Data} {visited : List ℕ}

/-- The places under the result for the values that `v` holds under names. -/
theorem At.of_filterEntries {l : List (Bytes × Value Ty Node Data)}
    (h : At G asked v (filterEntries walk l visited) u p) (hl : G.named? v = some l) :
    asked = true ∧ u = v ∨ ∃ k w, Assign.IsLast l k w ∧ At G true w (walk k w visited) u p := by
  generalize ho : filterEntries walk l visited = o at h
  cases h with
  | here => exact .inl ⟨rfl, rfl⟩
  | @entry _ _ w _ l' k es q _ hv hl' hlast hq h =>
    cases hl.symm.trans hl'
    cases ho
    obtain ⟨w', hlast', rfl⟩ :=
      (Assign.isLast_map (g := fun k w ↦ walk k w visited)).mp (Assign.mem_assignAll.mp hq)
    cases hlast.unique hlast'
    exact .inr ⟨k, w, hlast, h⟩
  | pointer => cases hl
  | _ => cases ho

/-- An entry is at its key. -/
theorem at_filterEntries {l : List (Bytes × Value Ty Node Data)} {w : Value Ty Node Data}
    {k : Bytes} (hv : asked → T.asRedactor v = false) (hl : G.named? v = some l)
    (hlast : Assign.IsLast l k w) (h : At G true w (walk k w visited) u p) :
    At G asked v (filterEntries walk l visited) u p :=
  .entry hv hl hlast (Assign.mem_assignAll.mpr
    ((Assign.isLast_map (g := fun k w ↦ walk k w visited)).mpr ⟨w, hlast, rfl⟩)) h

/-- The places under the result for a slice or an array that is not kept. -/
theorem At.of_list {key : Bytes} {t : Ty} {n : Node}
    (h : At G asked v (.list ((G.elements t n).map fun w ↦ walk key w visited)) u p)
    (hl : v.list? = some (t, n)) :
    asked = true ∧ u = v ∨ ∃ w ∈ G.elements t n, At G true w (walk key w visited) u p := by
  cases h with
  | here => exact .inl ⟨rfl, rfl⟩
  | element hv hl' hw hp h =>
    cases hl.symm.trans hl'
    rw [List.getElem?_map, hw] at hp
    cases hp
    exact .inr ⟨_, List.mem_of_getElem? hw, h⟩
  | pointer => cases hl

theorem at_list {key : Bytes} {w : Value Ty Node Data} {t : Ty} {n : Node}
    (hv : asked → T.asRedactor v = false) (hl : v.list? = some (t, n)) (hw : w ∈ G.elements t n)
    (h : At G true w (walk key w visited) u p) :
    At G asked v (.list ((G.elements t n).map fun w ↦ walk key w visited)) u p := by
  obtain ⟨i, hi⟩ := List.getElem?_of_mem hw
  exact .element hv hl hi (by rw [List.getElem?_map, hi]; rfl) h

/-- The places in a slice or an array that is kept. -/
theorem At.of_keptSlice {t : Ty} {n : Node} {vs : List (Value Ty Node Data)}
    (h : At G asked v (.keptSlice t vs) u p) (hl : v.list? = some (t, n)) :
    asked = true ∧ u = v ∨ u ∈ G.elements t n := by
  cases h with
  | here => exact .inl ⟨rfl, rfl⟩
  | keptElement hv hl' hu hw =>
    cases hl.symm.trans hl'
    exact .inr (List.mem_of_getElem? hu)
  | pointer => cases hl

/-- An element of a list that is kept is kept. -/
theorem at_keptSlice {t : Ty} {n : Node} (hv : asked → T.asRedactor v = false)
    (hl : v.list? = some (t, n)) (hu : u ∈ G.elements t n) :
    At G asked v (.keptSlice t (G.elements t n)) u (.kept u) := by
  obtain ⟨i, hi⟩ := List.getElem?_of_mem hu
  exact .keptElement hv hl hi hi

/-- The places in a payload that was encoded again. -/
theorem At.of_encoded {t : Ty} {n : Node} {doc : Bytes} (h : At G asked v (.encoded doc) u p)
    (hl : v.list? = some (t, n)) : asked = true ∧ u = v ∨ u ∈ G.elements t n := by
  cases h with
  | here => exact .inl ⟨rfl, rfl⟩
  | encodedElement hv hl' hu =>
    cases hl.symm.trans hl'
    exact .inr hu
  | pointer => cases hl

/-- The places under a pointer that is walked. -/
theorem At.of_pointer {t : Ty} {addr : ℕ} (h : At G asked (.pointer t addr) o u p)
    (ho : asked → T.asRedactor (.pointer t addr : Value Ty Node Data) = false) :
    asked = true ∧ u = .pointer t addr ∨
      addr ≠ 0 ∧ At G (asked || asksTarget T t) (G.target t addr) o u p := by
  cases h with
  | here => exact .inl ⟨rfl, rfl⟩
  | rendering hred => simp [ho rfl] at hred
  | entry _ hl | element _ hl | keptElement _ hl | encodedElement _ hl => cases hl
  | pointer _ haddr h => exact .inr ⟨haddr, h⟩

/-- There is one place only for a value that holds no others and is not rendered. -/
theorem At.eq_of_leaf (h : At G asked v o u p) (hnamed : G.named? v = none)
    (hlist : v.list? = none) (hptr : ∀ t addr, v ≠ .pointer t addr) (ho : ∀ q, o ≠ .rendered q) :
    asked = true ∧ u = v := by
  cases h with
  | here => exact ⟨rfl, rfl⟩
  | rendering => exact absurd rfl (ho _)
  | entry _ hl => simp [hl] at hnamed
  | element _ hl | keptElement _ hl | encodedElement _ hl => simp [hl] at hlist
  | pointer => exact absurd rfl (hptr _ _)

/-- The places of a Redactor are its own and those in its rendering. -/
theorem At.of_redactor (h : At G true v (.rendered o) u p) (hv : T.asRedactor v) :
    p = .rendered o ∨ At G false (G.redactedForLog v) o u p := by
  cases h with
  | here => exact .inl rfl
  | rendering _ h => exact .inr h
  | pointer hv' => simp [hv] at hv'

/-! ### Redactors that are not honoured are taken along -/

variable {c d : Call Ty Node Data}

/-- What a visit exposes is exposed. -/
theorem Exposes.of_visits {c' : Call Ty Node Data} (h : Visits G lower f c c')
    (h' : Exposes G lower f c') : Exposes G lower f c := by
  obtain ⟨c'', asked, d, hpath, hd⟩ := h'
  exact ⟨c'', asked, d, .head h hpath, hd⟩

/-- A place in the output is not what may stand for the Redactor it stands for. -/
structure Raw (G : Graph T Node Data) (asked : Bool) (v : Value Ty Node Data)
    (o : Out Ty Node Data) (u : Value Ty Node Data) (p : Out Ty Node Data) : Prop where
  at_ : At G asked v o u p
  redactor : T.asRedactor u
  not_honoured : ¬Honoured p

/-- A mask exposes nothing. -/
theorem Raw.ne_mask (h : Raw G asked v o u p) : o ≠ .mask :=
  fun ho ↦ h.not_honoured (.inl (h.at_.of_mask ho))

/-- A value that is asked and walked is no Redactor. -/
theorem Enters.not_redactor (h : Enters G lower f c asked d) :
    asked → T.asRedactor d.value = false := by
  cases h with
  | value _ _ hv => exact fun _ ↦ hv
  | rendering => exact nofun

variable {depth addr : ℕ} {key : Bytes} {t : Ty} {n : Node}

/-- Whatever is logged of a payload, its bytes are in it. -/
theorem Raw.of_bytes (hbyte : T.kind (T.elem t) = .uint8)
    (hne : ¬(asked = true ∧ u = .slice t (some n)))
    (h : Raw G asked (.slice t (some n))
      (filterByType G lower f walk depth key (.slice t (some n)) visited) u p) :
    HandsOver G lower f asked ⟨depth, key, .slice t (some n), visited⟩ := by
  have hmask := h.ne_mask
  obtain ⟨hat, hred, -⟩ := h
  simp only [filterByType, if_pos hbyte] at hat hmask
  cases hp : filterOpaquePayload lower f (G.payload (G.elements t n)) with
  | original =>
    rw [hp] at hat
    exact .bytes hbyte (by simp [hp]) ((At.of_keptSlice hat rfl).resolve_left hne) hred
  | mask =>
    rw [hp] at hmask
    exact absurd rfl hmask
  | encoded doc =>
    rw [hp] at hat
    exact .bytes hbyte (by simp [hp]) ((At.of_encoded hat rfl).resolve_left hne) hred

/-- A slice or an array is kept with its elements, or they are walked. -/
theorem Raw.of_filterSliceOrArray (hl : v.list? = some (t, n)) (hne : ¬(asked = true ∧ u = v))
    (h : Raw G asked v (filterSliceOrArray G walk depth key t n visited) u p) :
    keepsSlice G depth t n ∧ u ∈ G.elements t n ∨ keepsSlice G depth t n = false ∧
      ∃ w ∈ G.elements t n, Raw G true w (walk key w visited) u p := by
  obtain ⟨hat, hred, hraw⟩ := h
  rw [filterSliceOrArray] at hat
  by_cases hkeep : keepsSlice G depth t n
  · rw [if_pos hkeep] at hat
    exact .inl ⟨hkeep, (hat.of_keptSlice hl).resolve_left hne⟩
  · rw [if_neg hkeep] at hat
    obtain ⟨w, hw, hat⟩ := (hat.of_list hl).resolve_left hne
    exact .inr ⟨by simpa using hkeep, w, hw, hat, hred, hraw⟩

/-- A pointer is followed, or kept with what it points to. A struct behind it is walked without
being asked. -/
theorem Raw.of_filterPointer
    (hv : asked → T.asRedactor (.pointer t addr : Value Ty Node Data) = false)
    (hne : ¬(asked = true ∧ u = .pointer t addr))
    (h : Raw G asked (.pointer t addr) (filterPointer G walk key t addr visited) u p) :
    (∃ c', Descends G Assign.IsLast ⟨depth, key, .pointer t addr, visited⟩ c' ∧
      Raw G true c'.value (walk c'.key c'.value c'.visited) u p) ∨
        HandsOver G lower f asked ⟨depth, key, .pointer t addr, visited⟩ := by
  have hmask := h.ne_mask
  obtain ⟨hat, hred, hraw⟩ := h
  obtain ⟨haddr, hat⟩ := (hat.of_pointer hv).resolve_left hne
  by_cases hstruct : T.kind (T.elem t) = .struct
  · obtain ⟨n, hn⟩ := G.exists_struct haddr hstruct
    rw [filterPointer_struct haddr hstruct hn] at hat hmask
    have hmem : addr ∉ visited := fun hmem ↦ hmask (if_pos hmem)
    simp only [hn, if_neg hmem, asksTarget, hstruct, ne_eq, not_true_eq_false, decide_false,
      Bool.false_and, Bool.or_false] at hat
    obtain ⟨rfl, rfl⟩ | ⟨k, w, hlast, hat⟩ := hat.of_filterEntries rfl
    · exact .inr (.structPointer haddr hstruct hmem (hn ▸ hred))
    · exact .inl ⟨_, .pointerField haddr hstruct hn hmem hlast, hat, hred, hraw⟩
  by_cases hkeep : keepsPointer T t
  · obtain ⟨x, hx⟩ := G.exists_leaf haddr hkeep
    simp only [filterPointer, if_neg haddr, if_neg hstruct, hx, asksTarget, hkeep, Bool.not_true,
      Bool.and_false, Bool.or_false] at hat
    obtain ⟨rfl, rfl⟩ := hat.eq_of_leaf rfl rfl (by simp) (by simp)
    exact .inr (.keptPointer haddr hstruct hkeep (hx ▸ hred))
  · have hasks : (asked || asksTarget T t) = true := by simp [asksTarget, hstruct, hkeep]
    rw [filterPointer_walked haddr hstruct hkeep] at hat hmask
    have hmem : addr ∉ visited := fun hmem ↦ hmask (if_pos hmem)
    rw [if_neg hmem, hasks] at hat
    exact .inl ⟨_, .pointer haddr hstruct (by simpa using hkeep) hmem, hat, hred, hraw⟩

/-- One level of the walk: a raw Redactor in its result is in one of the results below, or is taken
along. -/
theorem Raw.of_filterByType (hv : asked → T.asRedactor d.value = false)
    (h : Raw G asked d.value (filterByType G lower f walk d.depth d.key d.value d.visited) u p) :
    (∃ c', Descends G Assign.IsLast d c' ∧
      Raw G true c'.value (walk c'.key c'.value c'.visited) u p) ∨
        HandsOver G lower f asked d := by
  -- A value that was asked and is walked is no Redactor itself.
  have hne : ¬(asked = true ∧ u = d.value) := by
    rintro ⟨rfl, rfl⟩
    simpa [hv rfl] using h.redactor
  have ⟨hat, hred, hraw⟩ := h
  obtain ⟨depth, key, v, visited⟩ := d
  cases v with
  | nil | leaf t x => exact absurd (hat.eq_of_leaf rfl rfl (by simp) (by simp [filterByType])) hne
  | string t s =>
    refine absurd (hat.eq_of_leaf rfl rfl (by simp) fun q ↦ ?_) hne
    simp only [filterByType]
    cases filterOpaquePayload lower f s <;> simp [Out.ofFiltered]
  | map t n =>
    cases n with
    | none =>
      exact absurd (hat.eq_of_leaf rfl rfl (by simp)
        (by simp [filterByType, filterReflectMap])) hne
    | some n =>
      rw [filterByType_map] at hat
      obtain ⟨k, w, hlast, hat⟩ := (hat.of_filterEntries rfl).resolve_left hne
      exact .inl ⟨_, .entry hlast, hat, hred, hraw⟩
  | slice t n =>
    cases n with
    | none =>
      refine absurd (hat.eq_of_leaf rfl rfl (by simp) fun q ↦ ?_) hne
      simp only [filterByType]
      split
      · cases filterOpaquePayload lower f [] <;> simp [Out.ofFiltered]
      · simp
    | some n =>
      by_cases hbyte : T.kind (T.elem t) = .uint8
      · exact .inr (h.of_bytes hbyte hne)
      rw [filterByType_slice hbyte] at h
      obtain ⟨hkeep, hu⟩ | ⟨hkeep, w, hw, h⟩ := h.of_filterSliceOrArray rfl hne
      · exact .inr (.slice hbyte hkeep hu hred)
      · exact .inl ⟨_, .sliceElement hbyte hkeep hw, h⟩
  | array t n =>
    obtain ⟨hkeep, hu⟩ | ⟨hkeep, w, hw, h⟩ := h.of_filterSliceOrArray rfl hne
    · exact .inr (.array hkeep hu hred)
    · exact .inl ⟨_, .arrayElement hkeep hw, h⟩
  | struct t n =>
    obtain ⟨k, w, hlast, hat⟩ := (hat.of_filterEntries rfl).resolve_left hne
    exact .inl ⟨_, .field hlast, hat, hred, hraw⟩
  | pointer t addr => exact h.of_filterPointer hv hne

/-- A raw Redactor in what a call walks is one in what is logged for the call. -/
theorem Enters.raw (h : Enters G lower f c asked d) (hnil : d.value ≠ .nil)
    (hraw : Raw G asked d.value (d.byType G lower f) u p) :
    Raw G true c.value (c.out G lower f) u p := by
  refine ⟨?_, hraw.redactor, hraw.not_honoured⟩
  rw [h.out_eq hnil]
  cases h with
  | value => exact hraw.at_
  | rendering _ _ hv => exact .rendering hv hraw.at_

/-- A raw Redactor in what is logged for a call is one in what the call walks. -/
theorem Raw.exists_enters (h : Raw G true c.value (c.out G lower f) u p) :
    ∃ asked d, Enters G lower f c asked d ∧ d.depth ≤ c.depth ∧ 0 < d.depth ∧
      Raw G asked d.value (d.byType G lower f) u p := by
  have hkey : f.isSensitiveField lower c.key = false := by
    by_contra hkey
    exact h.ne_mask (filterValue_sensitive (by simpa using hkey))
  have hnil : c.value ≠ .nil := by
    intro hnil
    have hout : c.out G lower f = .nil := by rw [Call.out, hnil, filterValue_nil hkey]
    rw [hout, hnil] at h
    obtain ⟨-, rfl⟩ := h.at_.eq_of_leaf rfl rfl (by simp) (by simp)
    simpa [Types.asRedactor, Value.type?] using h.redactor
  have hdepth : 0 < c.depth := by
    rw [Nat.pos_iff_ne_zero]
    intro hzero
    refine h.ne_mask ?_
    rw [Call.out, hzero]
    exact filterValue_zero hnil
  by_cases hv : T.asRedactor c.value
  · -- The Redactor's own place holds its rendering, so that the raw one is inside.
    have hout : c.out G lower f = .rendered (filterRedactedShape G lower f
        (filterValue G lower f (c.depth - 1 - 1)) (c.depth - 1) c.key (G.redactedForLog c.value)
        c.visited) := by
      rw [Call.out, ← Nat.sub_add_cancel hdepth, filterValue_redactor hkey hv, Nat.add_sub_cancel]
    obtain ⟨hat, hred, hnot⟩ := h
    rw [hout] at hat
    have hat := (hat.of_redactor hv).resolve_left fun hp ↦ hnot (.inr ⟨_, hp⟩)
    have hshape : G.redactedForLog c.value ≠ .nil := by
      intro hshape
      rw [hshape] at hat
      cases (hat.eq_of_leaf rfl rfl (by simp) (by simp [filterRedactedShape])).1
    rw [filterRedactedShape_of_ne_nil _ _ _ _ hshape] at hat
    have hpos : c.depth - 1 ≠ 0 := by
      intro hzero
      rw [if_pos hzero] at hat
      exact hnot (.inl (hat.of_mask rfl))
    rw [if_neg hpos] at hat
    exact ⟨false, _, .rendering hkey (by omega) hv, Nat.sub_le _ _, Nat.pos_of_ne_zero hpos, hat,
      hred, hnot⟩
  · have hv : T.asRedactor c.value = false := by simpa using hv
    have henters : Enters G lower f c true c := .value hkey hdepth hv
    refine ⟨true, c, henters, le_rfl, hdepth, ?_⟩
    rwa [henters.out_eq hnil, if_pos rfl] at h

/-- **A raw Redactor in the output was taken along somewhere**: by induction on the depth budget. -/
theorem Raw.exposes (h : Raw G true c.value (c.out G lower f) u p) : Exposes G lower f c := by
  induction hd : c.depth using Nat.strongRecOn generalizing c with
  | ind depth ih =>
    obtain ⟨asked, d, henters, hle, hpos, h⟩ := h.exists_enters
    obtain ⟨c', hc', h⟩ | h := h.of_filterByType henters.not_redactor
    · have hlt := hc'.depth_eq
      rw [← hlt] at h
      exact .of_visits ⟨asked, d, henters, hc'⟩ (ih c'.depth (by omega) h rfl)
    · exact ⟨c, asked, d, .refl, henters, h⟩

/-! ### Redactors that are taken along are not honoured -/

theorem not_honoured_kept (v : Value Ty Node Data) : ¬Honoured (.kept v) := by
  rintro (h | ⟨p, h⟩) <;> cases h

theorem HandsOver.value_ne_nil (h : HandsOver G lower f asked d) : d.value ≠ .nil := by
  cases h <;> nofun

/-- What is handed over is in the output as it was. -/
theorem HandsOver.exists_raw (hv : asked → T.asRedactor d.value = false)
    (h : HandsOver G lower f asked d) :
    ∃ u p, Raw G asked d.value (d.byType G lower f) u p := by
  rw [Call.byType]
  cases h with
  | @slice asked depth key t n u visited hbyte hkeep hu hred =>
    rw [filterByType_slice hbyte, filterSliceOrArray, if_pos hkeep]
    exact ⟨u, _, at_keptSlice hv rfl hu, hred, not_honoured_kept u⟩
  | @array asked depth key t n u visited hkeep hu hred =>
    simp only [filterByType, filterSliceOrArray, if_pos hkeep]
    exact ⟨u, _, at_keptSlice hv rfl hu, hred, not_honoured_kept u⟩
  | @bytes asked depth key t n u visited hbyte hmask hu hred =>
    simp only [filterByType, if_pos hbyte]
    cases hp : filterOpaquePayload lower f (G.payload (G.elements t n)) with
    | original => exact ⟨u, _, at_keptSlice hv rfl hu, hred, not_honoured_kept u⟩
    | mask m => exact absurd hp (hmask m)
    | encoded doc =>
      refine ⟨u, _, .encodedElement hv rfl hu, hred, ?_⟩
      rintro (h | ⟨p, h⟩) <;> cases h
  | @structPointer depth key t addr visited haddr hstruct hmem hred =>
    obtain ⟨n, hn⟩ := G.exists_struct haddr hstruct
    rw [filterByType, filterPointer_struct haddr hstruct hn, if_neg hmem]
    refine ⟨_, _, .pointer hv haddr (.here _ _), hred, ?_⟩
    rintro (h | ⟨p, h⟩) <;> cases h
  | @keptPointer depth key t addr visited haddr hstruct hkeep hred =>
    simp only [filterByType, filterPointer, if_neg haddr, if_neg hstruct, if_pos hkeep]
    refine ⟨_, _, .pointer hv haddr (.here _ _), hred, ?_⟩
    rintro (h | ⟨p, h⟩) <;> cases h

/-- A raw Redactor below is one above, or is under a struct that is one. -/
theorem Descends.exists_raw {c' : Call Ty Node Data} (hv : asked → T.asRedactor d.value = false)
    (h : Descends G Assign.IsLast d c')
    (hraw : ∃ u p, Raw G true c'.value (c'.out G lower f) u p) :
    ∃ u p, Raw G asked d.value (d.byType G lower f) u p := by
  obtain ⟨u, p, hat, hred, hnot⟩ := hraw
  by_cases hover : HandsOver G lower f asked d
  · exact hover.exists_raw hv
  refine ⟨u, p, ?_, hred, hnot⟩
  rw [Call.byType]
  cases h with
  | entry hlast =>
    rw [filterByType_map]
    exact at_filterEntries hv rfl hlast hat
  | sliceElement hbyte hkeep hu =>
    rw [filterByType_slice hbyte, filterSliceOrArray, if_neg (by simp [hkeep])]
    exact at_list hv rfl hu hat
  | arrayElement hkeep hu =>
    simp only [filterByType, filterSliceOrArray, hkeep, Bool.false_eq_true, if_false]
    exact at_list hv rfl hu hat
  | field hlast => exact at_filterEntries hv rfl hlast hat
  | @pointerField depth key k t t' addr n w visited haddr hstruct hn hmem hlast =>
    have htarget : (asked || asksTarget T t) → T.asRedactor (G.target t addr) = false := by
      intro hasked
      have hasked : asked = true := by simpa [asksTarget, hstruct] using hasked
      subst hasked
      by_contra htarget
      exact hover (.structPointer haddr hstruct hmem (by simpa using htarget))
    rw [filterByType, filterPointer_struct haddr hstruct hn, if_neg hmem]
    refine .pointer hv haddr ?_
    rw [hn] at htarget ⊢
    exact at_filterEntries htarget rfl hlast hat
  | @pointer depth key t addr visited haddr hstruct hkeep hmem =>
    have hasks : (asked || asksTarget T t) = true := by simp [asksTarget, hstruct, hkeep]
    rw [filterByType, filterPointer_walked haddr hstruct (by simp [hkeep]), if_neg hmem]
    exact .pointer hv haddr (hasks ▸ hat)

/-- What is exposed is in the output as it was. -/
theorem Exposes.exists_raw (h : Exposes G lower f c) :
    ∃ u p, Raw G true c.value (c.out G lower f) u p := by
  obtain ⟨c', asked, d, hpath, henters, h⟩ := h
  induction hpath using ReflTransGen.head_induction_on with
  | refl =>
    obtain ⟨u, p, hraw⟩ := h.exists_raw henters.not_redactor
    exact ⟨u, p, henters.raw h.value_ne_nil hraw⟩
  | head hstep _ ih =>
    obtain ⟨asked', d', henters', hdescends⟩ := hstep
    obtain ⟨u, p, hraw⟩ := hdescends.exists_raw henters'.not_redactor ih
    have hnil : d'.value ≠ .nil := by cases hdescends <;> simp
    exact ⟨u, p, henters'.raw hnil hraw⟩

/-! ### The result -/

/-- **Redactors are honoured**, at every depth and inside of renderings, exactly if the walk comes
to no value with which it takes one along. -/
theorem FilterValue_honours (key : Bytes) (v : Value Ty Node Data) :
    Honours G v (FilterValue G lower f key v) ↔
      ¬Exposes G lower f ⟨defaultMaxDepth, key, v, []⟩ := by
  constructor
  · intro h hexposes
    obtain ⟨u, p, hat, hred, hnot⟩ := hexposes.exists_raw
    exact hnot (h u p hat hred)
  · intro h u p hat hred
    by_contra hnot
    exact h (Raw.exposes ⟨hat, hred, hnot⟩)

/-- A slice type (0) of integers (of type 1) that are Redactors. -/
def pinTypes : Types (Fin 2) where
  kind t := if t = 0 then .slice else .int
  elem _ := 1
  anyMap _ := false
  redactor t := t = 1

/-- One slice, with the element 1234, which is rendered as 0. -/
def pins : Graph pinTypes Unit ℕ where
  entries _ := []
  elements _ _ := [.leaf 1 1234]
  fields _ _ := []
  target _ _ := .leaf 1 0
  byte _ := 0
  redactedForLog _ := .leaf 1 0
  elements_holds := by
    intro t n v hv
    rw [List.mem_singleton.mp hv]
    exact ⟨⟨rfl, by decide⟩, .inr rfl⟩
  target_holds := fun _ _ _ ↦ ⟨⟨rfl, by decide⟩, .inr rfl⟩

/-- The element is a Redactor, and is logged as it came. -/
theorem logs_pins :
    pinTypes.asRedactor (.leaf 1 1234 : Value (Fin 2) Unit ℕ) ∧
      FilterValue pins Utf8.asciiFold passwordFilter [] (.slice 0 (some ())) =
        .keptSlice 0 [.leaf 1 1234] ∧
      ¬Honours pins (.slice 0 (some ()))
        (FilterValue pins Utf8.asciiFold passwordFilter [] (.slice 0 (some ()))) := by
  have hout : FilterValue pins Utf8.asciiFold passwordFilter [] (.slice 0 (some ())) =
      .keptSlice 0 [.leaf 1 1234] := rfl
  refine ⟨rfl, hout, ?_⟩
  intro h
  have hat : At pins true (.slice 0 (some ())) (.keptSlice 0 [.leaf 1 1234]) (.leaf 1 1234)
      (.kept (.leaf 1 1234)) := at_keptSlice (fun _ ↦ rfl) rfl (List.mem_singleton.mpr rfl)
  exact not_honoured_kept _ (h _ _ hat rfl)

end Logger
