import GoBricks.KeyStore.Tree
import GoBricks.Lib.Paths

/-!
# Reading nested names back

The names of a set of entries, nested into one tree by their dots, are read back by `readKeyTree`
exactly, or the reading fails, and it fails exactly if one name is a dotted prefix of another.

A name's segments after the first are no field words, so that a node of the tree has a child that
names a field only if an entry is at it. Reading a node is by induction on the depth of the tree
(`walk_nest`).
-/

open Text KeyName Paths List

namespace KeyStore

/-! ### Nesting -/

/-- A map as its entries in the order of their keys. -/
def inOrder (l : List (Bytes × Node)) : List (Bytes × Node) :=
  l.insertionSort fun a b ↦ le a.1 b.1

variable {c : Bytes × Node}

theorem mem_inOrder {l : List (Bytes × Node)} : c ∈ inOrder l ↔ c ∈ l :=
  (perm_insertionSort _ _).mem_iff

/-- Entries at paths as a tree: at each node the fields of the entry there, and a child for each
segment that comes next. -/
def nest : ℕ → List (List Bytes × List (Bytes × Node)) → List (Bytes × Node)
  | 0, E => inOrder (here E).flatten
  | n + 1, E =>
    inOrder ((here E).flatten ++ (heads E).map fun seg ↦ (seg, .map (nest n (below seg E))))

/-- The entries with their names split at the dots. -/
def paths (entries : List (Bytes × List (Bytes × Node))) :
    List (List Bytes × List (Bytes × Node)) :=
  entries.map fun e ↦ (e.1.splitOn sep, e.2)

/-- The tree of a set of entries, each with a name and its fields. -/
def nestNames (entries : List (Bytes × List (Bytes × Node))) : List (Bytes × Node) :=
  nest (depth (paths entries)) (paths entries)

/-! ### Reading entries -/

variable (caseFold : ℕ → ℕ)

/-- A child of a node that is a field of an entry. -/
def IsField (c : Bytes × Node) : Prop :=
  ∃ schema, keyEntrySchema.child caseFold c.1 = some schema ∧
    ∀ path, checkAgainstSchema caseFold path c.1 schema c.2 = .ok ()

/-- What an entry may hold: fields, and at least one. -/
def IsEntry (fields : List (Bytes × Node)) : Prop :=
  fields ≠ [] ∧ ∀ c ∈ fields, IsField caseFold c

/-- A reader assigns what is in the set, to any map. -/
def Reads (r : Entries → Except TreeError Entries) (S : Bytes × Node → Prop) : Prop :=
  ∃ l : Entries, (∀ out, r out = .ok (l.foldl (fun m e ↦ Assign.assign e.1 e.2 m) out)) ∧ ∀ x, x ∈
  l ↔ S x

/-- A reader fails whatever was read before. -/
def Fails (r : Entries → Except TreeError Entries) : Prop :=
  ∀ out, ∃ e, r out = .error e

variable {caseFold} {pre name : Bytes} {children : List (Bytes × Node)}

theorem reads_assign {r : Entries → Except TreeError Entries} {node : Node}
    (hr : ∀ out, r out = .ok (Assign.assign name node out)) : Reads r (· = (name, node)) :=
  ⟨[(name, node)], hr, fun _ ↦ mem_singleton⟩

/-- No child is a field of an entry. -/
theorem entryField_eq_none_iff :
    entryField caseFold children = none ↔
      ∀ c ∈ children, keyEntrySchema.child caseFold c.1 = none := by
  rw [entryField, Option.map_eq_none_iff, List.find?_eq_none]
  simp

theorem checkEntry_eq_ok (name setField : Bytes) (h : ∀ c ∈ children, IsField caseFold c) :
    checkEntry caseFold name setField children = .ok () := by
  induction children with
  | nil => rfl
  | cons c children ih =>
    obtain ⟨key, child⟩ := c
    obtain ⟨schema, hschema, hcheck⟩ := h (key, child) mem_cons_self
    rw [checkEntry, hschema]
    dsimp only
    rw [hcheck]
    exact ih fun c hc ↦ h c (mem_cons_of_mem _ hc)

/-- An entry with a child that is no field is refused. -/
theorem checkEntry_eq_error (name setField : Bytes) (hc : c ∈ children)
    (hnone : keyEntrySchema.child caseFold c.1 = none) :
    ∃ e, checkEntry caseFold name setField children = .error e := by
  induction children with
  | nil => cases hc
  | cons d children ih =>
    obtain ⟨key, child⟩ := d
    rw [checkEntry]
    split
    · next schema hschema =>
      have hne : c ≠ (key, child) := by
        rintro rfl
        cases hnone.symm.trans hschema
      split
      · next e _ => exact ⟨e, rfl⟩
      · exact ih ((mem_cons.mp hc).resolve_left hne)
    · split
      · exact ⟨_, rfl⟩
      · exact ⟨_, rfl⟩

/-- An entry is read under its name. -/
theorem readKeyNode_entry (name : Bytes) (hentry : IsEntry caseFold children) :
    Reads (readKeyNode caseFold name (.map children)) (· = (name, .map children)) := by
  refine reads_assign fun out ↦ ?_
  obtain ⟨c, hc⟩ := exists_mem_of_ne_nil _ hentry.1
  obtain ⟨schema, hschema, -⟩ := hentry.2 c hc
  rw [readKeyNode]
  split
  · rw [checkEntry_eq_ok name _ hentry.2]
  · next hnone =>
    rw [entryField_eq_none_iff.mp hnone c hc] at hschema
    cases hschema

/-- A node with a field and with another child is refused. -/
theorem readKeyNode_mixed {d : Bytes × Node} (hc : c ∈ children)
    (hfield : (keyEntrySchema.child caseFold c.1).isSome) (hd : d ∈ children)
    (hplain : keyEntrySchema.child caseFold d.1 = none) :
    Fails (readKeyNode caseFold name (.map children)) := by
  intro out
  rw [readKeyNode]
  split
  · next field _ =>
    obtain ⟨e, he⟩ := checkEntry_eq_error name field hd hplain
    rw [he]
    exact ⟨e, rfl⟩
  · next hnone =>
    rw [entryField_eq_none_iff.mp hnone c hc] at hfield
    cases hfield

/-- A node with no field is walked. -/
theorem readKeyNode_namespace (hne : children ≠ [])
    (hplain : ∀ c ∈ children, keyEntrySchema.child caseFold c.1 = none) (out : Entries) :
    readKeyNode caseFold name (.map children) out = walkKeys caseFold name children out := by
  rw [readKeyNode, entryField_eq_none_iff.mpr hplain]
  rw [if_neg (by simpa using hne)]

theorem checkTreeKey_eq_ok {root key : Bytes} (hne : key ≠ []) (hsep : sep ∉ key) :
    checkTreeKey root pre key = .ok () := by
  rw [checkTreeKey, if_neg hne, if_pos (by simpa using hsep)]

/-- A walk reads what its children do. -/
theorem walkKeys_reads {S : Bytes × Node → Bytes × Node → Prop}
    (hkeys : ∀ c ∈ children, c.1 ≠ [] ∧ sep ∉ c.1)
    (hreads : ∀ c ∈ children, Reads (readKeyNode caseFold (joinName pre c.1) c.2) (S c)) :
    Reads (walkKeys caseFold pre children) fun x ↦ ∃ c ∈ children, S c x := by
  induction children with
  | nil => exact ⟨[], fun out ↦ by rw [walkKeys]; rfl, fun x ↦ by simp⟩
  | cons c children ih =>
    obtain ⟨key, child⟩ := c
    obtain ⟨l, hl, hmem⟩ := hreads (key, child) mem_cons_self
    obtain ⟨l', hl', hmem'⟩ := ih (fun c hc ↦ hkeys c (mem_cons_of_mem _ hc))
      fun c hc ↦ hreads c (mem_cons_of_mem _ hc)
    obtain ⟨hne, hsep⟩ := hkeys (key, child) mem_cons_self
    refine ⟨l ++ l', fun out ↦ ?_, fun x ↦ ?_⟩
    · rw [walkKeys, checkTreeKey_eq_ok hne hsep]
      rw [hl out]
      dsimp only
      rw [hl', foldl_append]
    · rw [mem_append, hmem, hmem']
      simp

theorem walkKeys_fails (hc : c ∈ children)
    (hfails : Fails (readKeyNode caseFold (joinName pre c.1) c.2)) :
    Fails (walkKeys caseFold pre children) := by
  induction children with
  | nil => cases hc
  | cons d children ih =>
    intro out
    rw [walkKeys]
    split
    · next e _ => exact ⟨e, rfl⟩
    · split
      · next e _ => exact ⟨e, rfl⟩
      · next out' hout =>
        rcases mem_cons.mp hc with rfl | hc
        · obtain ⟨e, he⟩ := hfails out
          cases he.symm.trans hout
        · exact ih hc out'

/-! ### Reading a tree -/

/-- Entries at paths that a tree of a depth can hold: their segments are no field words, but for the
first. -/
structure Nestable (caseFold : ℕ → ℕ) (n : ℕ) (E : List (List Bytes × List (Bytes × Node))) :
    Prop where
  nonempty : ∀ e ∈ E, e.1 ≠ []
  short : ∀ e ∈ E, e.1.length ≤ n
  segments : ∀ e ∈ E, ∀ seg ∈ e.1, seg ≠ [] ∧ sep ∉ seg
  plain : ∀ e ∈ E, ∀ seg ∈ e.1.tail, keyEntrySchema.child caseFold seg = none
  entries : ∀ e ∈ E, IsEntry caseFold e.2
  distinct : (E.map Prod.fst).Nodup

variable {n : ℕ} {E : List (List Bytes × List (Bytes × Node))}

variable {seg : Bytes}

/-- What is below a segment can be nested. -/
theorem Nestable.below (h : Nestable caseFold (n + 1) E) (hnot : ∀ f, ([], f) ∉ below seg E) :
    Nestable caseFold n (below seg E) where
  nonempty := by
    rintro ⟨p, f⟩ he rfl
    exact hnot f he
  short := by
    rintro ⟨p, f⟩ he
    exact Nat.le_of_succ_le_succ (h.short _ (mem_below.mp he))
  segments := by
    rintro ⟨p, f⟩ he s hs
    exact h.segments _ (mem_below.mp he) s (mem_cons_of_mem _ hs)
  plain := by
    rintro ⟨p, f⟩ he s hs
    exact h.plain _ (mem_below.mp he) s (mem_of_mem_tail hs)
  entries := by
    rintro ⟨p, f⟩ he
    exact h.entries (seg :: p, f) (mem_below.mp he)
  distinct := nodup_below h.distinct

/-- The children of a node of the tree. -/
theorem mem_nest : c ∈ nest (n + 1) E ↔
    (∃ f, ([], f) ∈ E ∧ c ∈ f) ∨ ∃ seg ∈ heads E, c = (seg, .map (nest n (below seg E))) := by
  rw [nest, mem_inOrder, List.mem_append, List.mem_flatten, List.mem_map]
  refine or_congr ?_ ?_
  · simp only [mem_here]
  · simp only [eq_comm]

/-- What a tree of entries is read as. -/
def ReadAs (pre : Bytes) (E : List (List Bytes × List (Bytes × Node))) (x : Bytes × Node) : Prop :=
  ∃ e ∈ E, x = (e.1.foldl joinName pre, .map (inOrder e.2))

theorem nest_ne_nil (hE : E ≠ []) (h : ∀ e ∈ E, e.1 ≠ []) (hshort : ∀ e ∈ E, e.1.length ≤ n) :
    nest n E ≠ [] := by
  obtain ⟨⟨p, f⟩, he⟩ := exists_mem_of_ne_nil _ hE
  obtain ⟨seg, p, rfl⟩ := exists_cons_of_ne_nil (h _ he)
  obtain ⟨m, rfl⟩ : ∃ m, n = m + 1 := ⟨n - 1, by have := hshort _ he; simp at this; omega⟩
  exact ne_nil_of_mem (mem_nest.mpr (.inr ⟨seg, mem_heads.mpr ⟨p, f, he⟩, rfl⟩))

/-- The node of a single entry holds its fields. -/
theorem nest_singleton (n : ℕ) (f : List (Bytes × Node)) : nest n [([], f)] = inOrder f := by
  have hhere : (here [(([] : List Bytes), f)]).flatten = f := append_nil f
  cases n with
  | zero => rw [nest, hhere]
  | succ n =>
    have hheads : heads [(([] : List Bytes), f)] = [] := rfl
    rw [nest, hhere, hheads, map_nil, append_nil]

theorem isEntry_inOrder {f : List (Bytes × Node)} (h : IsEntry caseFold f) :
    IsEntry caseFold (inOrder f) := by
  obtain ⟨c, hc⟩ := exists_mem_of_ne_nil _ h.1
  exact ⟨ne_nil_of_mem (mem_inOrder.mpr hc), fun c hc ↦ h.2 c (mem_inOrder.mp hc)⟩

/-- An entry and another one below it: the node has a field and another child. -/
theorem readKeyNode_nest_fails (h : Nestable caseFold (n + 1) E) {f f' : List (Bytes × Node)}
    (hf : ([], f) ∈ below seg E) {s : Bytes} {p : List Bytes} (hp : (s :: p, f') ∈ below seg E) :
    Fails (readKeyNode caseFold name (.map (nest n (below seg E)))) := by
  have hlength := h.short _ (mem_below.mp hp)
  obtain ⟨m, rfl⟩ : ∃ m, n = m + 1 := ⟨n - 1, by simp at hlength; omega⟩
  obtain ⟨hne, hfields⟩ := h.entries _ (mem_below.mp hf)
  obtain ⟨c, hc⟩ := exists_mem_of_ne_nil _ hne
  obtain ⟨schema, hschema, -⟩ := hfields c hc
  have hplain := h.plain _ (mem_below.mp hp) s mem_cons_self
  refine readKeyNode_mixed (mem_nest.mpr (.inl ⟨f, hf, hc⟩)) (by rw [hschema]; rfl)
    (mem_nest.mpr (.inr ⟨s, mem_heads.mpr ⟨p, f', hp⟩, rfl⟩)) hplain

/-- A node that no entry is at is a namespace. -/
theorem readKeyNode_nest_namespace (h : Nestable caseFold (n + 1) E) (hseg : seg ∈ heads E)
    (hnot : ∀ f, ([], f) ∉ below seg E) (out : Entries) :
    readKeyNode caseFold name (.map (nest n (below seg E))) out =
      walkKeys caseFold name (nest n (below seg E)) out := by
  have hbelow := h.below hnot
  obtain ⟨p, f, hp⟩ := mem_heads.mp hseg
  have hmem := mem_below.mpr hp
  refine readKeyNode_namespace
    (nest_ne_nil (ne_nil_of_mem hmem) hbelow.nonempty hbelow.short) (fun c hc ↦ ?_) out
  have hlength := hbelow.short _ hmem
  have hpos := length_pos_iff.mpr (hbelow.nonempty _ hmem)
  obtain ⟨m, rfl⟩ : ∃ m, n = m + 1 := ⟨n - 1, by omega⟩
  rcases mem_nest.mp hc with ⟨f, hf, -⟩ | ⟨s, hs, rfl⟩
  · exact absurd hf (hnot f)
  · obtain ⟨q, f', hq⟩ := mem_heads.mp hs
    exact h.plain _ (mem_below.mp hq) s mem_cons_self

/-- The children of a nesting are the first segments. -/
theorem mem_nest_of_nestable (h : Nestable caseFold (n + 1) E) :
    c ∈ nest (n + 1) E ↔ ∃ seg ∈ heads E, c = (seg, .map (nest n (below seg E))) := by
  rw [mem_nest, or_iff_right]
  rintro ⟨f, hf, -⟩
  exact h.nonempty _ hf rfl

/-- A tree of entries is read back, or one of their names goes on from another one. -/
theorem walk_nest (h : Nestable caseFold n E) (pre : Bytes) :
    (PrefixFree E → Reads (walkKeys caseFold pre (nest n E)) (ReadAs pre E)) ∧
      (¬PrefixFree E → Fails (walkKeys caseFold pre (nest n E))) := by
  induction n generalizing E pre with
  | zero =>
    have hnil : E = [] := by
      rw [eq_nil_iff_forall_not_mem]
      intro e he
      exact h.nonempty e he (length_eq_zero_iff.mp (Nat.le_zero.mp (h.short e he)))
    subst hnil
    refine ⟨fun _ ↦ ⟨[], fun out ↦ ?_, fun x ↦ ?_⟩, fun hnot ↦ absurd ?_ hnot⟩
    · rfl
    · simp [ReadAs]
    · exact fun e he ↦ (nomatch he)
  | succ n ih =>
    refine ⟨fun hfree ↦ ?_, fun hnot ↦ ?_⟩
    · -- Each child is an entry by itself or a namespace.
      have hchild : ∀ seg ∈ heads E, Reads
          (readKeyNode caseFold (joinName pre seg) (.map (nest n (below seg E))))
          (ReadAs (joinName pre seg) (below seg E)) := by
        intro seg hseg
        by_cases hat : ∃ f, ([], f) ∈ below seg E
        · obtain ⟨f, hf⟩ := hat
          have hpaths : ∀ e ∈ below seg E, e.1 = [] := fun e he ↦
            ((hfree.below seg) _ hf e he ( nil_prefix)).symm
          have hsingle := eq_singleton (nodup_below h.distinct) hpaths hf
          rw [hsingle, nest_singleton]
          obtain ⟨l, hl, hmem⟩ := readKeyNode_entry (joinName pre seg)
            (isEntry_inOrder (h.entries _ (mem_below.mp hf)))
          refine ⟨l, hl, fun x ↦ (hmem x).trans ?_⟩
          simp [ReadAs]
        · have hnone : ∀ f, ([], f) ∉ below seg E := fun f hf ↦ hat ⟨f, hf⟩
          obtain ⟨l, hl, hmem⟩ := (ih (h.below hnone) (joinName pre seg)).1 (hfree.below seg)
          exact ⟨l, fun out ↦ (readKeyNode_nest_namespace h hseg hnone out).trans (hl out), hmem⟩
      have hkeys : ∀ c ∈ nest (n + 1) E, c.1 ≠ [] ∧ sep ∉ c.1 := by
        intro c hc
        obtain ⟨seg, hseg, rfl⟩ := (mem_nest_of_nestable h).mp hc
        obtain ⟨p, f, he⟩ := mem_heads.mp hseg
        exact h.segments _ he seg mem_cons_self
      have hreads : ∀ c ∈ nest (n + 1) E, Reads (readKeyNode caseFold (joinName pre c.1) c.2)
          (ReadAs (joinName pre c.1) (below c.1 E)) := by
        intro c hc
        obtain ⟨seg, hseg, rfl⟩ := (mem_nest_of_nestable h).mp hc
        exact hchild seg hseg
      obtain ⟨l, hl, hmem⟩ := walkKeys_reads hkeys hreads
      refine ⟨l, hl, fun x ↦ (hmem x).trans ⟨?_, ?_⟩⟩
      · rintro ⟨c, -, ⟨p, f⟩, he, rfl⟩
        exact ⟨_, mem_below.mp he, rfl⟩
      · rintro ⟨⟨p, f⟩, he, rfl⟩
        obtain ⟨seg, p, rfl⟩ := exists_cons_of_ne_nil (h.nonempty _ he)
        exact ⟨_, (mem_nest_of_nestable h).mpr ⟨seg, mem_heads.mpr ⟨p, f, he⟩, rfl⟩, (p, f),
          mem_below.mpr he, rfl⟩
    · simp only [PrefixFree, not_forall] at hnot
      obtain ⟨⟨p, f⟩, he, ⟨p', f'⟩, he', hpre, hne⟩ := hnot
      obtain ⟨seg, p, rfl⟩ := exists_cons_of_ne_nil (h.nonempty _ he)
      obtain ⟨seg', p', rfl⟩ := exists_cons_of_ne_nil (h.nonempty _ he')
      obtain ⟨rfl, htail⟩ := cons_prefix_cons.mp hpre
      have hne : p ≠ p' := fun heq ↦ hne (heq ▸ rfl)
      have hseg := mem_heads.mpr ⟨p, f, he⟩
      refine walkKeys_fails ((mem_nest_of_nestable h).mpr ⟨seg, hseg, rfl⟩) ?_
      by_cases hat : ∃ f, ([], f) ∈ below seg E
      · -- One of the two paths goes on below the entry.
        obtain ⟨f₀, hf₀⟩ := hat
        obtain ⟨q, g, hq, hqne⟩ : ∃ q g, (q, g) ∈ below seg E ∧ q ≠ [] := by
          by_cases hp : p = []
          · exact ⟨p', f', mem_below.mpr he', fun hp' ↦ hne (hp.trans hp'.symm)⟩
          · exact ⟨p, f, mem_below.mpr he, hp⟩
        obtain ⟨s, q, rfl⟩ := exists_cons_of_ne_nil hqne
        exact readKeyNode_nest_fails h hf₀ hq
      · have hnone : ∀ f, ([], f) ∉ below seg E := fun f hf ↦ hat ⟨f, hf⟩
        have hnot : ¬PrefixFree (below seg E) := fun hfree ↦
          hne (hfree _ (mem_below.mpr he) _ (mem_below.mpr he') htail)
        intro out
        rw [readKeyNode_nest_namespace h hseg hnone out]
        exact (ih (h.below hnone) (joinName pre seg)).2 hnot out

/-! ### Names -/

theorem foldl_joinName {segs : List Bytes} (hpre : pre ≠ []) :
    segs.foldl joinName pre = pre ++ segs.flatMap (sep :: ·) := by
  induction segs generalizing pre with
  | nil => simp
  | cons seg segs ih =>
    rw [foldl_cons, joinName, if_neg hpre, ih (append_ne_nil_of_left_ne_nil hpre _)]
    simp

theorem sep_not_mem_of_validSectionName (h : validSectionName seg) : sep ∉ seg := by
  rw [validSectionName, Bool.and_eq_true, List.all_eq_true] at h
  exact fun hmem ↦ absurd (h.2 sep hmem) (by decide)

theorem ne_nil_of_validSectionName (h : validSectionName seg) : seg ≠ [] := by
  rw [validSectionName, Bool.and_eq_true, bne_iff_ne] at h
  exact h.1

/-- A name is its segments again. -/
theorem foldl_joinName_splitOn (h : validName name) :
    (name.splitOn sep).foldl joinName [] = name := by
  have hjoin : [sep].intercalate (name.splitOn sep) = name := intercalate_splitOn sep
  cases hsplit : name.splitOn sep with
  | nil => exact absurd hsplit (splitOn_ne_nil sep name)
  | cons seg segs =>
    rw [hsplit, Segments.intercalate_cons] at hjoin
    have hne := ne_nil_of_validSectionName
      (validSegment_of_validName h (hsplit ▸ mem_cons_self))
    rw [foldl_cons, joinName, if_pos rfl, foldl_joinName hne]
    exact hjoin

/-- A lower-case ASCII letter, a digit or a hyphen is folded to itself. -/
theorem caseFold_eq_self (hfold : ∀ r < 0x80, caseFold r = Utf8.asciiFold r) {b : UInt8}
    (hb : isSectionByte b) : b < 0x80 ∧ caseFold b.toNat = b.toNat := by
  have hbound : b.toNat < 0x80 ∧ ¬(0x41 ≤ b.toNat ∧ b.toNat ≤ 0x5A) := by
    simp only [isSectionByte, isDigit, hyphen, Bool.or_eq_true, Bool.and_eq_true, decide_eq_true_eq,
      beq_iff_eq, UInt8.le_iff_toNat_le, ← UInt8.toNat_inj] at hb
    have h61 : (0x61 : UInt8).toNat = 0x61 := rfl
    have h7A : (0x7A : UInt8).toNat = 0x7A := rfl
    have h39 : (0x39 : UInt8).toNat = 0x39 := rfl
    have h2D : (0x2D : UInt8).toNat = 0x2D := rfl
    omega
  refine ⟨UInt8.lt_iff_toNat_lt.mpr hbound.1, ?_⟩
  rw [hfold _ hbound.1, Utf8.asciiFold, if_neg hbound.2]

/-- A section's name is ASCII, which the folding leaves alone. -/
theorem runes_section (hfold : ∀ r < 0x80, caseFold r = Utf8.asciiFold r) {s : Bytes}
    (hs : ∀ b ∈ s, isSectionByte b) : (Utf8.runes s).map caseFold = s.map UInt8.toNat := by
  induction s with
  | nil => rfl
  | cons b s ih =>
    obtain ⟨hb, hs⟩ := forall_mem_cons.mp hs
    obtain ⟨hascii, hself⟩ := caseFold_eq_self hfold hb
    rw [Utf8.runes_cons_ascii hascii, map_cons, hself, ih hs, map_cons]

/-- A segment that is no field word names no field. -/
theorem child_eq_none (hfold : ∀ r < 0x80, caseFold r = Utf8.asciiFold r)
    (hvalid : validSectionName seg) (hnot : seg ∉ fieldSegments) :
    keyEntrySchema.child caseFold seg = none := by
  rw [validSectionName, Bool.and_eq_true, List.all_eq_true] at hvalid
  rw [TreeSchema.child, Option.map_eq_none_iff, List.find?_eq_none]
  intro field hfield heq
  have hword : field.1 ∈ fieldSegments := List.mem_map_of_mem (f := Prod.fst) hfield
  have hsection : ∀ w ∈ fieldSegments, ∀ b ∈ w, isSectionByte b := by
    decide +kernel
  rw [Utf8.equalFold, beq_iff_eq, runes_section hfold (hsection _ hword),
    runes_section hfold hvalid.2] at heq
  have hinj : Function.Injective UInt8.toNat := fun _ _ h ↦ UInt8.toNat_inj.mp h
  rw [hinj.list_map heq] at hword
  exact hnot hword

/-- Nesting of names is nesting of paths. -/
theorem isDottedPrefix_iff {a b : Bytes} :
    isDottedPrefix a b ↔ a.splitOn sep <+: b.splitOn sep ∧ a.splitOn sep ≠ b.splitOn sep := by
  have hbelow : a.splitOn sep <+: b.splitOn sep ↔ b = a ∨ ∃ rest, b = a ++ sep :: rest :=
    Segments.below_iff
  have hinj : a.splitOn sep = b.splitOn sep ↔ b = a := by
    constructor
    · intro h
      have hjoin := congrArg [sep].intercalate h
      rw [intercalate_splitOn, intercalate_splitOn] at hjoin
      exact hjoin.symm
    · rintro rfl
      rfl
  rw [isDottedPrefix, isPrefixOf_iff_prefix, hbelow, ne_eq, hinj]
  constructor
  · rintro ⟨rest, rfl⟩
    refine ⟨.inr ⟨rest, by simp⟩, fun heq ↦ ?_⟩
    have := congrArg List.length heq
    simp at this
  · rintro ⟨rfl | ⟨rest, rfl⟩, hne⟩
    · exact absurd rfl hne
    · exact ⟨rest, by simp⟩

/-! ### Sets of names -/

variable {entries : List (Bytes × List (Bytes × Node))}

/-- Valid entries can be nested. -/
theorem nestable_paths (hfold : ∀ r < 0x80, caseFold r = Utf8.asciiFold r)
    (hnodup : (entries.map Prod.fst).Nodup)
    (h : ∀ e ∈ entries, validEntryName e.1 ∧ IsEntry caseFold e.2) :
    Nestable caseFold (depth (paths entries)) (paths entries) := by
  have hvalid : ∀ e ∈ entries, validName e.1 ∧
      ∀ seg ∈ (e.1.splitOn sep).tail, seg ∉ fieldSegments := by
    intro e he
    have hentry := (h e he).1
    rw [validEntryName, Bool.and_eq_true, Option.isNone_iff_eq_none,
      reservedAfterDot_eq_none_iff] at hentry
    exact hentry
  refine ⟨?_, fun e he ↦ length_le_depth he, ?_, ?_, ?_, ?_⟩
  · intro e he
    obtain ⟨x, -, rfl⟩ := mem_map.mp he
    exact splitOn_ne_nil sep x.1
  · intro e he seg hseg
    obtain ⟨x, hx, rfl⟩ := mem_map.mp he
    have hsection := validSegment_of_validName (hvalid x hx).1 hseg
    exact ⟨ne_nil_of_validSectionName hsection, sep_not_mem_of_validSectionName hsection⟩
  · intro e he seg hseg
    obtain ⟨x, hx, rfl⟩ := mem_map.mp he
    have hsection := validSegment_of_validName (hvalid x hx).1 (mem_of_mem_tail hseg)
    exact child_eq_none hfold hsection ((hvalid x hx).2 seg hseg)
  · intro e he
    obtain ⟨x, hx, rfl⟩ := mem_map.mp he
    exact (h x hx).2
  · have hmap : (paths entries).map Prod.fst = (entries.map Prod.fst).map (·.splitOn sep) := by
      rw [paths, List.map_map, List.map_map]
      rfl
    rw [hmap]
    refine hnodup.map fun a b hab ↦ ?_
    have hjoin := congrArg [sep].intercalate hab
    rw [intercalate_splitOn, intercalate_splitOn] at hjoin
    exact hjoin

/-- The paths are free of prefixes when the names are. -/
theorem prefixFree_paths : PrefixFree (paths entries) ↔
    ∀ a ∈ entries.map Prod.fst, ∀ b ∈ entries.map Prod.fst, ¬isDottedPrefix a b := by
  simp only [PrefixFree, paths, List.forall_mem_map, isDottedPrefix_iff, not_and, ne_eq, not_not]

/-- What a nesting of entries is read as. -/
theorem readAs_paths (h : ∀ e ∈ entries, validEntryName e.1) {x : Bytes × Node} :
    ReadAs [] (paths entries) x ↔ ∃ e ∈ entries, x = (e.1, .map (inOrder e.2)) := by
  have hname : ∀ e ∈ entries, (e.1.splitOn sep).foldl joinName [] = e.1 := by
    intro e he
    have hvalid := h e he
    rw [validEntryName, Bool.and_eq_true] at hvalid
    exact foldl_joinName_splitOn hvalid.1
  constructor
  · rintro ⟨_, hmem, rfl⟩
    obtain ⟨e, he, rfl⟩ := mem_map.mp hmem
    exact ⟨e, he, by rw [hname e he]⟩
  · rintro ⟨e, he, rfl⟩
    exact ⟨_, mem_map_of_mem he, by rw [hname e he]⟩

/-- A tree of entries whose names are prefix free is read back. -/
theorem readKeyTree_nestNames (hfold : ∀ r < 0x80, caseFold r = Utf8.asciiFold r)
    (hnodup : (entries.map Prod.fst).Nodup)
    (h : ∀ e ∈ entries, validEntryName e.1 ∧ IsEntry caseFold e.2)
    (hfree : PrefixFree (paths entries)) :
    ∃ out, readKeyTree caseFold (nestNames entries) = .ok out ∧ (out.map Prod.fst).Nodup ∧
      ∀ x, x ∈ out ↔ ∃ e ∈ entries, x = (e.1, .map (inOrder e.2)) := by
  obtain ⟨l, hl, hmem⟩ := (walk_nest (nestable_paths hfold hnodup h) []).1 hfree
  have hl' : ∀ x, x ∈ l ↔ ∃ e ∈ entries, x = (e.1, .map (inOrder e.2)) := fun x ↦
    (hmem x).trans (readAs_paths fun e he ↦ (h e he).1)
  have hagree : ∀ y ∈ l, ∀ z ∈ l, y.1 = z.1 → y = z := by
    intro y hy z hz heq
    obtain ⟨e, he, rfl⟩ := (hl' y).mp hy
    obtain ⟨e', he', rfl⟩ := (hl' z).mp hz
    rw [inj_on_of_nodup_map hnodup he he' heq]
  exact ⟨Assign.assignAll l, hl [], Assign.nodup_assignAll l, fun x ↦
    (Assign.mem_assignAll_of_agree hagree).trans (hl' x)⟩

/-- For names that are valid entry names: a tree of entries, each with a field, is read back
exactly, or the reading fails, and it fails just if one name is a dotted prefix of another; and the
names of a set are accepted just if they are apart, and then no two of them fold equal. -/
theorem keyNames_exact (hfold : ∀ r < 0x80, caseFold r = Utf8.asciiFold r) :
    (∀ entries : List (Bytes × List (Bytes × Node)), (entries.map Prod.fst).Nodup →
      (∀ e ∈ entries, validEntryName e.1 ∧ IsEntry caseFold e.2) →
        ((∃ err, readKeyTree caseFold (nestNames entries) = .error err) ↔
          ∃ a ∈ entries.map Prod.fst, ∃ b ∈ entries.map Prod.fst, isDottedPrefix a b) ∧
        ∀ out, readKeyTree caseFold (nestNames entries) = .ok out →
          (out.map Prod.fst).Nodup ∧ ∀ x, x ∈ out ↔ ∃ e ∈ entries, x = (e.1, .map (inOrder e.2))) ∧
    ∀ names : List Bytes, names.Nodup → (∀ name ∈ names, validEntryName name) →
      (checkKeyNames names = .ok () ↔ Apart names) ∧
        (checkKeyNames names = .ok () →
          ∀ a ∈ names, ∀ b ∈ names, fold a = fold b → a = b) := by
  refine ⟨fun entries hnodup h ↦ ?_, fun names hnodup hvalid ↦ ?_⟩
  · by_cases hfree : PrefixFree (paths entries)
    · obtain ⟨out, hout, hkeys, hmem⟩ := readKeyTree_nestNames hfold hnodup h hfree
      refine ⟨iff_of_false ?_ ?_, fun out' hout' ↦ ?_⟩
      · rintro ⟨err, herr⟩
        cases hout.symm.trans herr
      · rintro ⟨a, ha, b, hb, hab⟩
        exact prefixFree_paths.mp hfree a ha b hb hab
      · cases hout.symm.trans hout'
        exact ⟨hkeys, hmem⟩
    · have herr := (walk_nest (nestable_paths hfold hnodup h) []).2 hfree []
      refine ⟨iff_of_true herr ?_, fun out hout ↦ ?_⟩
      · rw [prefixFree_paths] at hfree
        simpa only [not_forall, not_not, exists_prop] using hfree
      · obtain ⟨err, herr⟩ := herr
        cases herr.symm.trans hout
  · have hiff := checkKeyNames_iff hnodup hvalid
    exact ⟨hiff, fun hok a ha b hb hab ↦ (hiff.mp hok).fold_inj ha hb hab⟩

/-- Two names of a set, one of them dotted with a first segment that is a field word. -/
def twoNames : List (Bytes × List (Bytes × Node)) :=
  [(ascii "secret.our", [(ascii "public", .map [(ascii "file", .value ⟨.string, 0⟩)])]),
    (ascii "tokens", [(ascii "secret", .map [(ascii "value", .value ⟨.string, 1⟩)])])]

theorem keyNames_exact_twoNames :
    (∃ out, readKeyTree Utf8.asciiFold (nestNames twoNames) = .ok out ∧
      ∀ x, x ∈ out ↔ ∃ e ∈ twoNames, x = (e.1, .map (inOrder e.2))) ∧
      checkKeyNames (twoNames.map Prod.fst) = .ok () ∧
      fold (ascii "secret.our") ≠ fold (ascii "tokens") := by
  have hentries : ∀ e ∈ twoNames, validEntryName e.1 ∧ IsEntry Utf8.asciiFold e.2 := by
    refine forall_mem_cons.mpr ⟨⟨by decide, cons_ne_nil _ _, ?_⟩,
      forall_mem_cons.mpr ⟨⟨by decide, cons_ne_nil _ _, ?_⟩, nofun⟩⟩
    · exact forall_mem_singleton.mpr ⟨_, rfl, fun _ ↦ rfl⟩
    · exact forall_mem_singleton.mpr ⟨_, rfl, fun _ ↦ rfl⟩
  have hnodup : (twoNames.map Prod.fst).Nodup := by decide
  have hexact := keyNames_exact (fun _ _ ↦ rfl)
  obtain ⟨hfails, hok⟩ := hexact.1 twoNames hnodup hentries
  have hnames : checkKeyNames (twoNames.map Prod.fst) = .ok () := rfl
  have hvalid : ∀ name ∈ twoNames.map Prod.fst, validEntryName name := by decide
  have hfold := (hexact.2 _ hnodup hvalid).2 hnames (ascii "secret.our") (by decide)
    (ascii "tokens") (by decide)
  refine ⟨?_, hnames, fun heq ↦ absurd (hfold heq) (by decide)⟩
  cases hread : readKeyTree Utf8.asciiFold (nestNames twoNames) with
  | error err => exact absurd (hfails.mp ⟨err, hread⟩) (by decide)
  | ok out => exact ⟨out, rfl, (hok out hread).2⟩

end KeyStore
