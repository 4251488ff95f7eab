import GoBricks.Sql.Door

/-!
# The segments of an identifier

The identifiers that the doors accept, as concrete syntax: a segment is a name, bare or in quotes
(`Seg`), and an identifier is a run of segments with dots between them (`segsText`). The patterns
match the texts of these (`mem_qualified`), the parser finds the segments that are there
(`split_segsText`), and quoting for Oracle quotes some of them
(`quoteOracleIdentifier_segsText`).
-/

open RegularExpression Text List

namespace Sql

/-! ### Segments -/

/-- A letter or underscore, then letters, digits and `_`, `$` and `#`. -/
def IsIdent : Bytes → Prop
  | [] => False
  | b :: t => b ∈ identStart ∧ ∀ c ∈ t, c ∈ identPart

/-- A segment of an identifier. -/
structure Seg where
  name : Bytes
  quoted : Bool
  valid : IsIdent name

/-- The text of a segment. -/
def Seg.text (s : Seg) : Bytes :=
  if s.quoted then 0x22 :: (s.name ++ [0x22]) else s.name

/-- The text of a qualified identifier. -/
def segsText (ss : List Seg) : Bytes :=
  [0x2E].intercalate (ss.map Seg.text)

theorem identStart_subset : ∀ b ∈ identStart, b ∈ identPart :=
  all_iff_forall_prop.mp (by decide)

theorem identPart_solid : ∀ b ∈ identPart,
    isSolid b ∧ b ≠ 0x22 ∧ b ≠ 0x2E ∧ b ≠ 0x20 ∧ b ≠ 0x2A ∧ isValidIdentifierChar b :=
  all_iff_forall_prop.mp (by decide)

theorem identStart_not_digit : ∀ b ∈ identStart, (0x30 ≤ b && b ≤ 0x39) = false :=
  all_iff_forall_prop.mp (by decide)

variable {w : Bytes}

theorem IsIdent.mem (h : IsIdent w) : ∀ b ∈ w, b ∈ identPart := by
  cases w with
  | nil => cases h
  | cons b t => exact forall_mem_cons.mpr ⟨identStart_subset b h.1, h.2⟩

theorem IsIdent.ne_nil (h : IsIdent w) : w ≠ [] := by
  rintro rfl
  exact h

/-- The texts of a bare segment. -/
theorem mem_identifierSegment : w ∈ identifierSegment.matches' ↔ IsIdent w := by
  rw [identifierSegment, matches'_mul, Language.mem_mul]
  constructor
  · rintro ⟨a, ha, b, hb, rfl⟩
    obtain ⟨c, hc, rfl⟩ := Regex.mem_oneOf.mp ha
    refine ⟨hc, ?_⟩
    obtain ⟨l, rfl, hl⟩ := hb
    intro d hd
    obtain ⟨w, hw, hd⟩ := mem_flatten.mp hd
    obtain ⟨e, he, rfl⟩ := Regex.mem_oneOf.mp (hl w hw)
    rwa [mem_singleton.mp hd]
  · intro h
    cases w with
    | nil => cases h
    | cons b t =>
      refine ⟨[b], Regex.mem_oneOf.mpr ⟨b, h.1, rfl⟩, t, ?_, rfl⟩
      refine ⟨t.map fun c ↦ [c], by simp [flatten_eq_flatMap, flatMap_map], ?_⟩
      intro w hw
      obtain ⟨c, hc, rfl⟩ := mem_map.mp hw
      exact Regex.mem_oneOf.mpr ⟨c, h.2 c hc, rfl⟩

theorem mem_segment : w ∈ segment.matches' ↔ ∃ s : Seg, s.text = w := by
  rw [segment, matches'_add, Language.mem_add, mem_identifierSegment]
  constructor
  · rintro (h | h)
    · exact ⟨⟨w, false, h⟩, rfl⟩
    · rw [quotedSegment, matches'_mul, Language.mem_mul] at h
      obtain ⟨a, ha, b, hb, rfl⟩ := h
      obtain ⟨q, hq, i, hi, rfl⟩ := ha
      cases Set.mem_singleton_iff.mp hq
      cases Set.mem_singleton_iff.mp hb
      exact ⟨⟨i, true, mem_identifierSegment.mp hi⟩, rfl⟩
  · rintro ⟨⟨i, quoted, hi⟩, rfl⟩
    cases quoted with
    | false => exact .inl hi
    | true =>
      right
      rw [quotedSegment, matches'_mul, Language.mem_mul]
      refine ⟨0x22 :: i, ?_, [0x22], rfl, rfl⟩
      exact ⟨[0x22], rfl, i, mem_identifierSegment.mpr hi, rfl⟩

/-- The text of segments that follow others. -/
def dotted (ss : List Seg) : Bytes :=
  ss.flatMap fun s ↦ 0x2E :: s.text

@[simp] theorem dotted_cons (s : Seg) (ss : List Seg) :
    dotted (s :: ss) = 0x2E :: (s.text ++ dotted ss) := rfl

theorem segsText_cons (s : Seg) (ss : List Seg) : segsText (s :: ss) = s.text ++ dotted ss := by
  rw [segsText, map_cons, Segments.intercalate_cons, flatMap_map]
  rfl

theorem mem_dotted : w ∈ (char 0x2E * segment).star.matches' ↔ ∃ ss, dotted ss = w := by
  have hitem {x : Bytes} : x ∈ (char 0x2E * segment).matches' ↔ ∃ s : Seg, 0x2E :: s.text = x := by
    constructor
    · rintro ⟨d, hd, y, hy, rfl⟩
      cases Set.mem_singleton_iff.mp hd
      obtain ⟨s, rfl⟩ := mem_segment.mp hy
      exact ⟨s, rfl⟩
    · rintro ⟨s, rfl⟩
      exact ⟨[0x2E], rfl, s.text, mem_segment.mpr ⟨s, rfl⟩, rfl⟩
  constructor
  · rintro ⟨l, rfl, hl⟩
    induction l with
    | nil => exact ⟨[], rfl⟩
    | cons x l ih =>
      obtain ⟨hx, hxs⟩ := forall_mem_cons.mp hl
      obtain ⟨ss, hss⟩ := ih hxs
      obtain ⟨s, rfl⟩ := hitem.mp hx
      exact ⟨s :: ss, by simp [hss]⟩
  · rintro ⟨ss, rfl⟩
    refine ⟨ss.map fun s ↦ 0x2E :: s.text, by simp [dotted, flatMap_def], ?_⟩
    intro x hx
    obtain ⟨s, -, rfl⟩ := mem_map.mp hx
    exact hitem.mpr ⟨s, rfl⟩

/-- The texts of a qualified name. -/
theorem mem_qualified : w ∈ qualified.matches' ↔ ∃ s ss, segsText (s :: ss) = w := by
  constructor
  · rintro ⟨a, ha, b, hb, rfl⟩
    obtain ⟨s, rfl⟩ := mem_segment.mp ha
    obtain ⟨ss, rfl⟩ := mem_dotted.mp hb
    exact ⟨s, ss, segsText_cons s ss⟩
  · rintro ⟨s, ss, rfl⟩
    exact ⟨s.text, mem_segment.mpr ⟨s, rfl⟩, dotted ss, mem_dotted.mpr ⟨ss, rfl⟩,
      (segsText_cons s ss).symm⟩

/-! ### Bytes of segments -/

/-- The bytes of a segment's text. -/
theorem Seg.mem_text {s : Seg} {b : UInt8} (h : b ∈ s.text) : b ∈ identPart ∨ b = 0x22 := by
  rw [Seg.text] at h
  split at h
  · simp only [mem_cons, mem_append, not_mem_nil, or_false] at h
    rcases h with h | h | h
    · exact .inr h
    · exact .inl (s.valid.mem b h)
    · exact .inr h
  · exact .inl (s.valid.mem b h)

theorem Seg.text_ne {s : Seg} : ∀ b ∈ s.text, b ≠ 0x2E ∧ b ≠ 0x20 ∧ b ≠ 0x2A ∧ isSolid b := by
  intro b hb
  rcases Seg.mem_text hb with h | rfl
  · obtain ⟨h1, -, h2, h3, h4, -⟩ := identPart_solid b h
    exact ⟨h2, h3, h4, h1⟩
  · decide

theorem Seg.text_ne_nil (s : Seg) : s.text ≠ [] := by
  rw [Seg.text]
  split
  · exact cons_ne_nil _ _
  · exact s.valid.ne_nil

theorem mem_segsText {ss : List Seg} {b : UInt8} (h : b ∈ segsText ss) :
    b ≠ 0x20 ∧ b ≠ 0x2A ∧ isSolid b := by
  cases ss with
  | nil => simp [segsText, List.intercalate] at h
  | cons s ss =>
    rw [segsText_cons, mem_append] at h
    rcases h with h | h
    · exact (Seg.text_ne b h).2
    · obtain ⟨s', -, h⟩ := mem_flatMap.mp h
      rcases mem_cons.mp h with rfl | h
      · decide
      · exact (Seg.text_ne b h).2

theorem segsText_ne_nil (s : Seg) (ss : List Seg) : segsText (s :: ss) ≠ [] := by
  rw [segsText_cons]
  exact append_ne_nil_of_left_ne_nil s.text_ne_nil _

theorem quote_not_mem (h : IsIdent w) : 0x22 ∉ w := by
  intro hmem
  exact (identPart_solid _ (h.mem _ hmem)).2.1 rfl

/-! ### The parser finds the segments -/

theorem IsIdent.all_valid (h : IsIdent w) : w.all isValidIdentifierChar := by
  rw [all_eq_true]
  exact fun c hc ↦ (identPart_solid c (h.mem c hc)).2.2.2.2.2

theorem Seg.rendered (s : Seg) : Rendered s.text := by
  rw [Seg.text]
  split
  · exact .inl ⟨s.name, by rw [doubled_eq_self (quote_not_mem s.valid)]; rfl⟩
  · exact .inr ⟨s.valid.ne_nil, s.valid.all_valid⟩

theorem segsText_eq_join (ss : List Seg) : segsText ss = join [0x2E] (ss.map Seg.text) :=
  intercalate_eq_join _

/-- A qualified name has no white space around it. -/
theorem trimSpace_segsText (s : Seg) (ss : List Seg) :
    trimSpace (segsText (s :: ss)) = segsText (s :: ss) := by
  rw [segsText_eq_join]
  exact trimSpace_join (cons_ne_nil _ _) (forall_mem_map.mpr fun s _ ↦ s.rendered)

/-- **The splitter finds the segments that are there.** -/
theorem split_segsText (s : Seg) (ss : List Seg) :
    splitIdentifierSegments (segsText (s :: ss)) = (s :: ss).map Seg.text := by
  rw [segsText_eq_join]
  exact split_join (cons_ne_nil _ _) (forall_mem_map.mpr fun s _ ↦ s.rendered.isSegment)

/-! ### Quoting for Oracle -/

/-- The segment in quotes if Oracle needs them. -/
def Seg.forOracle (upper : ℕ → ℕ) (s : Seg) : Seg :=
  { s with quoted := s.quoted || isOracleReservedWord upper s.name }

/-- A bare segment needs no quotes. -/
theorem oracleNeedsQuoting_eq_false (h : IsIdent w) : oracleNeedsQuoting w = false := by
  cases w with
  | nil => rfl
  | cons b t => simp [oracleNeedsQuoting, identStart_not_digit b h.1, h.all_valid]

theorem IsIdent.isQuotedIdentifier_eq (h : IsIdent w) : isQuotedIdentifier w = false :=
  isQuotedIdentifier_eq_false fun hhead ↦ quote_not_mem h (mem_of_mem_head? hhead)

theorem renderSegment_text {upper : ℕ → ℕ} (s : Seg) :
    renderSegment upper s.text = (s.forOracle upper).text := by
  obtain ⟨name, quoted, hname⟩ := s
  cases quoted with
  | true =>
    have hquoted := isQuotedIdentifier_doubled name
    rw [doubled_eq_self (quote_not_mem hname)] at hquoted
    exact if_pos hquoted
  | false =>
    have htext : Seg.text ⟨name, false, hname⟩ = name := rfl
    rw [htext, renderSegment, hname.isQuotedIdentifier_eq, quoteSegment,
      oracleNeedsQuoting_eq_false hname, Bool.or_false, quoteIdentifierLiteral,
      if_pos (quote_not_mem hname)]
    rfl

/-- **A qualified identifier is quoted segment by segment.** -/
theorem quoteOracleIdentifier_segsText {upper : ℕ → ℕ} (s : Seg) (ss : List Seg) :
    quoteOracleIdentifier upper (segsText (s :: ss)) =
      segsText ((s :: ss).map (Seg.forOracle upper)) := by
  rw [quoteOracleIdentifier_eq, trimSpace_segsText, split_segsText, segsText_eq_join, List.map_map,
    List.map_map]
  congr 2
  exact funext renderSegment_text

end Sql
