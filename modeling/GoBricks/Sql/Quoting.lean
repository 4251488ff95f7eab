import GoBricks.Sql.Splitting

/-!
# Identifiers in quotes

`QuoteOracleIdentifier`, which puts quotes where Oracle needs them, and `EscapeIdentifier`, which
puts them everywhere. Both split an identifier and quote its segments one by one
(`quoteOracleIdentifier_eq`).

An identifier in quotes is one name, whose own quotes are doubled (`isQuotedIdentifier_iff`), so
both render segments that are found again when the rendering is split. Every string is escaped to
names in quotes (`escapeIdentifier_spec`). Oracle's rule lets two kinds of segments through that
Oracle has no identifiers for: a bare one that starts with `_`, `$` or `#`, and the empty name in
quotes (`quoteOracleIdentifier_wellFormed_iff`).
-/

open Text List

namespace Sql

/-! ### Names in quotes -/

/-- A name in quotes. -/
def inQuotes (n : Bytes) : Bytes :=
  0x22 :: (n ++ [0x22])

theorem inQuotes_injective : Function.Injective inQuotes := by
  intro n n' h
  simpa [inQuotes] using h

theorem interior_inQuotes (n : Bytes) : interior (inQuotes n) = n := by
  simp [inQuotes, interior]

theorem endsSolid_inQuotes (n : Bytes) : EndsSolid (inQuotes n) :=
  EndsSolid.append (a := 0x22 :: n) (b := [0x22]) ⟨0x22, rfl, by decide⟩

theorem isQuotedString_inQuotes (n : Bytes) : isQuotedString (inQuotes n) := by
  rw [inQuotes, ← cons_append, isQuotedString, List.getLast?_concat]
  simp

variable {s : Bytes}

/-- What has quotes around it is a name in quotes. -/
theorem exists_inQuotes (h : isQuotedString s) : s = inQuotes (interior s) := by
  simp only [isQuotedString, Bool.and_eq_true, decide_eq_true_eq, beq_iff_eq] at h
  obtain ⟨⟨hlen, hhead⟩, hlast⟩ := h
  cases s with
  | nil => cases hhead
  | cons b t =>
    cases hhead
    rcases eq_nil_or_concat t with rfl | ⟨n, c, rfl⟩
    · simp at hlen
    · have hc : c = 0x22 := by
        rw [concat_eq_append, ← cons_append, List.getLast?_concat] at hlast
        exact Option.some_inj.mp hlast
      simp [inQuotes, interior, hc]

/-- A name with its quotes doubled. -/
def doubled (n : Bytes) : Bytes :=
  n.flatMap fun c ↦ if c = 0x22 then [0x22, 0x22] else [c]

theorem doubled_quote (n : Bytes) : doubled (0x22 :: n) = 0x22 :: 0x22 :: doubled n := rfl

theorem doubled_cons {c : UInt8} (hc : c ≠ 0x22) (n : Bytes) :
    doubled (c :: n) = c :: doubled n := by
  rw [doubled, flatMap_cons, if_neg hc]
  rfl

theorem doubled_eq_self {n : Bytes} (hn : 0x22 ∉ n) : doubled n = n := by
  rw [doubled, ← replaceAll_singleton]
  exact replaceAll_eq_self fun hsub ↦ hn (hsub.subset (by simp))

theorem doubled_eq_nil {n : Bytes} (h : doubled n = []) : n = [] := by
  cases n with
  | nil => rfl
  | cons c n =>
    by_cases hc : c = 0x22
    · subst hc
      cases h
    · rw [doubled_cons hc] at h
      cases h

/-- A text with its quotes doubled has none that counts. -/
theorem hasUnescapedQuote_doubled (n : Bytes) : hasUnescapedQuote (doubled n) = false := by
  suffices 0x22 ∉ replaceAll [0x22, 0x22] [] (doubled n) by simpa [hasUnescapedQuote] using this
  induction n with
  | nil => exact not_mem_nil
  | cons c n ih =>
    by_cases hc : c = 0x22
    · subst hc
      have hpair : replaceAll [0x22, 0x22] [] (0x22 :: 0x22 :: doubled n) = _ :=
        replaceAll_append (cons_ne_nil 0x22 [0x22]) [] (doubled n)
      rwa [doubled_quote, hpair]
    · rw [doubled_cons hc, replaceAll_cons _ (by simp [Ne.symm hc]), mem_cons]
      exact not_or.mpr ⟨Ne.symm hc, ih⟩

/-- A text without such a quote is one with its quotes doubled. -/
theorem exists_doubled {t : Bytes} (h : hasUnescapedQuote t = false) : ∃ n, t = doubled n := by
  replace h : 0x22 ∉ replaceAll [0x22, 0x22] [] t := by simpa [hasUnescapedQuote] using h
  induction t using List.twoStepInduction with
  | nil => exact ⟨[], rfl⟩
  | singleton c =>
    rw [replaceAll_eq_self fun hsub ↦ by simpa using hsub.length_le, List.mem_singleton] at h
    exact ⟨[c], (doubled_cons (Ne.symm h) []).symm⟩
  | cons_cons c d t ih ih' =>
    by_cases hpair : c = 0x22 ∧ d = 0x22
    · obtain ⟨rfl, rfl⟩ := hpair
      have hpair : replaceAll [0x22, 0x22] [] (0x22 :: 0x22 :: t) = _ :=
        replaceAll_append (List.cons_ne_nil 0x22 [0x22]) [] t
      rw [hpair, List.nil_append] at h
      obtain ⟨n, rfl⟩ := ih h
      exact ⟨0x22 :: n, rfl⟩
    · rw [replaceAll_cons, List.mem_cons, not_or] at h
      · obtain ⟨n, hn⟩ := ih' d h.2
        exact ⟨c :: n, by rw [doubled_cons (Ne.symm h.1), hn]⟩
      · rintro ⟨r, hr⟩
        simp only [List.cons_append, List.cons.injEq] at hr
        exact hpair ⟨hr.1.symm, hr.2.1.symm⟩

/-- **An identifier in quotes is one name, with its quotes doubled.** -/
theorem isQuotedIdentifier_iff : isQuotedIdentifier s ↔ ∃ n, s = inQuotes (doubled n) := by
  rw [isQuotedIdentifier, Bool.and_eq_true, Bool.not_eq_true']
  constructor
  · rintro ⟨hstring, hquote⟩
    obtain ⟨n, hn⟩ := exists_doubled hquote
    exact ⟨n, hn ▸ exists_inQuotes hstring⟩
  · rintro ⟨n, rfl⟩
    rw [interior_inQuotes]
    exact ⟨isQuotedString_inQuotes _, hasUnescapedQuote_doubled n⟩

theorem isQuotedIdentifier_doubled (n : Bytes) : isQuotedIdentifier (inQuotes (doubled n)) :=
  isQuotedIdentifier_iff.mpr ⟨n, rfl⟩

theorem isQuotedIdentifier_eq_false (h : s.head? ≠ some 0x22) : isQuotedIdentifier s = false := by
  simp [isQuotedIdentifier, isQuotedString, h]

/-- The literal is a name in quotes, and an empty one for the empty text only. -/
theorem exists_quoteIdentifierLiteral (text : Bytes) :
    ∃ n, quoteIdentifierLiteral text = inQuotes (doubled n) ∧ (n = [] → text = []) := by
  rw [quoteIdentifierLiteral]
  split
  · next h => exact ⟨text, by rw [doubled_eq_self h]; rfl, id⟩
  · refine ⟨replaceAll [0x22, 0x22] [0x22] text, by rw [replaceAll_singleton]; rfl, fun hnil ↦ ?_⟩
    cases text with
    | nil => rfl
    | cons b s =>
      rw [replaceAll, length_cons, replaceAllFrom] at hnil
      split at hnil <;> cases hnil

/-- Inside quotes a doubled text stays inside. -/
theorem quotesAfter_doubled (n rest : Bytes) :
    quotesAfter true (doubled n ++ rest) = quotesAfter true rest := by
  induction n with
  | nil => rfl
  | cons c n ih =>
    by_cases hc : c = 0x22
    · subst hc
      exact ih
    · rw [doubled_cons hc, cons_append, quotesAfter_cons fun h ↦ absurd h hc, ← ih]
      simp [quotesAfterByte, hc]

/-- A text in quotes is one segment. -/
theorem isSegment_inQuotes (n : Bytes) : IsSegment (inQuotes (doubled n)) where
  closed := by
    have hopen : quotesAfter false (inQuotes (doubled n)) =
        quotesAfter true (doubled n ++ [0x22]) :=
      quotesAfter_cons fun _ h ↦ absurd h Bool.false_ne_true
    rw [hopen, quotesAfter_doubled]
    rfl
  trimmed := trimSpace_eq_self ⟨0x22, rfl, by decide⟩ (endsSolid_inQuotes _)
  ne_nil := cons_ne_nil _ _

/-! ### Escaping -/

/-- An identifier in quotes, segment by segment. -/
def escapeIdentifier (identifier : Bytes) : Bytes :=
  join [0x2E] ((splitIdentifierSegments identifier).map fun part ↦
    if isQuotedIdentifier part then part else quoteIdentifierLiteral part)

theorem split_ne_nil (s : Bytes) : splitIdentifierSegments s ≠ [] := by
  rcases split_eq_or s with h | h | ⟨us, hlen, -, h, -⟩
  · simp [h]
  · simp [h]
  · rw [h]
    rintro hnil
    simp [map_eq_nil_iff.mp hnil] at hlen

/-- Names in quotes are found again, and left alone. -/
theorem escapeIdentifier_join {names : List Bytes} (hne : names ≠ []) :
    splitIdentifierSegments (join [0x2E] (names.map fun n ↦ inQuotes (doubled n))) =
        names.map (fun n ↦ inQuotes (doubled n)) ∧
      escapeIdentifier (join [0x2E] (names.map fun n ↦ inQuotes (doubled n))) =
        join [0x2E] (names.map fun n ↦ inQuotes (doubled n)) := by
  have hnames : names.map (fun n ↦ inQuotes (doubled n)) ≠ [] := by simpa using hne
  have hsplit := split_join hnames (List.forall_mem_map.mpr fun n _ ↦ isSegment_inQuotes n)
  refine ⟨hsplit, ?_⟩
  rw [escapeIdentifier, hsplit, List.map_map]
  congr 2
  exact funext fun n ↦ if_pos (isQuotedIdentifier_doubled n)

/-- **Whatever the identifier, its escaped form is names in quotes with dots between them**, which
is what a splitter finds there, and it is escaped to itself. -/
theorem escapeIdentifier_spec (identifier : Bytes) :
    ∃ names ≠ [],
      escapeIdentifier identifier = join [0x2E] (names.map fun n ↦ inQuotes (doubled n)) ∧
      splitIdentifierSegments (escapeIdentifier identifier) =
        names.map (fun n ↦ inQuotes (doubled n)) ∧
      escapeIdentifier (escapeIdentifier identifier) = escapeIdentifier identifier := by
  have hpart : ∀ part : Bytes, ∃ n,
      (if isQuotedIdentifier part then part else quoteIdentifierLiteral part) =
        inQuotes (doubled n) := by
    intro part
    split
    · next h => exact isQuotedIdentifier_iff.mp h
    · obtain ⟨n, hn, -⟩ := exists_quoteIdentifierLiteral part
      exact ⟨n, hn⟩
  choose name hname using hpart
  have heq : escapeIdentifier identifier = join [0x2E]
      (((splitIdentifierSegments identifier).map name).map fun n ↦ inQuotes (doubled n)) := by
    rw [escapeIdentifier, List.map_map]
    congr 2
    exact funext hname
  have hne : (splitIdentifierSegments identifier).map name ≠ [] := by
    simpa using split_ne_nil identifier
  refine ⟨_, hne, heq, ?_⟩
  rw [heq]
  exact escapeIdentifier_join hne

example : escapeIdentifier (ascii "a\"b.\"c.d\"") = ascii "\"a\"\"b.\"\"c.d\"\"\"" := by
  decide +kernel

/-! ### Rendering for Oracle -/

/-- A segment as it is, or in quotes where Oracle needs them. -/
def quoteSegment (upper : ℕ → ℕ) (s : Bytes) : Bytes :=
  if isOracleReservedWord upper s || oracleNeedsQuoting s then quoteIdentifierLiteral s else s

/-- An identifier as Oracle needs it: segment by segment, those already in quotes as they are. -/
def quoteOracleIdentifier (upper : ℕ → ℕ) (column : Bytes) : Bytes :=
  let trimmed := trimSpace column
  if trimmed = [] then
    trimmed
  else if !hasQualifierOrQuote trimmed then
    quoteSegment upper trimmed
  else if isQuotedIdentifier trimmed then
    trimmed
  else if h : 1 < (splitIdentifierSegments trimmed).length then
    [0x2E].intercalate ((splitIdentifierSegments trimmed).attach.map fun s ↦
      quoteOracleIdentifier upper s.1)
  else
    quoteSegment upper trimmed
termination_by column.length
decreasing_by
  exact (length_lt_of_mem_split h s.2).trans_le (length_trimSpace_le column)

theorem intercalate_eq_join (l : List Bytes) : [0x2E].intercalate l = join [0x2E] l := by
  cases l with
  | nil => rfl
  | cons a l => exact Segments.intercalate_cons a l

/-- How one segment is rendered. -/
def renderSegment (upper : ℕ → ℕ) (s : Bytes) : Bytes :=
  if isQuotedIdentifier s then s else quoteSegment upper s

theorem hasQualifierOrQuote_of_isQuotedIdentifier (h : isQuotedIdentifier s) :
    hasQualifierOrQuote s := by
  obtain ⟨n, rfl⟩ := isQuotedIdentifier_iff.mp h
  simp [hasQualifierOrQuote, inQuotes]

variable {upper : ℕ → ℕ}

theorem renderSegment_of_bare (h : (!hasQualifierOrQuote s) = true) :
    renderSegment upper s = quoteSegment upper s := by
  refine if_neg fun hq ↦ ?_
  rw [hasQualifierOrQuote_of_isQuotedIdentifier hq] at h
  cases h

/-- A segment is rendered alone. -/
theorem IsSegment.quoteOracleIdentifier_eq (h : IsSegment s) :
    quoteOracleIdentifier upper s = renderSegment upper s := by
  rw [quoteOracleIdentifier]
  simp only [h.trimmed, if_neg h.ne_nil, h.split_eq, length_singleton, lt_irrefl, dite_false]
  split
  · next hbare => exact (renderSegment_of_bare hbare).symm
  · rfl

/-- **An identifier is rendered segment by segment.** -/
theorem quoteOracleIdentifier_eq (upper : ℕ → ℕ) (column : Bytes) :
    quoteOracleIdentifier upper column =
      join [0x2E] ((splitIdentifierSegments (trimSpace column)).map (renderSegment upper)) := by
  have hone : ∀ s, join [0x2E] ([s].map (renderSegment upper)) = renderSegment upper s := by
    simp [join_cons]
  rw [quoteOracleIdentifier]
  have htrim := trimSpace_trimSpace column
  generalize trimSpace column = t at htrim ⊢
  have hcases : splitIdentifierSegments t = [t] ∨ ∃ us, 1 < us.length ∧
      splitIdentifierSegments t = us ∧ ∀ u ∈ us, IsSegment u := by
    rcases split_eq_or t with h | h | ⟨us, hlen, -, h, hseg⟩
    · exact .inl h
    · exact .inl (h.trans (by rw [htrim]))
    · exact .inr ⟨_, by simpa using hlen, h, forall_mem_map.mpr hseg⟩
  split_ifs with hnil hbare hquoted hlen
  · subst hnil
    rfl
  · have hsplit : splitIdentifierSegments t = [t] := by
      rw [splitIdentifierSegments, if_pos hbare, htrim, if_pos hnil]
    rw [hsplit, hone, renderSegment_of_bare hbare]
  · obtain ⟨n, rfl⟩ := isQuotedIdentifier_iff.mp hquoted
    rw [(isSegment_inQuotes n).split_eq, hone, renderSegment, if_pos hquoted]
  · rcases hcases with h | ⟨us, -, h, hseg⟩
    · simp [h] at hlen
    · rw [List.map_attach_eq_pmap, List.pmap_eq_map, h, intercalate_eq_join]
      congr 1
      exact map_congr_left fun u hu ↦ (hseg u hu).quoteOracleIdentifier_eq
  · rcases hcases with h | ⟨us, hus, h, -⟩
    · rw [h, hone, renderSegment, if_neg hquoted]
    · exact absurd (h ▸ hus) hlen

/-! ### What Oracle accepts -/

theorem solid_of_isValidIdentifierChar {c : UInt8} (h : isValidIdentifierChar c) :
    isSolid c ∧ c ≠ 0x22 ∧ c ≠ 0x2E := by
  refine ⟨?_, ?_, ?_⟩
  · simp only [isValidIdentifierChar, isLetter, isSolid, Bool.or_eq_true, Bool.and_eq_true,
      decide_eq_true_eq, beq_iff_eq, UInt8.le_iff_toNat_le, UInt8.lt_iff_toNat_lt,
      ← UInt8.toNat_inj, UInt8.toNat_ofNat] at h ⊢
    omega
  · rintro rfl
    cases h
  · rintro rfl
    cases h

/-- What a segment is rendered as: a name in quotes, or a word. -/
def Rendered (s : Bytes) : Prop :=
  (∃ n, s = inQuotes (doubled n)) ∨ (s ≠ [] ∧ s.all isValidIdentifierChar)

/-- What is rendered has no white space around it. -/
theorem Rendered.solid (h : Rendered s) : (∃ b ∈ s.head?, isSolid b) ∧ EndsSolid s := by
  rcases h with ⟨n, rfl⟩ | ⟨hs, hall⟩
  · exact ⟨⟨0x22, rfl, by decide⟩, endsSolid_inQuotes _⟩
  · have hsolid : ∀ b ∈ s, isSolid b := fun b hb ↦
      (solid_of_isValidIdentifierChar (all_eq_true.mp hall b hb)).1
    exact ⟨⟨s.head hs, List.head?_eq_some_head hs, hsolid _ (head_mem hs)⟩,
      endsSolid_of_solid hs hsolid⟩

/-- What is rendered is one segment. -/
theorem Rendered.isSegment (h : Rendered s) : IsSegment s := by
  rcases id h with ⟨n, rfl⟩ | ⟨hs, hall⟩
  · exact isSegment_inQuotes n
  · refine ⟨?_, trimSpace_eq_self h.solid.1 h.solid.2, hs⟩
    clear hs h
    induction s with
    | nil => rfl
    | cons c s ih =>
      rw [all_cons, Bool.and_eq_true] at hall
      obtain ⟨-, hquote, hdot⟩ := solid_of_isValidIdentifierChar hall.1
      rw [quotesAfter_cons_of_ne hquote hdot, ih hall.2]

theorem trimSpace_join {us : List Bytes} (hus : us ≠ []) (h : ∀ u ∈ us, Rendered u) :
    trimSpace (join [0x2E] us) = join [0x2E] us := by
  obtain ⟨u, us, rfl⟩ := exists_cons_of_ne_nil hus
  obtain ⟨b, hb, hsolid⟩ := (h u mem_cons_self).solid.1
  refine trimSpace_eq_self ⟨b, ?_, hsolid⟩ ?_
  · rw [join_cons, List.head?_append, Option.mem_def.mp hb]
    rfl
  · clear hb hus
    induction us generalizing u with
    | nil => simpa [join_cons] using (h u mem_cons_self).solid.2
    | cons v us ih =>
      have hjoin : join [0x2E] (u :: v :: us) = (u ++ [0x2E]) ++ join [0x2E] (v :: us) := by
        simp [join_cons]
      rw [hjoin]
      exact (ih v (forall_mem_cons.mp h).2).append

/-- A segment that is not empty is rendered. -/
theorem renderSegment_rendered (upper : ℕ → ℕ) (hs : s ≠ []) :
    Rendered (renderSegment upper s) := by
  rw [renderSegment, quoteSegment]
  split_ifs with hquoted hneeds
  · exact .inl (isQuotedIdentifier_iff.mp hquoted)
  · obtain ⟨n, hn, -⟩ := exists_quoteIdentifierLiteral s
    exact .inl ⟨n, hn⟩
  · obtain ⟨c, t, rfl⟩ := List.exists_cons_of_ne_nil hs
    simp only [oracleNeedsQuoting, Bool.or_eq_true, not_or, Bool.not_eq_true,
      Bool.not_eq_false'] at hneeds
    exact .inr ⟨hs, hneeds.2.2⟩

/-- A second rendering changes nothing. -/
theorem renderSegment_renderSegment (upper : ℕ → ℕ) (s : Bytes) :
    renderSegment upper (renderSegment upper s) = renderSegment upper s := by
  by_cases hquoted : isQuotedIdentifier (renderSegment upper s)
  · exact if_pos hquoted
  · -- What is not in quotes is the segment itself.
    have hself : renderSegment upper s = s := by
      rw [renderSegment, quoteSegment] at hquoted ⊢
      split_ifs at hquoted ⊢
      · rfl
      · obtain ⟨n, hn, -⟩ := exists_quoteIdentifierLiteral s
        exact absurd (hn ▸ isQuotedIdentifier_doubled n) hquoted
      · rfl
    rw [hself, hself]

/-- An identifier of Oracle: a valid segment, and no reserved word unless in quotes. -/
def IsOracleIdentifier (upper : ℕ → ℕ) (s : Bytes) : Prop :=
  isValidSegment s ∧ (s.head? ≠ some 0x22 → isOracleReservedWord upper s = false)

/-- A word that starts with `_`, `$` or `#`. -/
def startsWithSymbol (s : Bytes) : Bool :=
  s.head?.any (fun c ↦ c == 0x5F || c == 0x24 || c == 0x23) && s.all isValidIdentifierChar

theorem isOracleIdentifier_inQuotes {n : Bytes} :
    IsOracleIdentifier upper (inQuotes (doubled n)) ↔ n ≠ [] := by
  have hvalid : isValidSegment (inQuotes (doubled n)) =
      isValidQuotedSegment (inQuotes (doubled n)) := rfl
  rw [IsOracleIdentifier, hvalid, isValidQuotedSegment, isQuotedString_inQuotes, interior_inQuotes,
    hasUnescapedQuote_doubled, Bool.true_and, Bool.not_false, Bool.and_true, decide_eq_true_eq]
  constructor
  · rintro ⟨hne, -⟩ rfl
    exact hne rfl
  · exact fun hne ↦ ⟨fun h ↦ hne (doubled_eq_nil h), fun h ↦ absurd rfl h⟩

theorem IsOracleIdentifier.rendered (h : IsOracleIdentifier upper s) : Rendered s := by
  obtain ⟨hvalid, -⟩ := h
  cases s with
  | nil => cases hvalid
  | cons c s =>
    rw [isValidSegment] at hvalid
    split at hvalid
    · simp only [isValidQuotedSegment, Bool.and_eq_true] at hvalid
      exact .inl (isQuotedIdentifier_iff.mp (by
        rw [isQuotedIdentifier, hvalid.1.1, hvalid.2]
        rfl))
    · rw [isValidIdentifierSegment, Bool.and_eq_true] at hvalid
      exact .inr ⟨cons_ne_nil _ _, hvalid.2⟩

/-- No reserved word starts with a symbol. -/
theorem isOracleReservedWord_eq_false (h : startsWithSymbol s) :
    isOracleReservedWord upper s = false := by
  cases s with
  | nil => cases h
  | cons c s =>
    have hwords : ∀ w ∈ oracleReservedWords, w.head?.all isLetter :=
      List.all_iff_forall_prop.mp (by decide +kernel)
    have hc : c ∈ [0x5F, 0x24, 0x23] := by
      rw [startsWithSymbol, Bool.and_eq_true] at h
      simpa [or_assoc] using h.1
    have hsymbol : ∀ c ∈ [(0x5F : UInt8), 0x24, 0x23], c < 0x80 ∧ isLetter (upperByte c) = false :=
      List.all_iff_forall_prop.mp (by decide)
    obtain ⟨hascii, hletter⟩ := hsymbol c hc
    rw [isOracleReservedWord, toUpper_cons hascii]
    refine Bool.eq_false_iff.mpr fun hmem ↦ ?_
    have := hwords _ (List.contains_iff_mem.mp hmem)
    rw [List.head?_cons, Option.all_some, hletter] at this
    cases this

/-- When the vendor takes what is rendered. -/
theorem isOracleIdentifier_renderSegment (hs : s ≠ []) :
    IsOracleIdentifier upper (renderSegment upper s) ↔
      s ≠ [0x22, 0x22] ∧ startsWithSymbol s = false := by
  obtain ⟨c, t, rfl⟩ := List.exists_cons_of_ne_nil hs
  by_cases hquoted : isQuotedIdentifier (c :: t)
  · obtain ⟨n, hn⟩ := isQuotedIdentifier_iff.mp hquoted
    have hempty : inQuotes (doubled n) = [0x22, 0x22] ↔ n = [] := by
      constructor
      · exact fun h ↦ doubled_eq_nil (inQuotes_injective h)
      · rintro rfl
        rfl
    rw [renderSegment, if_pos hquoted, hn, isOracleIdentifier_inQuotes, Ne, Ne, hempty]
    exact (and_iff_left rfl).symm
  have hpair : c :: t ≠ [0x22, 0x22] := fun h ↦ hquoted (h ▸ rfl)
  rw [renderSegment, if_neg hquoted, quoteSegment, and_iff_right hpair]
  split_ifs with hneeds
  · -- In quotes, since it is reserved or not a word.
    obtain ⟨n, hn, hne⟩ := exists_quoteIdentifierLiteral (c :: t)
    rw [hn, isOracleIdentifier_inQuotes]
    refine iff_of_true (fun h ↦ hs (hne h)) (Bool.eq_false_iff.mpr fun hsymbol ↦ ?_)
    rw [isOracleReservedWord_eq_false hsymbol, Bool.false_or, oracleNeedsQuoting] at hneeds
    rw [startsWithSymbol, Bool.and_eq_true] at hsymbol
    rw [hsymbol.2, Bool.not_true, Bool.or_false] at hneeds
    have hc : c ∈ [0x5F, 0x24, 0x23] := by simpa [or_assoc] using hsymbol.1
    have hdigit : ∀ c ∈ [(0x5F : UInt8), 0x24, 0x23], (0x30 ≤ c && c ≤ 0x39) = false :=
      List.all_iff_forall_prop.mp (by decide)
    rw [hdigit c hc] at hneeds
    cases hneeds
  · simp only [oracleNeedsQuoting, Bool.or_eq_true, not_or, Bool.not_eq_true,
      Bool.not_eq_false'] at hneeds
    obtain ⟨hreserved, hdigit, hall⟩ := hneeds
    have hc : isValidIdentifierChar c := List.all_eq_true.mp hall c List.mem_cons_self
    have hquote := (solid_of_isValidIdentifierChar hc).2.1
    rw [IsOracleIdentifier, isValidSegment, if_neg hquote, isValidIdentifierSegment, hall,
      startsWithSymbol, hall, Bool.and_true, Bool.and_true, List.head?_cons, Option.any_some,
      and_iff_left fun _ ↦ hreserved]
    rw [isValidIdentifierChar, hdigit, Bool.or_false] at hc
    constructor
    · intro hletter
      refine Bool.eq_false_iff.mpr fun hsymbol ↦ ?_
      have hletters : ∀ c ∈ [(0x5F : UInt8), 0x24, 0x23], isLetter c = false :=
        List.all_iff_forall_prop.mp (by decide)
      rw [hletters c (by simpa [or_assoc] using hsymbol)] at hletter
      cases hletter
    · intro hsymbol
      simp only [Bool.or_eq_false_iff] at hsymbol
      simpa [hsymbol] using hc

section WellFormed

variable (upper : ℕ → ℕ) {column : Bytes}

theorem rendered_of_mem_split (h : trimSpace column ≠ []) :
    ∀ s ∈ splitIdentifierSegments (trimSpace column),
      s ≠ [] ∧ Rendered (renderSegment upper s) := by
  suffices ∀ s ∈ splitIdentifierSegments (trimSpace column), s ≠ [] from
    fun s hs ↦ ⟨this s hs, renderSegment_rendered upper (this s hs)⟩
  rcases split_eq_or (trimSpace column) with hs | hs | ⟨us, -, -, hs, hseg⟩
  · rw [hs]
    exact forall_mem_singleton.mpr h
  · rw [hs, trimSpace_trimSpace]
    exact forall_mem_singleton.mpr h
  · rw [hs]
    exact forall_mem_map.mpr fun u hu ↦ (hseg u hu).ne_nil

/-- The rendering is split into the rendered segments again. -/
theorem split_quoteOracleIdentifier (h : trimSpace column ≠ []) :
    splitIdentifierSegments (quoteOracleIdentifier upper column) =
      (splitIdentifierSegments (trimSpace column)).map (renderSegment upper) := by
  rw [quoteOracleIdentifier_eq]
  refine split_join (by simpa using split_ne_nil _) (forall_mem_map.mpr fun s hs ↦ ?_)
  exact (rendered_of_mem_split upper h s hs).2.isSegment

theorem quoteOracleIdentifier_eq_nil (h : trimSpace column = []) :
    quoteOracleIdentifier upper column = [] := by
  rw [quoteOracleIdentifier_eq, h]
  rfl

/-- A second quoting changes nothing. -/
theorem quoteOracleIdentifier_quoteOracleIdentifier (column : Bytes) :
    quoteOracleIdentifier upper (quoteOracleIdentifier upper column) =
      quoteOracleIdentifier upper column := by
  by_cases h : trimSpace column = []
  · rw [quoteOracleIdentifier_eq_nil upper h, quoteOracleIdentifier_eq_nil upper rfl]
  · have htrim : trimSpace (quoteOracleIdentifier upper column) =
        quoteOracleIdentifier upper column := by
      rw [quoteOracleIdentifier_eq]
      refine trimSpace_join (by simpa using split_ne_nil _) (forall_mem_map.mpr fun s hs ↦ ?_)
      exact (rendered_of_mem_split upper h s hs).2
    rw [quoteOracleIdentifier_eq upper (quoteOracleIdentifier upper column), htrim,
      split_quoteOracleIdentifier upper h, List.map_map, quoteOracleIdentifier_eq upper column]
    congr 2
    exact funext (renderSegment_renderSegment upper)

theorem exists_oracleIdentifiers_iff (column : Bytes) :
    (quoteOracleIdentifier upper column = [] ∨ ∃ us ≠ [],
        quoteOracleIdentifier upper column = join [0x2E] us ∧
          ∀ u ∈ us, IsOracleIdentifier upper u) ↔
      ∀ s ∈ splitIdentifierSegments (trimSpace column),
        s ≠ [0x22, 0x22] ∧ startsWithSymbol s = false := by
  by_cases h : trimSpace column = []
  · rw [h]
    exact iff_of_true (.inl (quoteOracleIdentifier_eq_nil upper h)) (by decide)
  have hsplit := split_quoteOracleIdentifier upper h
  have hparts := rendered_of_mem_split upper h
  have hne : quoteOracleIdentifier upper column ≠ [] := by
    intro hnil
    rw [hnil] at hsplit
    obtain ⟨s, hs, hrender⟩ := mem_map.mp (hsplit ▸ mem_cons_self :
      [] ∈ (splitIdentifierSegments (trimSpace column)).map (renderSegment upper))
    exact (hparts s hs).2.isSegment.ne_nil hrender
  rw [or_iff_right hne]
  constructor
  · rintro ⟨us, hus, heq, hvalid⟩ s hs
    rw [heq, split_join hus fun u hu ↦ (hvalid u hu).rendered.isSegment] at hsplit
    exact (isOracleIdentifier_renderSegment (hparts s hs).1).mp
      (hvalid _ (hsplit ▸ mem_map_of_mem hs))
  · intro hvalid
    refine ⟨_, by simpa using split_ne_nil (trimSpace column),
      quoteOracleIdentifier_eq upper column, forall_mem_map.mpr fun s hs ↦ ?_⟩
    exact (isOracleIdentifier_renderSegment (hparts s hs).1).mpr (hvalid s hs)

/-- **The rendering is made of Oracle's identifiers, and is rendered as itself, exactly if no
segment is a word that starts with a symbol or the empty name in quotes.** -/
theorem quoteOracleIdentifier_wellFormed_iff (column : Bytes) :
    ((quoteOracleIdentifier upper column = [] ∨ ∃ us ≠ [],
          quoteOracleIdentifier upper column = join [0x2E] us ∧
            ∀ u ∈ us, IsOracleIdentifier upper u) ∧
        quoteOracleIdentifier upper (quoteOracleIdentifier upper column) =
          quoteOracleIdentifier upper column) ↔
      ∀ s ∈ splitIdentifierSegments (trimSpace column),
        s ≠ [0x22, 0x22] ∧ startsWithSymbol s = false := by
  rw [and_iff_left (quoteOracleIdentifier_quoteOracleIdentifier upper column)]
  exact exists_oracleIdentifiers_iff upper column

end WellFormed

/-- The word `_id` is rendered bare. -/
theorem quoteOracleIdentifier_underscore :
    ¬((quoteOracleIdentifier id (ascii "_id") = [] ∨ ∃ us ≠ [],
          quoteOracleIdentifier id (ascii "_id") = join [0x2E] us ∧
            ∀ u ∈ us, IsOracleIdentifier id u) ∧
        quoteOracleIdentifier id (quoteOracleIdentifier id (ascii "_id")) =
          quoteOracleIdentifier id (ascii "_id")) := by
  rintro ⟨h, -⟩
  have hsegments := (exists_oracleIdentifiers_iff id (ascii "_id")).mp h
  revert hsegments
  decide +kernel

end Sql
