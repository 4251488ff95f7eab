import GoBricks.Lib.Segments
import GoBricks.Sql.Lexer
import Mathlib.Algebra.Group.Nat.Even

/-!
# Splitting a qualified name

What the parser of qualified names finds. A name is cut at its dots outside of quotes, and the parts
are trimmed (`exists_of_parse`). What it finds are **segments**: trimmed texts that close their
quotes and have no dot outside of them (`IsSegment`); and the text of segments with dots between
them is split into these again (`split_join`).
-/

open Text List

namespace Sql

/-! ### Quotes -/

/-- Whether quotes are open after one more byte; none at a dot outside of quotes. -/
def quotesAfterByte (quotes : Bool) (c : UInt8) : Option Bool :=
  if c = 0x22 then some !quotes else if c = 0x2E ∧ !quotes then none else some quotes

/-- Whether quotes are open after a text; none if there is a dot outside of quotes. -/
def quotesAfter : Bool → Bytes → Option Bool
  | quotes, [] => some quotes
  | quotes, [c] => quotesAfterByte quotes c
  | quotes, c :: d :: rest =>
    if c = 0x22 ∧ quotes ∧ d = 0x22 then
      quotesAfter quotes rest
    else
      match quotesAfterByte quotes c with
      | none => none
      | some quotes => quotesAfter quotes (d :: rest)

variable {quotes : Bool} {c : UInt8} {rest : Bytes}

theorem quotesAfter_cons (hpair : c = 0x22 → quotes → rest.head? ≠ some 0x22) :
    quotesAfter quotes (c :: rest) =
      (quotesAfterByte quotes c).bind fun quotes ↦ quotesAfter quotes rest := by
  cases rest with
  | nil =>
    rw [quotesAfter]
    cases quotesAfterByte quotes c <;> rfl
  | cons d rest =>
    rw [quotesAfter, if_neg]
    · cases quotesAfterByte quotes c <;> rfl
    · rintro ⟨hc, hquotes, rfl⟩
      exact hpair hc hquotes rfl

/-- A byte that is neither a quote nor a dot leaves the quotes as they are. -/
theorem quotesAfter_cons_of_ne (hquote : c ≠ 0x22) (hdot : c ≠ 0x2E) :
    quotesAfter quotes (c :: rest) = quotesAfter quotes rest := by
  rw [quotesAfter_cons fun h ↦ absurd h hquote, quotesAfterByte, if_neg hquote,
    if_neg fun h ↦ hdot h.1, Option.bind_some]

theorem ne_of_not_isSolid (h : isSolid c = false) : c ≠ 0x22 ∧ c ≠ 0x2E := by
  constructor <;> (rintro rfl; cases h)

theorem quotesAfter_append_left {v : Bytes} (hv : ∀ b ∈ v, isSolid b = false) (quotes : Bool)
    (s : Bytes) : quotesAfter quotes (v ++ s) = quotesAfter quotes s := by
  induction v with
  | nil => rfl
  | cons c v ih =>
    obtain ⟨hc, hv⟩ := forall_mem_cons.mp hv
    obtain ⟨hquote, hdot⟩ := ne_of_not_isSolid hc
    rw [cons_append, quotesAfter_cons_of_ne hquote hdot, ih hv]

theorem quotesAfter_append_right {v : Bytes} (hv : ∀ b ∈ v, isSolid b = false) (quotes : Bool)
    (s : Bytes) : quotesAfter quotes (s ++ v) = quotesAfter quotes s := by
  have hnil : ∀ quotes, quotesAfter quotes v = some quotes := fun quotes ↦ by
    simpa [quotesAfter] using quotesAfter_append_left hv quotes []
  fun_induction quotesAfter quotes s with
  | case1 quotes => exact hnil quotes
  | case2 quotes c =>
    rw [singleton_append, quotesAfter_cons]
    · simp [hnil]
    · intro _ _ hhead
      exact (ne_of_not_isSolid (hv _ (mem_of_mem_head? hhead))).1 rfl
  | case3 quotes c d rest h ih =>
    obtain ⟨rfl, hquotes, rfl⟩ := h
    rw [hquotes] at ih ⊢
    exact ih
  | case4 quotes c d rest h hnone =>
    rw [cons_append, cons_append, quotesAfter, if_neg h, hnone]
  | case5 quotes c d rest h quotes' hsome ih =>
    rw [cons_append, cons_append, quotesAfter, if_neg h, hsome]
    exact ih

/-- White space around does not count. -/
theorem quotesAfter_trimSpace (quotes : Bool) (s : Bytes) :
    quotesAfter quotes (trimSpace s) = quotesAfter quotes s := by
  obtain ⟨v, w, hv, hw, hs, -⟩ := trimSpace_spec s
  rw [← quotesAfter_append_left hv, ← quotesAfter_append_right hw, hs]

/-- A trimmed text that closes its quotes and has no dot outside of them. -/
structure IsSegment (s : Bytes) : Prop where
  closed : quotesAfter false s = some false
  trimmed : trimSpace s = s
  ne_nil : s ≠ []

/-! ### The parser -/

variable {p : IdentifierParser}

namespace IdentifierParser

theorem parse_cons {p' : IdentifierParser} (hstep : p.step c = some p')
    (hpair : c = 0x22 → p.inQuotes → rest.head? ≠ some 0x22) :
    p.parse (c :: rest) = p'.parse rest := by
  cases rest with
  | nil => simp [parse, hstep]
  | cons d rest =>
    rw [parse, if_neg, hstep]
    rintro ⟨hc, hquotes, rfl⟩
    exact hpair hc hquotes rfl

theorem step_of_some (h : quotesAfterByte p.inQuotes c = some quotes) :
    p.step c = some ⟨quotes, p.segments, p.current ++ [c]⟩ := by
  rw [quotesAfterByte] at h
  split_ifs at h with hquote hdot
  · cases h
    rw [step, if_pos hquote, hquote]
  · cases h
    rw [step, if_neg hquote, handleDot]
    split_ifs with h2E hopen
    · rw [h2E]
    · exact absurd ⟨h2E, by simpa using hopen⟩ hdot
    · rfl

theorem step_of_none (h : quotesAfterByte p.inQuotes c = none) :
    c = 0x2E ∧ p.inQuotes = false ∧ p.step c = p.push := by
  rw [quotesAfterByte] at h
  split_ifs at h with hquote hdot
  obtain ⟨rfl, hopen⟩ := hdot
  have hopen : p.inQuotes = false := by simpa using hopen
  refine ⟨rfl, hopen, ?_⟩
  rw [step, if_neg hquote, if_pos rfl, handleDot, hopen]
  rfl

/-- A text without a dot outside of quotes is taken as a whole, if no quote follows. -/
theorem parse_append {open' : Bool} {segments : List Bytes} {current u : Bytes}
    (h : quotesAfter open' u = some quotes) (hrest : rest.head? ≠ some 0x22) :
    parse ⟨open', segments, current⟩ (u ++ rest) = parse ⟨quotes, segments, current ++ u⟩ rest := by
  fun_induction quotesAfter open' u generalizing current with
  | case1 open' =>
    cases h
    rw [nil_append, append_nil]
  | case2 open' c =>
    exact parse_cons (step_of_some (p := ⟨open', segments, current⟩) h) fun _ _ ↦ hrest
  | case3 open' c d u hpair ih =>
    obtain ⟨rfl, -, rfl⟩ := id hpair
    rw [cons_append, cons_append, parse, if_pos hpair, ih h, append_assoc]
    rfl
  | case4 => cases h
  | case5 open' c d u hpair quotes' hsome ih =>
    have hstep := step_of_some (p := ⟨open', segments, current⟩) hsome
    rw [cons_append, parse_cons hstep, ih h, append_assoc]
    · rfl
    · intro hc hopen hhead
      exact hpair ⟨hc, hopen, Option.some.inj hhead⟩

/-- The rest of the input is cut at its dots outside of quotes, and each part is trimmed. -/
def Cut (p : IdentifierParser) (s : Bytes) (out : List Bytes) : Prop :=
  ∃ u us, s = join [0x2E] (u :: us) ∧ quotesAfter p.inQuotes u = some false ∧
    (∀ v ∈ us, quotesAfter false v = some false) ∧
    (∀ v ∈ (p.current ++ u) :: us, trimSpace v ≠ []) ∧
    out = p.segments ++ ((p.current ++ u) :: us).map trimSpace

theorem Cut.cons {p' : IdentifierParser} {out : List Bytes} (h : p'.Cut rest out)
    (hstep : p.step c = some p') (hpair : c = 0x22 → p.inQuotes → rest.head? ≠ some 0x22) :
    p.Cut (c :: rest) out := by
  obtain ⟨u, us, rfl, hu, hus, hne, rfl⟩ := h
  cases hbyte : quotesAfterByte p.inQuotes c with
  | some quotes =>
    rw [step_of_some hbyte] at hstep
    cases hstep
    refine ⟨c :: u, us, rfl, ?_, hus, by simpa using hne, by simp⟩
    rw [quotesAfter_cons, hbyte]
    · exact hu
    · intro hc hopen hhead
      exact hpair hc hopen (by rw [join_cons, List.head?_append, hhead]; rfl)
  | none =>
    obtain ⟨rfl, hopen, hpush⟩ := step_of_none hbyte
    rw [hpush, push] at hstep
    split_ifs at hstep with hcurrent
    cases hstep
    simp only [hopen, nil_append] at hu hne
    refine ⟨[], u :: us, rfl, by rw [hopen]; rfl, forall_mem_cons.mpr ⟨hu, hus⟩, ?_, by simp⟩
    rw [append_nil]
    exact forall_mem_cons.mpr ⟨hcurrent, hne⟩

/-- The parse cuts at dots outside the quotes. -/
theorem cut_of_parse {s : Bytes} {out : List Bytes} (h : p.parse s = some out) : p.Cut s out := by
  fun_induction parse p s with
  | case1 p =>
    by_cases hcurrent : trimSpace p.current = []
    · rw [finalize, push, if_pos hcurrent] at h
      cases h
    · rw [finalize, push, if_neg hcurrent] at h
      dsimp only at h
      split_ifs at h with hopen
      cases h
      refine ⟨[], [], rfl, by simpa [quotesAfter] using hopen, by simp, ?_, by simp⟩
      simpa using hcurrent
  | case2 p c hnone => cases h
  | case3 p c p' hstep ih => exact (ih h).cons hstep fun _ _ ↦ nofun
  | case4 p c d rest hpair ih =>
    obtain ⟨rfl, hopen, rfl⟩ := hpair
    obtain ⟨u, us, rfl, hu, hus, hne, rfl⟩ := ih h
    refine ⟨0x22 :: 0x22 :: u, us, rfl, ?_, hus, by simpa using hne, by simp⟩
    rw [hopen] at hu ⊢
    exact hu
  | case5 p c d rest hpair hnone => cases h
  | case6 p c d rest hpair p' hstep ih =>
    exact (ih h).cons hstep fun hc hopen hhead ↦ hpair ⟨hc, hopen, Option.some.inj hhead⟩

end IdentifierParser

/-! ### The segments -/

theorem exists_of_parse {s : Bytes} {out : List Bytes}
    (h : parseQualifiedIdentifier s = some out) :
    ∃ us ≠ [], s = join [0x2E] us ∧ out = us.map trimSpace ∧
      ∀ u ∈ us, IsSegment (trimSpace u) := by
  obtain ⟨u, us, rfl, hu, hus, hne, rfl⟩ := IdentifierParser.cut_of_parse h
  refine ⟨u :: us, cons_ne_nil _ _, rfl, rfl, fun v hv ↦ ⟨?_, trimSpace_trimSpace v, hne v hv⟩⟩
  rw [quotesAfter_trimSpace]
  rcases mem_cons.mp hv with rfl | hv
  · exact hu
  · exact hus v hv

/-- Segments that are joined are parsed again. -/
theorem parse_join {us : List Bytes} (hus : us ≠ []) (h : ∀ u ∈ us, IsSegment u) :
    parseQualifiedIdentifier (join [0x2E] us) = some us := by
  have hhead : ∀ us : List Bytes, (us.flatMap ([0x2E] ++ ·)).head? ≠ some 0x22 := by
    intro us
    cases us <;> simp
  -- After the first segments and one more that is complete.
  suffices ∀ (us : List Bytes) (segments : List Bytes) (u : Bytes), (∀ v ∈ u :: us, IsSegment v) →
      IdentifierParser.parse ⟨false, segments, []⟩ (join [0x2E] (u :: us)) =
        some (segments ++ u :: us) by
    obtain ⟨u, us, rfl⟩ := exists_cons_of_ne_nil hus
    exact this us [] u h
  intro us
  induction us with
  | nil =>
    intro segments u h
    have hu := h u mem_cons_self
    rw [join_cons, IdentifierParser.parse_append hu.closed (hhead _)]
    simp [IdentifierParser.parse, IdentifierParser.finalize, IdentifierParser.push, hu.trimmed,
      hu.ne_nil]
  | cons v us ih =>
    intro segments u h
    obtain ⟨hu, hus⟩ := forall_mem_cons.mp h
    have hdot : IdentifierParser.step ⟨false, segments, u⟩ 0x2E =
        some ⟨false, segments ++ [u], []⟩ := by
      simp [IdentifierParser.step, IdentifierParser.handleDot, IdentifierParser.push, hu.trimmed,
        hu.ne_nil]
    have hrest := ih (segments ++ [u]) v hus
    rw [join_cons, IdentifierParser.parse_append hu.closed (hhead _), flatMap_cons,
      nil_append, append_assoc, singleton_append,
      IdentifierParser.parse_cons hdot (fun h ↦ absurd h (by decide)), ← join_cons, hrest,
      append_assoc, singleton_append]

/-- **Segments with dots between them are found again.** -/
theorem split_join {us : List Bytes} (hus : us ≠ []) (h : ∀ u ∈ us, IsSegment u) :
    splitIdentifierSegments (join [0x2E] us) = us := by
  rw [splitIdentifierSegments, parse_join hus h]
  split
  · next hmark =>
    -- Without a dot there is one segment.
    obtain ⟨u, us, rfl⟩ := exists_cons_of_ne_nil hus
    cases us with
    | nil =>
      have hu := h u mem_cons_self
      rw [join_cons, flatMap_nil, append_nil, hu.trimmed, if_pos hu.ne_nil]
    | cons v us => simp [hasQualifierOrQuote, join_cons] at hmark
  · rfl

/-- A segment is not split. -/
theorem IsSegment.split_eq {s : Bytes} (h : IsSegment s) : splitIdentifierSegments s = [s] := by
  have := split_join (cons_ne_nil s []) (by simpa using h)
  rwa [join_cons, flatMap_nil, append_nil] at this

/-- A name that is not split is the one segment. -/
theorem split_eq_or (s : Bytes) :
    splitIdentifierSegments s = [s] ∨ splitIdentifierSegments s = [trimSpace s] ∨
      ∃ us, 1 < us.length ∧ s = join [0x2E] us ∧ splitIdentifierSegments s = us.map trimSpace ∧
        ∀ u ∈ us, IsSegment (trimSpace u) := by
  rw [splitIdentifierSegments]
  split
  · split
    · exact .inr (.inl rfl)
    · exact .inl rfl
  · cases hparse : parseQualifiedIdentifier s with
    | none => exact .inl rfl
    | some out =>
      obtain ⟨us, hus, rfl, rfl, hseg⟩ := exists_of_parse hparse
      by_cases hlen : 1 < us.length
      · exact .inr (.inr ⟨us, hlen, rfl, rfl, hseg⟩)
      · obtain ⟨u, rfl⟩ : ∃ u, us = [u] := by
          have := length_pos_of_ne_nil hus
          exact length_eq_one_iff.mp (by omega)
        exact .inr (.inl (by simp [join_cons]))

/-- The segments of a name that has several are shorter than the name. -/
theorem length_lt_of_mem_split {identifier s : Bytes}
    (hlen : 1 < (splitIdentifierSegments identifier).length)
    (hs : s ∈ splitIdentifierSegments identifier) : s.length < identifier.length := by
  rcases split_eq_or identifier with h | h | ⟨us, hus, rfl, h, -⟩
  · simp [h] at hlen
  · simp [h] at hlen
  · rw [h] at hs
    obtain ⟨u, hu, rfl⟩ := mem_map.mp hs
    refine (length_trimSpace_le u).trans_lt ?_
    match us, hus, hu with
    | v :: w :: us, _, hu =>
      rcases mem_cons.mp hu with rfl | hu
      · simp [join_cons]
      · have hrest : u.length + 1 ≤ ((w :: us).flatMap ([0x2E] ++ ·)).length :=
          (sublist_flatten_of_mem (mem_map_of_mem (f := ([0x2E] ++ ·)) hu)).length_le
        rw [join_cons, length_append]
        omega

/-- Quotes that are closed are even in number. -/
theorem even_count_quotes {quotes' : Bool} {s : Bytes} (h : quotesAfter quotes s = some quotes') :
    Even (s.count 0x22) ↔ quotes = quotes' := by
  fun_induction quotesAfter quotes s with
  | case1 quotes =>
    cases h
    simp
  | case2 quotes c =>
    rw [quotesAfterByte] at h
    split_ifs at h with hquote hdot <;> cases h <;> simp [hquote]
  | case3 quotes c d rest hpair ih =>
    obtain ⟨rfl, -, rfl⟩ := hpair
    rw [List.count_cons_self, List.count_cons_self, Nat.even_add_one, Nat.even_add_one, not_not]
    exact ih h
  | case4 => cases h
  | case5 quotes c d rest hpair opened hbyte ih =>
    have hrest := ih h
    rw [quotesAfterByte] at hbyte
    split_ifs at hbyte with hquote hdot
    · cases hbyte
      rw [hquote, List.count_cons_self, Nat.even_add_one, hrest]
      cases quotes <;> cases quotes' <;> simp
    · cases hbyte
      rw [List.count_cons_of_ne hquote]
      exact hrest

theorem quotesAfter_of_not_mem {s : Bytes} (h : hasQualifierOrQuote s = false) :
    quotesAfter quotes s = some quotes := by
  induction s with
  | nil => rfl
  | cons c s ih =>
    rw [hasQualifierOrQuote, any_cons, Bool.or_eq_false_iff, Bool.or_eq_false_iff] at h
    rw [quotesAfter_cons_of_ne (beq_eq_false_iff_ne.mp h.1.2) (beq_eq_false_iff_ne.mp h.1.1)]
    exact ih h.2

/-- The short way gives what the parser gives. -/
theorem split_eq_parse (s : Bytes) :
    splitIdentifierSegments s = (parseQualifiedIdentifier s).getD [s] := by
  rw [splitIdentifierSegments]
  split
  · next hmark =>
    have hclosed : quotesAfter false s = some false :=
      quotesAfter_of_not_mem (by simpa using hmark)
    have hparse : IdentifierParser.parse {} (s ++ []) = IdentifierParser.parse ⟨false, [], s⟩ [] :=
      IdentifierParser.parse_append hclosed nofun
    rw [append_nil] at hparse
    rw [parseQualifiedIdentifier, hparse, IdentifierParser.parse, IdentifierParser.finalize,
      IdentifierParser.push]
    by_cases hne : trimSpace s = []
    · simp [hne]
    · simp [hne]
  · cases parseQualifiedIdentifier s <;> rfl

/-- **Splitting a name.** The short way agrees with the parser; and where there are several
segments, each is trimmed, not empty and has its quotes in pairs, and with dots between them they
are split into the same segments. -/
theorem splitIdentifierSegments_spec :
    (∀ s, splitIdentifierSegments s = (parseQualifiedIdentifier s).getD [s]) ∧
    ∀ s, 1 < (splitIdentifierSegments s).length →
      (∀ segment ∈ splitIdentifierSegments s,
        segment ≠ [] ∧ trimSpace segment = segment ∧ Even (segment.count 0x22)) ∧
      splitIdentifierSegments (join [0x2E] (splitIdentifierSegments s)) =
        splitIdentifierSegments s := by
  refine ⟨split_eq_parse, fun s hlen ↦ ?_⟩
  rcases split_eq_or s with h | h | ⟨us, hus, -, h, hsegments⟩
  · simp [h] at hlen
  · simp [h] at hlen
  · rw [← forall_mem_map, ← h] at hsegments
    refine ⟨fun segment hmem ↦ ?_, split_join ?_ hsegments⟩
    · have hsegment := hsegments segment hmem
      exact ⟨hsegment.ne_nil, hsegment.trimmed, (even_count_quotes hsegment.closed).mpr rfl⟩
    · exact ne_nil_of_length_pos (Nat.zero_lt_of_lt hlen)

/-- Spaces are trimmed, and a dot in quotes is no separator. -/
theorem splitIdentifierSegments_spec_quoted :
    let segments := splitIdentifierSegments (ascii "a . \"b.c\"")
    segments = [ascii "a", ascii "\"b.c\""] ∧
      splitIdentifierSegments (join [0x2E] segments) = segments := by
  have hsplit : splitIdentifierSegments (ascii "a . \"b.c\"") =
      [ascii "a", ascii "\"b.c\""] := by decide +kernel
  exact ⟨hsplit, (splitIdentifierSegments_spec.2 _ (by rw [hsplit]; decide)).2⟩

end Sql
