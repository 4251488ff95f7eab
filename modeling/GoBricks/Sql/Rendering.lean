import GoBricks.Sql.Segments

/-!
# What is rendered for an identifier means what was accepted

A text at a door **denotes** the names of its segments, whether there is a wildcard, an alias, a
direction and an order of nulls (`Denotes`). A text is accepted by a door's pattern exactly if it
denotes something (`accepts_iff`), and it denotes one thing only (`Denotes.unique`). What is
rendered for it is a text of the same pattern that denotes the same (`render_denotes`).
-/

open RegularExpression Text List

namespace Sql

/-! ### Keywords -/

variable {w : Bytes}

/-- A letter is spelled in both cases. An `S` also as the long one. -/
theorem mem_foldLetter {c : UInt8} :
    w ∈ (foldLetter c).matches' ↔ w = [c] ∨ w = [c + 0x20] ∨ (c = 0x53 ∧ w = [0xC5, 0xBF]) := by
  rw [foldLetter, matches'_add, Language.mem_add, matches'_add, Language.mem_add, or_assoc]
  refine or_congr Iff.rfl (or_congr Iff.rfl ?_)
  split
  · next h => simp [h, Regex.mem_literal]
  · next h => simp [h]

theorem mem_keyword_cons {c : UInt8} {cs : Bytes} :
    w ∈ (keyword (c :: cs)).matches' ↔
      ∃ a ∈ (foldLetter c).matches', ∃ b ∈ (keyword cs).matches', a ++ b = w := by
  have h : keyword (c :: cs) = foldLetter c * keyword cs := rfl
  rw [h, matches'_mul, Language.mem_mul]

theorem mem_keyword_self (cs : Bytes) : cs ∈ (keyword cs).matches' := by
  induction cs with
  | nil => exact rfl
  | cons c cs ih => exact mem_keyword_cons.mpr ⟨[c], mem_foldLetter.mpr (.inl rfl), cs, ih, rfl⟩

/-- The letters `A` to `Z`. -/
def upperLetters : List UInt8 :=
  (List.range 26).map fun i ↦ .ofNat (0x41 + i)

theorem upperLetters_fold : ∀ c ∈ upperLetters, c < 0x80 ∧ c + 0x20 < 0x80 ∧ upperByte c = c ∧
    upperByte (c + 0x20) = c ∧ (c ≠ 0x20 ∧ c ≠ 0x22) ∧ c + 0x20 ≠ 0x20 ∧ c + 0x20 ≠ 0x22 :=
  all_iff_forall_prop.mp (by decide)

/-- What a keyword matches is the keyword in upper case. -/
theorem toUpper_keyword_append (upper : ℕ → ℕ) {cs : Bytes} (hcs : ∀ c ∈ cs, c ∈ upperLetters)
    (h : w ∈ (keyword cs).matches') (rest : Bytes) :
    toUpper upper (w ++ rest) = cs ++ toUpper upper rest := by
  induction cs generalizing w with
  | nil =>
    cases Set.mem_singleton_iff.mp h
    rfl
  | cons c cs ih =>
    obtain ⟨hc, hcs⟩ := forall_mem_cons.mp hcs
    obtain ⟨a, ha, b, hb, rfl⟩ := mem_keyword_cons.mp h
    have hupper := ih hcs hb
    obtain ⟨hlt, hlt', hfold, hfold', -⟩ := upperLetters_fold c hc
    rcases mem_foldLetter.mp ha with rfl | rfl | ⟨rfl, rfl⟩
    · rw [singleton_append, cons_append, toUpper_cons hlt, hfold, hupper,
        cons_append]
    · rw [singleton_append, cons_append, toUpper_cons hlt', hfold', hupper,
        cons_append]
    · rw [cons_append, singleton_append, cons_append, cons_append,
        toUpper_longS,
        hupper, cons_append]

/-- Each spelling of a keyword has its upper case. -/
theorem toUpper_keyword (upper : ℕ → ℕ) {cs : Bytes} (hcs : ∀ c ∈ cs, c ∈ upperLetters)
    (h : w ∈ (keyword cs).matches') : toUpper upper w = cs := by
  simpa using toUpper_keyword_append upper hcs h []

theorem ne_of_mem_keyword {cs : Bytes} (hcs : ∀ c ∈ cs, c ∈ upperLetters)
    (h : w ∈ (keyword cs).matches') : ∀ b ∈ w, b ≠ 0x20 ∧ b ≠ 0x22 := by
  induction cs generalizing w with
  | nil =>
    cases Set.mem_singleton_iff.mp h
    simp
  | cons c cs ih =>
    obtain ⟨hc, hcs⟩ := forall_mem_cons.mp hcs
    obtain ⟨a, ha, b, hb, rfl⟩ := mem_keyword_cons.mp h
    refine forall_mem_append.mpr ⟨?_, ih hcs hb⟩
    obtain ⟨-, -, -, -, hne, hne'⟩ := upperLetters_fold c hc
    rcases mem_foldLetter.mp ha with rfl | rfl | ⟨rfl, rfl⟩
    · simpa using hne
    · simpa using hne'
    · exact all_iff_forall_prop.mp (by decide)

/-! ### Directions -/

/-- The text stands for the direction, with the blank before it. -/
def SpellsDir : Option Direction → Bytes → Prop
  | none, w => w = []
  | some d, w => ∃ k ∈ (keyword d.word).matches', w = 0x20 :: k

/-- The text stands for the order of nulls, with the blank before it. -/
def SpellsNulls : Option NullsOrder → Bytes → Prop
  | none, w => w = []
  | some o, w =>
    ∃ k ∈ (keyword nullsWord).matches', ∃ k' ∈ (keyword o.word).matches',
      w = 0x20 :: (k ++ 0x20 :: k')

/-- The spellings of a direction. -/
theorem mem_dir :
    w ∈ (Regex.optional (char 0x20 *
      (keyword Direction.asc.word + keyword Direction.desc.word))).matches' ↔
      ∃ d, SpellsDir d w := by
  rw [Regex.mem_optional, matches'_mul, Language.mem_mul, matches'_add]
  constructor
  · rintro (rfl | ⟨a, ha, b, hb, rfl⟩)
    · exact ⟨none, rfl⟩
    · cases Set.mem_singleton_iff.mp ha
      rcases (Language.mem_add _ _ _).mp hb with hb | hb
      · exact ⟨some .asc, b, hb, rfl⟩
      · exact ⟨some .desc, b, hb, rfl⟩
  · rintro ⟨d, h⟩
    cases d with
    | none => exact .inl h
    | some d =>
      obtain ⟨k, hk, rfl⟩ := h
      refine .inr ⟨[0x20], rfl, k, (Language.mem_add _ _ _).mpr ?_, rfl⟩
      cases d with
      | asc => exact .inl hk
      | desc => exact .inr hk

/-- The spellings of a place for nulls. -/
theorem mem_nulls :
    w ∈ (Regex.optional (char 0x20 * keyword nullsWord *
      (char 0x20 * (keyword NullsOrder.first.word + keyword NullsOrder.last.word)))).matches' ↔
      ∃ o, SpellsNulls o w := by
  rw [Regex.mem_optional, matches'_mul, Language.mem_mul]
  simp only [matches'_mul, matches'_add, Language.mem_mul]
  constructor
  · rintro (rfl | ⟨_, ⟨a, ha, k, hk, rfl⟩, _, ⟨b, hb, k', hk', rfl⟩, rfl⟩)
    · exact ⟨none, rfl⟩
    · cases Set.mem_singleton_iff.mp ha
      cases Set.mem_singleton_iff.mp hb
      rcases (Language.mem_add _ _ _).mp hk' with hk' | hk'
      · exact ⟨some .first, k, hk, k', hk', rfl⟩
      · exact ⟨some .last, k, hk, k', hk', rfl⟩
  · rintro ⟨o, h⟩
    cases o with
    | none => exact .inl h
    | some o =>
      obtain ⟨k, hk, k', hk', rfl⟩ := h
      refine .inr ⟨0x20 :: k, ⟨[0x20], rfl, k, hk, rfl⟩, 0x20 :: k', ⟨[0x20], rfl, k', ?_, rfl⟩,
        rfl⟩
      refine (Language.mem_add _ _ _).mpr ?_
      cases o with
      | first => exact .inl hk'
      | last => exact .inr hk'

theorem direction_upper (d : Direction) : ∀ c ∈ d.word, c ∈ upperLetters := by
  cases d <;> exact all_iff_forall_prop.mp (by decide)

theorem nulls_upper (o : NullsOrder) : ∀ c ∈ o.word, c ∈ upperLetters := by
  cases o <;> exact all_iff_forall_prop.mp (by decide)

theorem nullsWord_upper : ∀ c ∈ nullsWord, c ∈ upperLetters :=
  all_iff_forall_prop.mp (by decide)

/-- The direction in upper case. -/
def dirText : Option Direction → Bytes
  | none => []
  | some d => 0x20 :: d.word

/-- The order of nulls in upper case. -/
def nullsText : Option NullsOrder → Bytes
  | none => []
  | some o => 0x20 :: (nullsWord ++ 0x20 :: o.word)

theorem spellsDir_dirText (d : Option Direction) : SpellsDir d (dirText d) := by
  cases d with
  | none => exact rfl
  | some d => exact ⟨d.word, mem_keyword_self _, rfl⟩

theorem spellsNulls_nullsText (o : Option NullsOrder) : SpellsNulls o (nullsText o) := by
  cases o with
  | none => exact rfl
  | some o => exact ⟨nullsWord, mem_keyword_self _, o.word, mem_keyword_self _, rfl⟩

variable {d : Option Direction}

theorem SpellsDir.toUpper_append (upper : ℕ → ℕ) (h : SpellsDir d w) (rest : Bytes) :
    toUpper upper (w ++ rest) = dirText d ++ toUpper upper rest := by
  cases d with
  | none =>
    cases h
    rfl
  | some d =>
    obtain ⟨k, hk, rfl⟩ := h
    rw [cons_append, toUpper_cons (by decide), toUpper_keyword_append _ (direction_upper d) hk]
    rfl

theorem SpellsDir.toUpper_eq (upper : ℕ → ℕ) (h : SpellsDir d w) : toUpper upper w = dirText d := by
  simpa using h.toUpper_append upper []

variable {o : Option NullsOrder}

theorem SpellsNulls.toUpper_eq (upper : ℕ → ℕ) (h : SpellsNulls o w) :
    toUpper upper w = nullsText o := by
  cases o with
  | none => exact congrArg (toUpper upper) h
  | some o =>
    obtain ⟨k, hk, k', hk', rfl⟩ := h
    rw [toUpper_cons (by decide), toUpper_keyword_append _ nullsWord_upper hk,
      toUpper_cons (by decide), toUpper_keyword _ (nulls_upper o) hk']
    rfl

/-! ### Splitting at a blank -/

/-- The text is empty or starts with a blank. -/
def AtBlank (w : Bytes) : Prop :=
  ∀ b ∈ w.head?, b = 0x20

/-- A text before the first blank and one from there on are determined by the whole. -/
theorem append_inj_atBlank {a a' b b' : Bytes} (ha : ∀ c ∈ a, c ≠ 0x20) (ha' : ∀ c ∈ a', c ≠ 0x20)
    (hb : AtBlank b) (hb' : AtBlank b') (h : a ++ b = a' ++ b') : a = a' ∧ b = b' := by
  induction a generalizing a' with
  | nil =>
    cases a' with
    | nil => exact ⟨rfl, h⟩
    | cons c a' =>
      have hc : c = 0x20 := hb c (by rw [← nil_append b, h]; rfl)
      exact absurd hc (ha' c mem_cons_self)
  | cons c a ih =>
    cases a' with
    | nil =>
      have hc : c = 0x20 := hb' c (by rw [← nil_append b', ← h]; rfl)
      exact absurd hc (ha c mem_cons_self)
    | cons c' a' =>
      obtain ⟨rfl, htail⟩ : c = c' ∧ a ++ b = a' ++ b' := by simpa using h
      obtain ⟨rfl, rfl⟩ := ih (forall_mem_cons.mp ha).2 (forall_mem_cons.mp ha').2 htail
      exact ⟨rfl, rfl⟩

theorem SpellsDir.atBlank (h : SpellsDir d w) : AtBlank w := by
  cases d with
  | none =>
    rw [h]
    nofun
  | some d =>
    obtain ⟨k, -, rfl⟩ := h
    rintro b ⟨⟩
    rfl

theorem SpellsNulls.atBlank (h : SpellsNulls o w) : AtBlank w := by
  cases o with
  | none =>
    rw [h]
    nofun
  | some o =>
    obtain ⟨k, -, k', -, rfl⟩ := h
    rintro b ⟨⟩
    rfl

variable {x : Bytes}

/-- A direction and an order of nulls are determined by their text. -/
theorem spells_inj {d' : Option Direction} {o' : Option NullsOrder} {w' x' : Bytes}
    (hd : SpellsDir d w) (hd' : SpellsDir d' w') (ho : SpellsNulls o x) (ho' : SpellsNulls o' x')
    (h : w ++ x = w' ++ x') : d = d' ∧ o = o' ∧ w = w' ∧ x = x' := by
  have htexts : dirText d ++ nullsText o = dirText d' ++ nullsText o' := by
    rw [← ho.toUpper_eq id, ← hd.toUpper_append, h, hd'.toUpper_append, ho'.toUpper_eq]
  obtain ⟨rfl, rfl⟩ : d = d' ∧ o = o' := by
    rcases d with _ | _ | _ <;> rcases d' with _ | _ | _ <;> rcases o with _ | _ | _ <;>
      rcases o' with _ | _ | _ <;> first | exact ⟨rfl, rfl⟩ | (revert htexts; decide)
  cases d with
  | none =>
    cases hd
    cases hd'
    exact ⟨rfl, rfl, rfl, h⟩
  | some d =>
    obtain ⟨k, hk, rfl⟩ := hd
    obtain ⟨k', hk', rfl⟩ := hd'
    have htail : k ++ x = k' ++ x' := by simpa using h
    obtain ⟨rfl, rfl⟩ := append_inj_atBlank
      (fun b hb ↦ (ne_of_mem_keyword (direction_upper d) hk b hb).1)
      (fun b hb ↦ (ne_of_mem_keyword (direction_upper d) hk' b hb).1) ho.atBlank ho'.atBlank htail
    exact ⟨rfl, rfl, rfl, rfl⟩

/-! ### What a text denotes -/

/-- What an identifier names. -/
structure Meaning where
  names : List Bytes
  wildcard : Bool
  tableAlias : Option Bytes
  dir : Option Direction
  nulls : Option NullsOrder

/-- The text of an alias, with the blank before it. -/
def aliasText : Option Seg → Bytes
  | none => []
  | some a => 0x20 :: a.text

/-- The text of the wildcard of a table. -/
def starText : Bool → Bytes
  | false => []
  | true => [0x2E, 0x2A]

/-- What a text denotes at a door. -/
inductive Denotes : Door → Bytes → Meaning → Prop
  | column (s : Seg) (ss : List Seg) :
      Denotes .column (segsText (s :: ss)) ⟨(s :: ss).map Seg.name, false, none, none, none⟩
  | all : Denotes .select [0x2A] ⟨[], true, none, none, none⟩
  | select (s : Seg) (ss : List Seg) (star : Bool) :
      Denotes .select (segsText (s :: ss) ++ starText star)
        ⟨(s :: ss).map Seg.name, star, none, none, none⟩
  | table (s : Seg) (ss : List Seg) (a : Option Seg) :
      Denotes .table (segsText (s :: ss) ++ aliasText a)
        ⟨(s :: ss).map Seg.name, false, a.map Seg.name, none, none⟩
  | clause (s : Seg) (ss : List Seg) {d : Option Direction} {o : Option NullsOrder} {w x : Bytes} :
      SpellsDir d w → SpellsNulls o x →
      Denotes .clause (segsText (s :: ss) ++ (w ++ x)) ⟨(s :: ss).map Seg.name, false, none, d, o⟩

/-! ### A text denotes one thing -/

theorem Seg.name_eq_filter (s : Seg) : s.name = s.text.filter (· ≠ 0x22) := by
  have hname : s.name.filter (· ≠ 0x22) = s.name := by
    refine filter_eq_self.mpr fun b hb ↦ ?_
    simpa using (identPart_solid b (s.valid.mem b hb)).2.1
  rw [Seg.text]
  split
  · rw [filter_cons_of_neg (by simp), filter_append, hname]
    simp
  · exact hname.symm

variable {ss : List Seg}

/-- A text is that of one list of segments. -/
theorem names_eq_of_segsText_eq {s t : Seg} {tt : List Seg}
    (h : segsText (s :: ss) = segsText (t :: tt)) :
    (s :: ss).map Seg.name = (t :: tt).map Seg.name := by
  have hnames : ∀ l : List Seg, l.map Seg.name = (l.map Seg.text).map (·.filter (· ≠ 0x22)) := by
    intro l
    rw [List.map_map]
    exact map_congr_left fun s _ ↦ s.name_eq_filter
  rw [hnames, ← split_segsText, h, split_segsText, ← hnames]

/-- The segments end where a blank or the text's end is. -/
theorem segsText_append_inj {s t : Seg} {tt : List Seg} (hw : AtBlank w) (hx : AtBlank x)
    (h : segsText (s :: ss) ++ w = segsText (t :: tt) ++ x) :
    segsText (s :: ss) = segsText (t :: tt) ∧ w = x :=
  append_inj_atBlank (fun _ hb ↦ (mem_segsText hb).1) (fun _ hb ↦ (mem_segsText hb).1) hw hx h

theorem atBlank_aliasText (a : Option Seg) : AtBlank (aliasText a) := by
  cases a with
  | none => nofun
  | some a =>
    rintro b ⟨⟩
    rfl

theorem aliasText_inj {a b : Option Seg} (h : aliasText a = aliasText b) :
    a.map Seg.name = b.map Seg.name := by
  cases a with
  | none =>
    cases b with
    | none => rfl
    | some b => cases h
  | some a =>
    cases b with
    | none => cases h
    | some b =>
      have htext : a.text = b.text := by simpa [aliasText] using h
      rw [Option.map_some, Option.map_some, a.name_eq_filter, htext, ← b.name_eq_filter]

theorem AtBlank.append (hw : AtBlank w) (hx : AtBlank x) : AtBlank (w ++ x) := by
  cases w with
  | nil => exact hx
  | cons b w => exact hw

theorem star_mem_iff {s : Seg} {star : Bool} :
    0x2A ∈ segsText (s :: ss) ++ starText star ↔ star = true := by
  rw [mem_append]
  constructor
  · rintro (h | h)
    · exact absurd rfl (mem_segsText h).2.1
    · cases star with
      | false => cases h
      | true => rfl
  · rintro rfl
    exact .inr (by decide)

theorem segsText_append_ne_star {s : Seg} : segsText (s :: ss) ++ w ≠ [0x2A] := by
  intro h
  obtain ⟨b, l, hb⟩ := exists_cons_of_ne_nil (segsText_ne_nil s ss)
  rw [hb] at h
  have hstar : b = 0x2A := by
    have := congrArg List.head? h
    simpa using this
  exact (@mem_segsText (s :: ss) b (hb ▸ mem_cons_self)).2.1 hstar

variable {door : Door}

/-- **A text denotes one thing.** -/
theorem Denotes.unique {w' : Bytes} {m m' : Meaning} (h : Denotes door w m)
    (h' : Denotes door w' m') (hw : w = w') : m = m' := by
  cases h with
  | column s ss =>
    cases h' with
    | column t tt => rw [names_eq_of_segsText_eq hw]
  | all =>
    cases h' with
    | all => rfl
    | select t tt star => exact absurd hw.symm segsText_append_ne_star
  | select s ss star =>
    cases h' with
    | all => exact absurd hw segsText_append_ne_star
    | select t tt star' =>
      have hstar : star = star' := by
        rw [Bool.eq_iff_iff, ← star_mem_iff, hw, star_mem_iff]
      subst hstar
      rw [names_eq_of_segsText_eq (append_cancel_right hw)]
  | table s ss a =>
    cases h' with
    | table t tt a' =>
      obtain ⟨hsegs, halias⟩ :=
        segsText_append_inj (atBlank_aliasText a) (atBlank_aliasText a') hw
      rw [names_eq_of_segsText_eq hsegs, aliasText_inj halias]
  | clause s ss hd ho =>
    cases h' with
    | clause t tt hd' ho' =>
      obtain ⟨hsegs, hrest⟩ :=
        segsText_append_inj (hd.atBlank.append ho.atBlank) (hd'.atBlank.append ho'.atBlank) hw
      obtain ⟨rfl, rfl, -, -⟩ := spells_inj hd hd' ho ho' hrest
      rw [names_eq_of_segsText_eq hsegs]

/-! ### What the patterns accept -/

theorem mem_alias : w ∈ (Regex.optional (char 0x20 * segment)).matches' ↔ ∃ a, aliasText a = w := by
  rw [Regex.mem_optional, matches'_mul, Language.mem_mul]
  constructor
  · rintro (rfl | ⟨b, hb, x, hx, rfl⟩)
    · exact ⟨none, rfl⟩
    · cases Set.mem_singleton_iff.mp hb
      obtain ⟨a, rfl⟩ := mem_segment.mp hx
      exact ⟨some a, rfl⟩
  · rintro ⟨a, rfl⟩
    cases a with
    | none => exact .inl rfl
    | some a => exact .inr ⟨[0x20], rfl, a.text, mem_segment.mpr ⟨a, rfl⟩, rfl⟩

theorem mem_select :
    w ∈ (char 0x2A + qualified * Regex.optional (Regex.literal [0x2E, 0x2A])).matches' ↔
      w = [0x2A] ∨ ∃ s ss star, segsText (s :: ss) ++ starText star = w := by
  rw [matches'_add, Language.mem_add, matches'_mul, Language.mem_mul]
  refine or_congr Iff.rfl ?_
  constructor
  · rintro ⟨a, ha, b, hb, rfl⟩
    obtain ⟨s, ss, rfl⟩ := mem_qualified.mp ha
    rcases Regex.mem_optional.mp hb with rfl | hb
    · exact ⟨s, ss, false, rfl⟩
    · exact ⟨s, ss, true, by rw [Regex.mem_literal.mp hb]; rfl⟩
  · rintro ⟨s, ss, star, rfl⟩
    refine ⟨_, mem_qualified.mpr ⟨s, ss, rfl⟩, _, Regex.mem_optional.mpr ?_, rfl⟩
    cases star with
    | false => exact .inl rfl
    | true => exact .inr (Regex.mem_literal.mpr rfl)

theorem isSome_findStringSubmatch {p : Pattern} :
    (p.findStringSubmatch w).isSome ↔ ∃ ws, Regex.Splits (p.map Prod.snd) w ws := by
  rw [Pattern.findStringSubmatch, Option.isSome_map]
  constructor
  · intro h
    obtain ⟨ws, hws⟩ := Option.isSome_iff_exists.mp h
    exact ⟨ws, Regex.splits_of_captures hws⟩
  · rintro ⟨ws, hws⟩
    exact Regex.isSome_captures_of_splits hws

theorem splits_one {r : RegularExpression UInt8} :
    (∃ ws, Regex.Splits [r] w ws) ↔ w ∈ r.matches' := by
  constructor
  · rintro ⟨ws, rfl, hws⟩
    obtain ⟨x, l, hx, hl, rfl⟩ := forall₂_cons_left_iff.mp hws
    cases hl
    simpa using hx
  · intro h
    exact ⟨[w], by simp, .cons h .nil⟩

theorem splits_table {ws : List Bytes} :
    Regex.Splits (validTableNamePattern.map Prod.snd) w ws ↔
      ∃ s ss a, w = segsText (s :: ss) ++ aliasText a ∧ ws = [segsText (s :: ss), aliasText a] := by
  constructor
  · rintro ⟨rfl, hws⟩
    obtain ⟨x, l, hx, hl, rfl⟩ := forall₂_cons_left_iff.mp hws
    obtain ⟨y, l', hy, hl', rfl⟩ := forall₂_cons_left_iff.mp hl
    cases forall₂_nil_left_iff.mp hl'
    obtain ⟨s, ss, rfl⟩ := mem_qualified.mp hx
    obtain ⟨a, rfl⟩ := mem_alias.mp hy
    exact ⟨s, ss, a, by simp, rfl⟩
  · rintro ⟨s, ss, a, rfl, rfl⟩
    exact ⟨by simp, .cons (mem_qualified.mpr ⟨s, ss, rfl⟩) (.cons (mem_alias.mpr ⟨a, rfl⟩) .nil)⟩

theorem splits_clause {ws : List Bytes} :
    Regex.Splits (validClauseIdentifierPattern.map Prod.snd) w ws ↔
      ∃ s ss d o x y, SpellsDir d x ∧ SpellsNulls o y ∧ w = segsText (s :: ss) ++ (x ++ y) ∧
        ws = [segsText (s :: ss), x, y] := by
  constructor
  · rintro ⟨rfl, hws⟩
    obtain ⟨x, l, hx, hl, rfl⟩ := forall₂_cons_left_iff.mp hws
    obtain ⟨y, l', hy, hl', rfl⟩ := forall₂_cons_left_iff.mp hl
    obtain ⟨z, l'', hz, hl'', rfl⟩ := forall₂_cons_left_iff.mp hl'
    cases forall₂_nil_left_iff.mp hl''
    obtain ⟨s, ss, rfl⟩ := mem_qualified.mp hx
    obtain ⟨d, hd⟩ := mem_dir.mp hy
    obtain ⟨o, ho⟩ := mem_nulls.mp hz
    exact ⟨s, ss, d, o, y, z, hd, ho, by simp, rfl⟩
  · rintro ⟨s, ss, d, o, x, y, hd, ho, rfl, rfl⟩
    exact ⟨by simp, .cons (mem_qualified.mpr ⟨s, ss, rfl⟩)
      (.cons (mem_dir.mpr ⟨d, hd⟩) (.cons (mem_nulls.mpr ⟨o, ho⟩) .nil))⟩

/-- **The patterns accept the texts that denote something.** -/
theorem accepts_iff : (door.pattern.findStringSubmatch w).isSome ↔ ∃ m, Denotes door w m := by
  rw [isSome_findStringSubmatch]
  cases door with
  | column =>
    refine splits_one.trans (mem_qualified.trans ?_)
    constructor
    · rintro ⟨s, ss, rfl⟩
      exact ⟨_, .column s ss⟩
    · rintro ⟨_, ⟨s, ss⟩⟩
      exact ⟨_, _, rfl⟩
  | select =>
    refine splits_one.trans (mem_select.trans ?_)
    constructor
    · rintro (rfl | ⟨s, ss, star, rfl⟩)
      · exact ⟨_, .all⟩
      · exact ⟨_, .select s ss star⟩
    · rintro ⟨_, h⟩
      cases h with
      | all => exact .inl rfl
      | select s ss star => exact .inr ⟨s, ss, star, rfl⟩
  | table =>
    refine (exists_congr fun ws ↦ splits_table).trans ?_
    constructor
    · rintro ⟨_, s, ss, a, rfl, -⟩
      exact ⟨_, .table s ss a⟩
    · rintro ⟨_, h⟩
      cases h with
      | table s ss a => exact ⟨_, s, ss, a, rfl, rfl⟩
  | clause =>
    refine (exists_congr fun ws ↦ splits_clause).trans ?_
    constructor
    · rintro ⟨_, s, ss, d, o, x, y, hd, ho, rfl, -⟩
      exact ⟨_, .clause s ss hd ho⟩
    · rintro ⟨_, h⟩
      cases h with
      | clause s ss hd ho => exact ⟨_, s, ss, _, _, _, _, hd, ho, rfl, rfl⟩

/-- The match of a table. -/
theorem findStringSubmatch_table (s : Seg) (ss : List Seg) (a : Option Seg) :
    validTableNamePattern.findStringSubmatch (segsText (s :: ss) ++ aliasText a) =
      some [(.ident, segsText (s :: ss)), (.alias, aliasText a)] := by
  rw [Pattern.findStringSubmatch,
    Regex.captures_eq_some (splits_table.mpr ⟨s, ss, a, rfl, rfl⟩) ?_]
  · rfl
  · intro ws hws
    obtain ⟨t, tt, b, heq, rfl⟩ := splits_table.mp hws
    obtain ⟨hsegs, halias⟩ :=
      segsText_append_inj (atBlank_aliasText a) (atBlank_aliasText b) heq
    rw [hsegs, halias]

/-- The match of a clause. -/
theorem findStringSubmatch_clause (s : Seg) (ss : List Seg) {y : Bytes} (hd : SpellsDir d x)
    (ho : SpellsNulls o y) :
    validClauseIdentifierPattern.findStringSubmatch (segsText (s :: ss) ++ (x ++ y)) =
      some [(.ident, segsText (s :: ss)), (.dir, x), (.nulls, y)] := by
  rw [Pattern.findStringSubmatch,
    Regex.captures_eq_some (splits_clause.mpr ⟨s, ss, d, o, x, y, hd, ho, rfl, rfl⟩) ?_]
  · rfl
  · intro ws hws
    obtain ⟨t, tt, d', o', x', y', hd', ho', heq, rfl⟩ := splits_clause.mp hws
    obtain ⟨hsegs, hrest⟩ :=
      segsText_append_inj (hd.atBlank.append ho.atBlank) (hd'.atBlank.append ho'.atBlank) heq
    obtain ⟨-, -, rfl, rfl⟩ := spells_inj hd hd' ho ho' hrest
    rw [hsegs]

/-! ### Nothing to trim -/

theorem endsSolid_keyword (cs : Bytes) {c : UInt8} (hc : c ∈ upperLetters) (hs : c ≠ 0x53)
    (h : w ∈ (keyword (cs ++ [c])).matches') : EndsSolid w := by
  induction cs generalizing w with
  | nil =>
    obtain ⟨a, ha, b, hb, rfl⟩ := mem_keyword_cons.mp h
    cases Set.mem_singleton_iff.mp hb
    have hsolid : ∀ c ∈ upperLetters, isSolid c ∧ isSolid (c + 0x20) :=
      all_iff_forall_prop.mp (by decide)
    rcases mem_foldLetter.mp ha with rfl | rfl | ⟨rfl, -⟩
    · exact ⟨c, rfl, (hsolid c hc).1⟩
    · exact ⟨c + 0x20, rfl, (hsolid c hc).2⟩
    · exact absurd rfl hs
  | cons d cs ih =>
    obtain ⟨a, -, b, hb, rfl⟩ := mem_keyword_cons.mp h
    exact (ih hb).append

theorem SpellsDir.endsSolid {d : Direction} (h : SpellsDir (some d) w) : EndsSolid w := by
  obtain ⟨k, hk, rfl⟩ := h
  have hsolid : EndsSolid k := by
    cases d with
    | asc => exact endsSolid_keyword (ascii "AS") (c := 0x43) (by decide) (by decide) hk
    | desc => exact endsSolid_keyword (ascii "DES") (c := 0x43) (by decide) (by decide) hk
  exact EndsSolid.append (a := [0x20]) hsolid

theorem SpellsNulls.endsSolid {o : NullsOrder} (h : SpellsNulls (some o) w) : EndsSolid w := by
  obtain ⟨k, -, k', hk', rfl⟩ := h
  have hsolid : EndsSolid k' := by
    cases o with
    | first => exact endsSolid_keyword (ascii "FIRS") (c := 0x54) (by decide) (by decide) hk'
    | last => exact endsSolid_keyword (ascii "LAS") (c := 0x54) (by decide) (by decide) hk'
  have hsplit : 0x20 :: (k ++ 0x20 :: k') = (0x20 :: k ++ [0x20]) ++ k' := by simp
  rw [hsplit]
  exact hsolid.append

theorem trimSpace_segsText_append {s : Seg} (hw : w = [] ∨ EndsSolid w) :
    trimSpace (segsText (s :: ss) ++ w) = segsText (s :: ss) ++ w := by
  rcases hw with rfl | hw
  · rw [append_nil, trimSpace_segsText]
  · refine trimSpace_eq_self ?_ hw.append
    obtain ⟨b, l, hb⟩ := exists_cons_of_ne_nil (segsText_ne_nil s ss)
    refine ⟨b, by simp [hb], ?_⟩
    exact (@mem_segsText (s :: ss) b (hb ▸ mem_cons_self)).2.2

theorem aliasText_ends (a : Option Seg) : aliasText a = [] ∨ EndsSolid (aliasText a) := by
  cases a with
  | none => exact .inl rfl
  | some a =>
    refine .inr (EndsSolid.append (a := [0x20]) ?_)
    exact endsSolid_of_solid a.text_ne_nil fun b hb ↦ (Seg.text_ne b hb).2.2.2

theorem spells_ends {y : Bytes} (hd : SpellsDir d x) (ho : SpellsNulls o y) :
    x ++ y = [] ∨ EndsSolid (x ++ y) := by
  cases o with
  | some o => exact .inr ho.endsSolid.append
  | none =>
    cases ho
    rw [append_nil]
    cases d with
    | none => exact .inl hd
    | some d => exact .inr hd.endsSolid

/-! ### What is rendered -/

variable {upper : ℕ → ℕ}

/-- The names after the rendering. -/
theorem names_forOracle (upper : ℕ → ℕ) (ss : List Seg) :
    (ss.map (Seg.forOracle upper)).map Seg.name = ss.map Seg.name := by
  rw [List.map_map]
  rfl

/-- Only one vendor is rendered. -/
theorem render_postgreSQL (door : Door) (t : Bytes) : door.render upper .postgreSQL t = t := by
  cases door with
  | select => simp [Door.render, quoteColumnForSelect, quoteColumn]
  | column | table | clause => rfl

/-- A table is rendered by its segments. -/
theorem quoteTable_oracle (s : Seg) (ss : List Seg) (a : Option Seg) :
    quoteTable upper .oracle (segsText (s :: ss) ++ aliasText a) =
      segsText ((s :: ss).map (Seg.forOracle upper)) ++ aliasText a := by
  rw [quoteTable, trimSpace_segsText_append (aliasText_ends a), findStringSubmatch_table]
  exact congrArg (· ++ aliasText a) (quoteOracleIdentifier_segsText s ss)

/-- So is a clause, with its keywords in upper case. -/
theorem quoteIdentifierForClause_oracle (s : Seg) (ss : List Seg) {y : Bytes} (hd : SpellsDir d x)
    (ho : SpellsNulls o y) :
    quoteIdentifierForClause upper .oracle (segsText (s :: ss) ++ (x ++ y)) =
      segsText ((s :: ss).map (Seg.forOracle upper)) ++ (dirText d ++ nullsText o) := by
  have hne : segsText (s :: ss) ++ (x ++ y) ≠ [] :=
    append_ne_nil_of_left_ne_nil (segsText_ne_nil s ss) _
  rw [quoteIdentifierForClause, trimSpace_segsText_append (spells_ends hd ho), if_neg hne,
    findStringSubmatch_clause s ss hd ho, ← quoteOracleIdentifier_segsText,
    ← hd.toUpper_eq upper, ← ho.toUpper_eq upper]
  exact append_assoc _ _ _

/-- A wildcard is left as it is. -/
theorem quoteColumnForSelect_star (vendor : Vendor) (s : Seg) (ss : List Seg) :
    quoteColumnForSelect upper vendor (segsText (s :: ss) ++ starText true) =
      segsText (s :: ss) ++ starText true := by
  have hsuffix : List.isSuffixOf [0x2E, 0x2A] (segsText (s :: ss) ++ starText true) :=
    List.isSuffixOf_iff_suffix.mpr (List.suffix_append _ _)
  rw [quoteColumnForSelect, hsuffix, Bool.or_true, if_pos rfl]

/-- So is a column. -/
theorem quoteColumnForSelect_segsText (s : Seg) (ss : List Seg) :
    quoteColumnForSelect upper .oracle (segsText (s :: ss)) =
      segsText ((s :: ss).map (Seg.forOracle upper)) := by
  have hstar : 0x2A ∉ segsText (s :: ss) := fun h ↦ (mem_segsText h).2.1 rfl
  have hne : segsText (s :: ss) ≠ [0x2A] := fun h ↦ hstar (h ▸ mem_singleton_self _)
  have hsuffix : List.isSuffixOf [0x2E, 0x2A] (segsText (s :: ss)) = false := by
    refine Bool.eq_false_iff.mpr fun h ↦ hstar ?_
    exact (isSuffixOf_iff_suffix.mp h).subset (by simp)
  rw [quoteColumnForSelect, hsuffix, decide_eq_false hne, ← quoteOracleIdentifier_segsText]
  rfl

/-- Rendering keeps what a text denotes. -/
theorem render_denotes {vendor : Vendor} {t : Bytes} {m : Meaning} (h : Denotes door t m) :
    Denotes door (door.render upper vendor t) m := by
  cases vendor with
  | postgreSQL => rwa [render_postgreSQL]
  | oracle =>
    cases h with
    | column s ss =>
      have := Denotes.column (s.forOracle upper) (ss.map (Seg.forOracle upper))
      rw [← map_cons, names_forOracle, ← quoteOracleIdentifier_segsText] at this
      exact this
    | all => exact .all
    | select s ss star =>
      cases star with
      | true =>
        rw [Door.render, quoteColumnForSelect_star]
        exact .select s ss true
      | false =>
        rw [Door.render, starText, append_nil, quoteColumnForSelect_segsText,
          ← names_forOracle upper, ← append_nil (segsText _)]
        exact .select _ _ false
    | table s ss a =>
      rw [Door.render, quoteTable_oracle, ← names_forOracle upper]
      exact .table _ _ a
    | clause s ss hd ho =>
      rw [Door.render, quoteIdentifierForClause_oracle s ss hd ho, ← names_forOracle upper]
      exact .clause _ _ (spellsDir_dirText _) (spellsNulls_nullsText _)

/-! ### Quotes and letter case -/

/-- The text of names with dots between them. -/
def namesText : List Bytes → Bytes
  | [] => []
  | n :: ns => n ++ ns.flatMap (0x2E :: ·)

/-- The text of a meaning, without quotes and with the keywords in upper case. -/
def Meaning.text (m : Meaning) : Bytes :=
  namesText (m.names ++ if m.wildcard then [[0x2A]] else []) ++
    ((m.tableAlias.map (0x20 :: ·)).getD [] ++ (dirText m.dir ++ nullsText m.nulls))

/-- The text without its quotes. -/
def unquoted (w : Bytes) : Bytes :=
  w.filter (· ≠ 0x22)

theorem unquoted_append (a b : Bytes) : unquoted (a ++ b) = unquoted a ++ unquoted b :=
  filter_append _ _

theorem unquoted_eq_self (h : ∀ b ∈ w, b ≠ 0x22) : unquoted w = w :=
  filter_eq_self.mpr fun b hb ↦ by simpa using h b hb

theorem unquoted_segsText (s : Seg) (ss : List Seg) :
    unquoted (segsText (s :: ss)) = namesText ((s :: ss).map Seg.name) := by
  have hdotted : unquoted (dotted ss) = (ss.map Seg.name).flatMap (0x2E :: ·) := by
    induction ss with
    | nil => rfl
    | cons s ss ih =>
      rw [dotted_cons, ← cons_append, unquoted_append, ih, map_cons, flatMap_cons,
        s.name_eq_filter]
      rfl
  rw [segsText_cons, unquoted_append, hdotted, map_cons, namesText, s.name_eq_filter]
  rfl

theorem unquoted_aliasText (a : Option Seg) :
    unquoted (aliasText a) = ((a.map Seg.name).map (0x20 :: ·)).getD [] := by
  cases a with
  | none => rfl
  | some a =>
    rw [Option.map_some, Option.map_some, Option.getD_some, a.name_eq_filter]
    rfl

theorem SpellsDir.ne_quote (h : SpellsDir d w) : ∀ b ∈ w, b ≠ 0x22 := by
  cases d with
  | none =>
    cases h
    nofun
  | some d =>
    obtain ⟨k, hk, rfl⟩ := h
    exact forall_mem_cons.mpr
      ⟨by decide, fun b hb ↦ (ne_of_mem_keyword (direction_upper d) hk b hb).2⟩

theorem SpellsNulls.ne_quote (h : SpellsNulls o w) : ∀ b ∈ w, b ≠ 0x22 := by
  cases o with
  | none =>
    cases h
    nofun
  | some o =>
    obtain ⟨k, hk, k', hk', rfl⟩ := h
    refine forall_mem_cons.mpr ⟨by decide, forall_mem_append.mpr ⟨?_, ?_⟩⟩
    · exact fun b hb ↦ (ne_of_mem_keyword nullsWord_upper hk b hb).2
    · exact forall_mem_cons.mpr
        ⟨by decide, fun b hb ↦ (ne_of_mem_keyword (nulls_upper o) hk' b hb).2⟩

theorem namesText_ascii (ss : List Seg) : ∀ b ∈ namesText (ss.map Seg.name), b < 0x80 := by
  have hsolid : ∀ b ∈ identPart, b < 0x80 := all_iff_forall_prop.mp (by decide)
  have hname : ∀ s : Seg, ∀ b ∈ s.name, b < 0x80 := fun s b hb ↦ hsolid b (s.valid.mem b hb)
  cases ss with
  | nil => nofun
  | cons s ss =>
    refine forall_mem_append.mpr ⟨hname s, fun b hb ↦ ?_⟩
    obtain ⟨n, hn, hb⟩ := mem_flatMap.mp hb
    obtain ⟨s', -, rfl⟩ := mem_map.mp hn
    rcases mem_cons.mp hb with rfl | hb
    · decide
    · exact hname s' b hb

/-- **A text is what it denotes up to quotes and letter case.** -/
theorem Denotes.toUpper_unquoted {m : Meaning} (h : Denotes door w m) :
    toUpper upper (unquoted w) = toUpper upper m.text := by
  cases h with
  | column s ss => simp [unquoted_segsText, Meaning.text, dirText, nullsText]
  | all => rfl
  | select s ss star =>
    cases star with
    | false => simp [unquoted_segsText, Meaning.text, dirText, nullsText, starText]
    | true =>
      have hstar : unquoted [0x2E, 0x2A] = [0x2E, 0x2A] := rfl
      simp [unquoted_segsText, unquoted_append, hstar, Meaning.text, dirText, nullsText, starText,
        namesText]
  | table s ss a =>
    simp [unquoted_segsText, unquoted_append, unquoted_aliasText, Meaning.text, dirText, nullsText]
  | @clause s ss d o x y hd ho =>
    have hrest := unquoted_eq_self (forall_mem_append.mpr ⟨hd.ne_quote, ho.ne_quote⟩)
    have htext : Meaning.text ⟨(s :: ss).map Seg.name, false, none, d, o⟩ =
        namesText ((s :: ss).map Seg.name) ++ (dirText d ++ nullsText o) := by
      simp [Meaning.text]
    rw [htext, unquoted_append, unquoted_segsText, hrest, toUpper_append (namesText_ascii _),
      toUpper_append (namesText_ascii _), hd.toUpper_append, ho.toUpper_eq,
      (spellsDir_dirText d).toUpper_append, (spellsNulls_nullsText o).toUpper_eq]

/-- What a door accepts denotes something. -/
theorem denotes_of_normalizeAgainst {vendor : Vendor} {identifier t : Bytes}
    (h : normalizeAgainst vendor door identifier = .ok t) : ∃ m, Denotes door t m := by
  rw [normalizeAgainst] at h
  split at h
  · cases h
  · next m hm =>
    have ht : t = trimSpace identifier := by
      cases hv : validateVendorSegments vendor door.pattern (trimSpace identifier) m with
      | error e =>
        rw [hv] at h
        cases h
      | ok =>
        rw [hv] at h
        cases h
        rfl
    rw [ht]
    exact accepts_iff.mp (Option.isSome_iff_exists.mpr ⟨m, hm⟩)

/-- **What is rendered for an identifier is as safe as what was accepted, and means the same.** The
text that a door accepted and the text rendered for it both denote one and the same thing, and
nothing else; the latter is of the door's pattern too, and the two differ by quotes and the letter
case of keywords only. -/
theorem rendering_preserves {vendor : Vendor} {door : Door} {identifier t : Bytes}
    (h : normalizeAgainst vendor door identifier = .ok t) :
    (door.pattern.findStringSubmatch (door.render upper vendor t)).isSome ∧
      (∃ m, (∀ m', Denotes door t m' ↔ m' = m) ∧
        ∀ m', Denotes door (door.render upper vendor t) m' ↔ m' = m) ∧
      toUpper upper (unquoted (door.render upper vendor t)) = toUpper upper (unquoted t) := by
  obtain ⟨m, hm⟩ := denotes_of_normalizeAgainst h
  have hr : Denotes door (door.render upper vendor t) m := render_denotes hm
  refine ⟨accepts_iff.mpr ⟨m, hr⟩, ⟨m, fun m' ↦ ?_, fun m' ↦ ?_⟩, ?_⟩
  · exact ⟨fun h ↦ h.unique hm rfl, fun h ↦ h ▸ hm⟩
  · exact ⟨fun h ↦ h.unique hr rfl, fun h ↦ h ▸ hr⟩
  · rw [hr.toUpper_unquoted, hm.toUpper_unquoted]

/-- A table whose name is a reserved word of Oracle is quoted; its alias is left alone. -/
theorem rendering_preserves_level :
    normalizeAgainst .oracle .table (ascii " level u ") = .ok (ascii "level u") ∧
      Door.render id .oracle .table (ascii "level u") = ascii "\"level\" u" ∧
      (∃ m, (∀ m', Denotes .table (ascii "level u") m' ↔ m' = m) ∧
        ∀ m', Denotes .table (Door.render id .oracle .table (ascii "level u")) m' ↔ m' = m) := by
  have h : normalizeAgainst .oracle .table (ascii " level u ") = .ok (ascii "level u") := by
    decide +kernel
  have hlevel : IsIdent (ascii "level") := 
    ⟨by decide, all_iff_forall_prop.mp (by decide)⟩
  have hu : IsIdent (ascii "u") := ⟨by decide, nofun⟩
  refine ⟨h, ?_, rendering_preserves h |>.2.1⟩
  have htext : ascii "level u" =
      segsText [⟨ascii "level", false, hlevel⟩] ++ aliasText (some ⟨ascii "u", false, hu⟩) := rfl
  have hreserved : isOracleReservedWord id (ascii "level") := by decide
  rw [htext, Door.render, quoteTable_oracle, map_singleton, Seg.forOracle, hreserved]
  rfl

end Sql
