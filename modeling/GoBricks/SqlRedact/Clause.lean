import GoBricks.SqlRedact.Window

/-!
# What a redacted statement shows

A credential **clause** (`Clause`) has a part that is shown, up to its keyword, and a secret after
it. `statement_secret` says that what `statement` makes of a text does not depend on the secret.

Two things stand in the way. An earlier keyword may have the clause in a comment of its own gap;
then which of the two the text is cut at is decided by what comes after that comment
(`Clause.Settled` rules it out). And the window of a gap may end between the two bytes that open a
comment (`Straddled`); then `PASSWORD` is not taken for a credential at all.
-/

open Text List Option

namespace SqlRedact

/-! ### Words -/

theorem isLetter_of_lowerASCII {c : UInt8} (h : isLetter (lowerASCII c)) : isLetter c := by
  rw [lowerASCII] at h
  split at h
  · next hup =>
    rw [isLetter, hup, Bool.or_true]
  · exact h

/-- A text that spells a keyword in some letter case. -/
def Spelled (keyword word : Bytes) : Prop :=
  word.map lowerASCII = keyword

variable {keyword word : Bytes}

theorem Spelled.length_eq (h : Spelled keyword word) : word.length = keyword.length := by
  rw [← h, length_map]

theorem Spelled.isLetter (h : Spelled keyword word) (hkeyword : ∀ c ∈ keyword, isLetter c) :
    ∀ c ∈ word, isLetter c := by
  intro c hc
  refine isLetter_of_lowerASCII (hkeyword _ ?_)
  rw [← h]
  exact mem_map_of_mem hc

theorem Keyword.isLetter_text (keyword : Keyword) : ∀ c ∈ keyword.text, isLetter c := by
  cases keyword with
  | password | identified => exact all_iff_forall_prop.mp (by decide)

theorem isLetter_kwBy : ∀ c ∈ kwBy, isLetter c :=
  all_iff_forall_prop.mp (by decide)

variable {text : Bytes}

/-- A keyword is found where it stands as a word. -/
theorem wordAt_eq_true {before : Option UInt8} :
    wordAt before text keyword = true ↔ ¬before.any isWordByte ∧
      ∃ word rest, text = word ++ rest ∧ Spelled keyword word ∧ ¬rest.head?.any isWordByte := by
  rw [wordAt]
  constructor
  · intro h
    split at h
    · cases h
    · split at h
      · cases h
      · next hbefore =>
        split at h
        · cases h
        · next hafter =>
          exact ⟨hbefore, _, _, (take_append_drop keyword.length text).symm,
            eq_of_beq h, hafter⟩
  · rintro ⟨hbefore, word, rest, rfl, hword, hafter⟩
    have hlen := hword.length_eq
    rw [if_neg (by rw [length_append]; omega), if_neg hbefore, ← hlen, drop_left,
      if_neg hafter, take_left]
    exact beq_iff_eq.mpr hword

/-- A keyword does not go over the end of a text whose last byte is in no word. -/
theorem wordAt_append {before : Option UInt8} (more : Bytes)
    (hkeyword : ∀ c ∈ keyword, isLetter c) (hne : text ≠ [])
    (hlast : ¬text.getLast?.any isWordByte) :
    wordAt before (text ++ more) keyword = wordAt before text keyword := by
  rw [Bool.eq_iff_iff, wordAt_eq_true, wordAt_eq_true]
  refine and_congr_right fun _ ↦ ⟨?_, ?_⟩
  · rintro ⟨word, rest, heq, hword, hafter⟩
    rcases List.append_eq_append_iff.mp heq with ⟨x, hx, hmore⟩ | ⟨x, hx, hrest⟩
    · -- The last byte of the text would be one of the word.
      exfalso
      obtain ⟨c, hc⟩ := Option.ne_none_iff_exists'.mp (mt List.getLast?_eq_none_iff.mp hne)
      refine hlast ?_
      rw [hc, Option.any_some]
      refine isWordByte_of_isLetter (hword.isLetter hkeyword c ?_)
      rw [hx]
      exact List.mem_append_left _ (List.mem_of_getLast? hc)
    · refine ⟨word, x, hx, hword, ?_⟩
      cases x with
      | nil => simp
      | cons c x =>
        rw [hrest] at hafter
        exact hafter
  · rintro ⟨word, rest, rfl, hword, hafter⟩
    cases rest with
    | nil =>
      exfalso
      obtain ⟨c, hc⟩ := Option.ne_none_iff_exists'.mp (mt List.getLast?_eq_none_iff.mp hne)
      rw [List.append_nil] at hc hlast
      refine hlast ?_
      rw [hc, Option.any_some]
      exact isWordByte_of_isLetter (hword.isLetter hkeyword c (List.mem_of_getLast? hc))
    | cons c rest => exact ⟨word, c :: rest ++ more, by simp, hword, hafter⟩

/-! ### Clauses -/

/-- What is shown of the text after a keyword: after `IDENTIFIED` a gap and `BY`. -/
def Keyword.Keeps : Keyword → Bytes → Prop
  | .password, kept => kept = []
  | .identified, kept => ∃ g by', Gap g ∧ g ≠ [] ∧ Spelled kwBy by' ∧ kept = g ++ by'

/-- A credential clause: what is shown of it and of the text before it. -/
structure Clause where
  /-- The text before the keyword. -/
  head : Bytes
  keyword : Keyword
  /-- The keyword as the text spells it. -/
  word : Bytes
  /-- What is shown of the text after it. -/
  kept : Bytes
  spelled : Spelled keyword.text word
  before : ¬head.getLast?.any isWordByte
  keeps : keyword.Keeps kept

namespace Clause

variable (c : Clause)

/-- What is shown of a clause. -/
def shown : Bytes :=
  c.head ++ c.word ++ c.kept

/-- A text that may come after the clause: after `PASSWORD` a gap and a value, after `BY` any text
that does not go on with the word. -/
structure Secret (secret : Bytes) : Prop where
  after : ¬secret.head?.any isWordByte
  value : c.keyword = .password → ∃ g v, Gap g ∧ startsValue v ∧ secret = g ++ v

/-- How many bytes at least come after the clause. -/
def least : ℕ :=
  match c.keyword with
  | .password => 1
  | .identified => 0

/-- The clause is not in a comment of the gap of an earlier keyword, such that the window of that
gap goes on after the clause. -/
def Settled : Prop :=
  ∀ (keyword : Keyword) (head word text : Bytes), c.shown = head ++ word ++ text →
    head.length < c.head.length → ¬head.getLast?.any isWordByte → Spelled keyword.text word →
    ¬text.head?.any isWordByte → ¬Undecided c.least text

end Clause

variable {c : Clause} {secret : Bytes}

theorem Clause.endsInWord (c : Clause) (text : Bytes) :
    EndsInWord (text ++ (c.word ++ c.kept)) := by
  -- Two letters at the end of a word.
  have hword : ∀ {keyword word : Bytes} (init : Bytes), Spelled keyword word →
      (∀ b ∈ keyword, isLetter b) → 2 ≤ keyword.length → EndsInWord (init ++ word) := by
    intro keyword word init hspelled hletters hlen
    rw [← hspelled.length_eq] at hlen
    have hisLetter := hspelled.isLetter hletters
    rcases eq_nil_or_concat' word with rfl | ⟨w, b, rfl⟩
    · simp at hlen
    rcases eq_nil_or_concat' w with rfl | ⟨w, a, rfl⟩
    · simp at hlen
    exact ⟨init ++ w, a, b, hisLetter a (by simp), hisLetter b (by simp), by simp⟩
  obtain ⟨head, keyword, word, kept, spelled, before, keeps⟩ := c
  cases keyword with
  | password =>
    obtain rfl : kept = [] := keeps
    rw [append_nil]
    exact hword text spelled (Keyword.isLetter_text _) (by decide)
  | identified =>
    obtain ⟨g, by', -, -, hby, rfl⟩ := keeps
    rw [← append_assoc, ← append_assoc]
    exact hword _ hby isLetter_kwBy (by decide)

/-! ### Earlier keywords -/

/-- A secret goes on from its keyword. -/
theorem Clause.Secret.continuation (h : c.Secret secret) : Continuation c.least secret := by
  cases hkeyword : c.keyword with
  | identified =>
    have hleast : c.least = 0 := by rw [Clause.least, hkeyword]
    rw [hleast]
    refine ⟨Nat.zero_le _, Nat.zero_le _, h.after, ?_⟩
    cases secret with
    | nil | cons b secret => rfl
  | password =>
    have hleast : c.least = 1 := by rw [Clause.least, hkeyword]
    rw [hleast]
    obtain ⟨g, v, hg, hv, heq⟩ := h.value hkeyword
    -- The first byte is one of a gap or of a value: no star.
    obtain ⟨b, rest, hb, hstar⟩ : ∃ b rest, secret = b :: rest ∧ b ≠ 0x2A := by
      cases hg with
      | nil =>
        cases v with
        | nil => cases hv
        | cons b v =>
          refine ⟨b, v, heq, ?_⟩
          rintro rfl
          cases hv
      | @space b g hb hg =>
        refine ⟨b, g ++ v, heq, ?_⟩
        rintro rfl
        cases hb
      | line | block => exact ⟨_, _, heq, by decide⟩
    subst hb
    refine ⟨le_rfl, Nat.le_add_left _ _, h.after, ?_⟩
    cases rest with
    | nil => rfl
    | cons d rest =>
      simp only [List.take_succ_cons, List.take_zero, closeBlock, beq_iff_eq, hstar,
        Bool.and_eq_true, false_and, if_false, ite_self]

theorem startsValue_append (h : EndsInWord text) (more : Bytes) :
    startsValue (text ++ more) = startsValue text := by
  obtain ⟨init, a, b, ha, hb, rfl⟩ := h
  match init with
  | [] =>
    have hamp : (b == 0x26) = false := beq_false_of_ne (ne_of_isLetter hb rfl)
    simp [startsValue, hamp]
  | [_] | [_, _] | _ :: _ :: _ :: init => simp [startsValue]

theorem wordAt_kwBy_append {before : Option UInt8} {more : Bytes} (hlen : 2 ≤ text.length)
    (hmore : ¬more.head?.any isWordByte) :
    wordAt before (text ++ more) kwBy = wordAt before text kwBy := by
  match text, hlen with
  | [a, b], _ =>
    have hdrop : (([a, b] ++ more).drop kwBy.length).head?.any isWordByte = false :=
      Bool.eq_false_of_not_eq_true hmore
    rw [wordAt, wordAt, hdrop]
    rfl
  | a :: b :: d :: text, _ => rfl

/-- How a keyword is followed is decided when its gap is. -/
theorem tail_append {keyword : Keyword} (hword : EndsInWord text)
    (hopen : ¬Undecided c.least text) {s s' : Bytes} (hs : c.Secret s) (hs' : c.Secret s') :
    keyword.tail word (text ++ s) = keyword.tail word (text ++ s') := by
  obtain ⟨v, hv, hverdict⟩ := exists_verdict hword hopen
  have h := hverdict s hs.continuation
  have h' := hverdict s' hs'.continuation
  cases v with
  | none =>
    have h : (skipGap (text ++ s)).2 = true := h
    have h' : (skipGap (text ++ s')).2 = true := h'
    cases keyword with
    | password => simp only [Keyword.tail, passwordTail, h, h', Bool.true_or]
    | identified => simp only [Keyword.tail, identifiedTail, h, h', if_true]
  | some n =>
    have h : skipGap (text ++ s) = (n, false) := h
    have h' : skipGap (text ++ s') = (n, false) := h'
    have hle : n + 2 ≤ text.length := hv n rfl
    have hdrop : ∀ r : Bytes, (text ++ r).drop n = text.drop n ++ r := fun r ↦
      drop_append_of_le_length (by omega)
    have htake : ∀ (r : Bytes) (k : ℕ), k ≤ text.length → (text ++ r).take k = text.take k :=
      fun r k hk ↦ take_append_of_le_length hk
    have hends : EndsInWord (text.drop n) := by
      obtain ⟨init, a, b, ha, hb, rfl⟩ := hword
      refine ⟨init.drop n, a, b, ha, hb, drop_append_of_le_length ?_⟩
      simpa using hle
    have hlen : 2 ≤ (text.drop n).length := by
      rw [length_drop]
      omega
    cases keyword with
    | password =>
      simp only [Keyword.tail, passwordTail, h, h', hdrop, startsValue_append hends]
    | identified =>
      simp only [Keyword.tail, identifiedTail, h, h', hdrop, wordAt_kwBy_append hlen hs.after,
        wordAt_kwBy_append hlen hs'.after, htake _ n (by omega), htake _ (n + kwBy.length) hle]

theorem clauseAt_word {keyword : Keyword} (h : Spelled keyword.text word) (text : Bytes) :
    keyword.clauseAt (word ++ text) = (keyword.tail word text).map (word ++ ·) := by
  rw [Keyword.clauseAt, ← h.length_eq, take_left, drop_left]

/-- Before the clause, a turn of the loop does not depend on the secret. -/
theorem redactAt_append (hc : c.Settled) {a b : Bytes} (hhead : c.head = a ++ b) (hb : b ≠ [])
    {s s' : Bytes} (hs : c.Secret s) (hs' : c.Secret s') :
    redactAt a.getLast? (b ++ (c.word ++ c.kept) ++ s) =
      redactAt a.getLast? (b ++ (c.word ++ c.kept) ++ s') := by
  have hlast : ¬b.getLast?.any isWordByte := by
    have := c.before
    rwa [hhead, List.getLast?_append_of_ne_nil a hb] at this
  have hword : ∀ (keyword : Keyword) (r : Bytes),
      wordAt a.getLast? (b ++ (c.word ++ c.kept) ++ r) keyword.text =
        wordAt a.getLast? b keyword.text := fun keyword r ↦ by
    rw [append_assoc]
    exact wordAt_append _ keyword.isLetter_text hb hlast
  have hclause : ∀ keyword : Keyword, wordAt a.getLast? b keyword.text →
      keyword.clauseAt (b ++ (c.word ++ c.kept) ++ s) =
        keyword.clauseAt (b ++ (c.word ++ c.kept) ++ s') := by
    intro keyword hat
    obtain ⟨hbefore, word, rest, rfl, hspelled, hafter⟩ := wordAt_eq_true.mp hat
    have hassoc : ∀ r : Bytes, word ++ rest ++ (c.word ++ c.kept) ++ r =
        word ++ (rest ++ (c.word ++ c.kept) ++ r) := fun r ↦ by simp only [append_assoc]
    rw [hassoc, hassoc, clauseAt_word hspelled, clauseAt_word hspelled]
    -- The word does not reach the end of the head, since that is no byte of a word.
    have hrest : rest ≠ [] := by
      rintro rfl
      rw [append_nil] at hlast hb
      obtain ⟨d, hd⟩ := ne_none_iff_exists'.mp (mt List.getLast?_eq_none_iff.mp hb)
      rw [hd, any_some] at hlast
      exact hlast (isWordByte_of_isLetter
        (hspelled.isLetter keyword.isLetter_text d (mem_of_getLast? hd)))
    have hopen : ¬Undecided c.least (rest ++ (c.word ++ c.kept)) := by
      refine hc keyword a word _ ?_ ?_ hbefore hspelled ?_
      · rw [Clause.shown, hhead]
        simp only [append_assoc]
      · have := length_pos_of_ne_nil hrest
        rw [hhead]
        simp only [length_append]
        omega
      · rwa [List.head?_append_of_ne_nil _ hrest]
    rw [tail_append (c.endsInWord rest) hopen hs hs']
  simp only [redactAt, hword]
  split
  · next h => exact hclause .password h
  · split
    · next h => exact hclause .identified h
    · rfl

/-! ### The clause itself -/

theorem Gap.not_isWordByte_head {g : Bytes} (hg : Gap g) : ¬g.head?.any isWordByte := by
  cases hg with
  | nil => simp
  | @space d g hd hg =>
    intro hword
    exact not_isWordByte_of_isSpace hd hword
  | line => exact (by decide : ¬isWordByte 0x2D)
  | block => exact (by decide : ¬isWordByte 0x2F)

/-- What stands for the text after the keyword of a clause. -/
def Clause.cut (c : Clause) : Bytes :=
  match c.keyword with
  | .password => pgPasswordTail
  | .identified =>
    if c.kept.length < maxGapBytes + kwBy.length then c.kept ++ redactedTail else redactedTail

/-- A value starts with its quote. -/
theorem exists_of_startsValue {v : Bytes} (h : startsValue v) :
    ∃ d rest, v = d :: rest ∧ ¬isSpace d ∧ d ≠ 0x2D ∧ d ≠ 0x2F := by
  cases v with
  | nil => cases h
  | cons d rest =>
    refine ⟨d, rest, rfl, fun hspace ↦ ?_, ?_, ?_⟩
    · simp only [isSpace, Bool.or_eq_true, beq_iff_eq] at hspace
      rcases hspace with ((((rfl | rfl) | rfl) | rfl) | rfl) | rfl <;> cases h
    · rintro rfl
      cases h
    · rintro rfl
      cases h

/-- A password after its keyword is replaced. -/
theorem passwordTail_secret {g v : Bytes} (hg : Gap g) (hv : startsValue v)
    (hnot : ¬Straddled (g ++ v)) : passwordTail (g ++ v) = some pgPasswordTail := by
  obtain ⟨d, rest, rfl, hspace, hdash, hslash⟩ := exists_of_startsValue hv
  rcases Nat.lt_or_ge g.length maxGapBytes with hfit | hlong
  · simp only [passwordTail, skipGap_short hg hspace hdash hslash hfit, List.drop_left, hv,
      Bool.or_true, if_true]
  · simp only [passwordTail, skipGap_long hg (List.cons_ne_nil d rest) hlong hnot, Bool.true_or,
      if_true]

/-- So is a credential after `IDENTIFIED`. -/
theorem identifiedTail_secret {g by' s : Bytes} (hg : Gap g) (hne : g ≠ [])
    (hby : Spelled kwBy by') (hs : ¬s.head?.any isWordByte) (hnot : ¬Straddled (g ++ by' ++ s)) :
    identifiedTail word (g ++ by' ++ s) =
      some (if g.length < maxGapBytes then g ++ by' ++ redactedTail else redactedTail) := by
  have hlen : by'.length = 2 := hby.length_eq
  have hletters := hby.isLetter isLetter_kwBy
  obtain ⟨x, rest, rfl⟩ := exists_cons_of_length_pos (by omega : 0 < by'.length)
  have hx := hletters x mem_cons_self
  rw [append_assoc] at hnot ⊢
  have hlast : (word ++ g).getLast? = g.getLast? := List.getLast?_append_of_ne_nil word hne
  have hat : wordAt g.getLast? (x :: rest ++ s) kwBy = true := by
    refine wordAt_eq_true.mpr ⟨fun hword ↦ ?_, x :: rest, s, rfl, hby, hs⟩
    obtain ⟨d, hd⟩ := ne_none_iff_exists'.mp (mt List.getLast?_eq_none_iff.mp hne)
    rw [hd, any_some] at hword
    exact hg.not_isWordByte_getLast d hd hword
  by_cases hfit : g.length < maxGapBytes
  · have hspace : ¬isSpace x := fun h ↦ not_isWordByte_of_isSpace h (isWordByte_of_isLetter hx)
    have hgap : skipGap (g ++ (x :: rest ++ s)) = (g.length, false) :=
      skipGap_short hg hspace (ne_of_isLetter hx rfl) (ne_of_isLetter hx rfl) hfit
    have htake : (g ++ (x :: rest ++ s)).take (g.length + kwBy.length) = g ++ x :: rest := by
      rw [← append_assoc]
      exact take_left' (by rw [length_append, hlen]; rfl)
    simp only [identifiedTail, hgap, take_left, drop_left, hlast, hat, htake, hfit,
      if_true, Bool.false_eq_true, if_false, append_assoc]
  · have hgap : (skipGap (g ++ (x :: rest ++ s))).2 = true :=
      skipGap_long hg (cons_ne_nil x _) (Nat.le_of_not_lt hfit) hnot
    simp only [identifiedTail, hgap, if_true, if_neg hfit]

/-- So is the secret of each clause. -/
theorem Clause.tail_secret (c : Clause) (hs : c.Secret secret)
    (hnot : ¬Straddled (c.kept ++ secret)) :
    c.keyword.tail c.word (c.kept ++ secret) = some c.cut := by
  obtain ⟨head, keyword, word, kept, spelled, before, keeps⟩ := c
  cases keyword with
  | password =>
    obtain rfl : kept = [] := keeps
    obtain ⟨g, v, hg, hv, rfl⟩ := hs.value rfl
    have htail : passwordTail (g ++ v) = some pgPasswordTail := passwordTail_secret hg hv hnot
    exact htail
  | identified =>
    obtain ⟨g, by', hg, hne, hby, rfl⟩ := keeps
    have hlen : (g ++ by').length < maxGapBytes + kwBy.length ↔ g.length < maxGapBytes := by
      rw [length_append, hby.length_eq]
      omega
    refine (identifiedTail_secret hg hne hby hs.after hnot).trans ?_
    simp only [Clause.cut, hlen]

/-- At its keyword the text is cut. -/
theorem Clause.redactAt_secret (c : Clause) (hs : c.Secret secret)
    (hnot : ¬Straddled (c.kept ++ secret)) :
    redactAt c.head.getLast? (c.word ++ c.kept ++ secret) = some (c.word ++ c.cut) := by
  have hafter : ¬(c.kept ++ secret).head?.any isWordByte := by
    obtain ⟨head, keyword, word, kept, spelled, before, keeps⟩ := c
    cases keyword with
    | password =>
      obtain rfl : kept = [] := keeps
      exact hs.after
    | identified =>
      obtain ⟨g, by', hg, hne, -, rfl⟩ := keeps
      rw [append_assoc, List.head?_append_of_ne_nil _ hne]
      exact hg.not_isWordByte_head
  rw [append_assoc]
  have hat : wordAt c.head.getLast? (c.word ++ (c.kept ++ secret)) c.keyword.text = true :=
    wordAt_eq_true.mpr ⟨c.before, _, _, rfl, c.spelled, hafter⟩
  have hclause : c.keyword.clauseAt (c.word ++ (c.kept ++ secret)) = some (c.word ++ c.cut) := by
    rw [clauseAt_word c.spelled, c.tail_secret hs hnot, map_some]
  cases hkeyword : c.keyword with
  | password =>
    rw [hkeyword] at hat hclause
    rw [redactAt, if_pos hat, hclause]
  | identified =>
    rw [hkeyword] at hat hclause
    have hother : ¬wordAt c.head.getLast? (c.word ++ (c.kept ++ secret)) Keyword.password.text := by
      intro h
      -- The first letters differ.
      obtain ⟨-, word, rest, heq, hword, -⟩ := wordAt_eq_true.mp h
      have hspelled : Spelled Keyword.identified.text c.word := hkeyword ▸ c.spelled
      match hw : c.word, hspelled with
      | x :: w, hx =>
        match word, hword with
        | y :: w', hy =>
          rw [hw] at heq
          obtain ⟨rfl, -⟩ := List.cons.inj heq
          have hi := (List.cons.inj hx).1
          have hp := (List.cons.inj hy).1
          exact absurd (hi.symm.trans hp) (by decide)
    rw [redactAt, if_neg hother, if_pos hat, hclause]

/-! ### Statements -/

/-- **A redacted statement does not depend on the secret of a clause.** -/
theorem statement_secret (hc : c.Settled) {s s' : Bytes} (hs : c.Secret s) (hs' : c.Secret s')
    (hnot : ¬Straddled (c.kept ++ s)) (hnot' : ¬Straddled (c.kept ++ s')) :
    statement (c.shown ++ s) = statement (c.shown ++ s') := by
  -- From any position of the head on.
  have hfrom : ∀ b a : Bytes, c.head = a ++ b →
      statementFrom a.getLast? (b ++ (c.word ++ c.kept) ++ s) =
        statementFrom a.getLast? (b ++ (c.word ++ c.kept) ++ s') := by
    intro b
    induction b with
    | nil =>
      intro a hhead
      rw [append_nil] at hhead
      subst hhead
      have hne : c.word ≠ [] := by
        intro hnil
        have := c.spelled.length_eq
        rw [hnil] at this
        cases hkeyword : c.keyword <;> rw [hkeyword] at this <;> cases this
      obtain ⟨x, w, hw⟩ := exists_cons_of_ne_nil hne
      have h := c.redactAt_secret hs hnot
      have h' := c.redactAt_secret hs' hnot'
      simp only [hw, nil_append, cons_append] at h h' ⊢
      rw [statementFrom, statementFrom, h, h', getD_some, getD_some]
    | cons x b ih =>
      intro a hhead
      have hturn := redactAt_append hc hhead (cons_ne_nil x b) hs hs'
      have hnext := ih (a ++ [x]) (by rw [hhead, append_assoc, singleton_append])
      rw [List.getLast?_concat] at hnext
      simp only [cons_append] at hturn ⊢
      rw [statementFrom, statementFrom, hturn, hnext]
  have h := hfrom c.head [] rfl
  rw [Clause.shown, append_assoc c.head]
  exact h

/-- A clause with no keyword before it is settled. -/
theorem Clause.settled_of_first (c : Clause)
    (h : ∀ n < c.head.length, ∀ keyword : Keyword,
      wordAt (c.shown.take n).getLast? (c.shown.drop n) keyword.text = false) : c.Settled := by
  intro keyword head word text hshown hlt hbefore hword hafter
  have hnone := h head.length hlt keyword
  rw [hshown, append_assoc, take_left, drop_left,
    wordAt_eq_true.mpr ⟨hbefore, word, text, rfl, hword, hafter⟩] at hnone
  cases hnone

theorem not_straddled_of_length (h : text.length < maxGapBytes) : ¬Straddled text := by
  rintro ⟨g, x, -, hlen, hx, rfl⟩
  obtain ⟨d, e, body, rfl, -⟩ := exists_of_skipComment hx
  simp only [length_append, length_cons] at h
  omega

/-- `PASSWORD` after a text. -/
def passwordClause (head : Bytes) (before : ¬head.getLast?.any isWordByte) : Clause where
  head := head
  keyword := .password
  word := ascii "PASSWORD"
  kept := []
  spelled := rfl
  before := before
  keeps := rfl

theorem statement_secret_role :
    statement (ascii "ALTER ROLE r PASSWORD 'x'") =
      statement (ascii "ALTER ROLE r PASSWORD /* new */ 'y' VALID UNTIL 'infinity'") := by
  let c := passwordClause (ascii "ALTER ROLE r ") (by decide)
  have hc : c.Settled := c.settled_of_first fun n hn keyword ↦ by
    cases keyword with
    | password => exact (by decide : ∀ n < 13, wordAt (c.shown.take n).getLast? (c.shown.drop n)
        Keyword.password.text = false) n hn
    | identified => exact (by decide : ∀ n < 13, wordAt (c.shown.take n).getLast? (c.shown.drop n)
        Keyword.identified.text = false) n hn
  have hgap : Gap (ascii " /* new */ ") :=
    .space rfl (.block ⟨by decide, by decide⟩ (.space rfl .nil) : Gap (0x2F :: 0x2A ::
      (ascii " new " ++ 0x2A :: 0x2F :: [0x20])))
  have hs : c.Secret (ascii " 'x'") :=
    ⟨by decide, fun _ ↦ ⟨[0x20], ascii "'x'", .space rfl .nil, rfl, rfl⟩⟩
  have hs' : c.Secret (ascii " /* new */ 'y' VALID UNTIL 'infinity'") :=
    ⟨by decide, fun _ ↦ ⟨_, ascii "'y' VALID UNTIL 'infinity'", hgap, rfl, rfl⟩⟩
  exact statement_secret hc hs hs' (not_straddled_of_length (by decide))
    (not_straddled_of_length (by decide))

/-- What comes after a clause in a comment decides whether the keyword before the comment is one. -/
theorem statement_comment :
    let c := passwordClause (ascii "PASSWORD --") (by decide)
    let s := ascii " 'x'\n'y'"
    let s' := ascii " 'x'\n= 1"
    c.Secret s ∧ c.Secret s' ∧
      statement (c.shown ++ s) = ascii "PASSWORD '[REDACTED]'" ∧
      statement (c.shown ++ s') = ascii "PASSWORD --PASSWORD '[REDACTED]'" := by
  refine ⟨?_, ?_, by decide +kernel, by decide +kernel⟩
  · exact ⟨by decide, fun _ ↦ ⟨[0x20], ascii "'x'\n'y'", .space rfl .nil, rfl, rfl⟩⟩
  · exact ⟨by decide, fun _ ↦ ⟨[0x20], ascii "'x'\n= 1", .space rfl .nil, rfl, rfl⟩⟩

end SqlRedact
