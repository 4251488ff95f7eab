import GoBricks.SqlRedact.Statement
import Mathlib.Data.List.Infix
import Mathlib.Data.List.TakeWhile

/-!
# Gaps

`Gap` says what may stand between a keyword and its value: white space and complete comments, no
comment opened in another. Every text is a gap and then a text that stops it (`exists_gap_stop`),
and `skipGaps` goes past the gap (`skipGaps_gap`).
-/

open Text List Bool

namespace SqlRedact

/-! ### Block comments -/

/-- The inside of a block comment, so far: no comment is closed in it and none is opened. -/
structure Inside (body : Bytes) : Prop where
  not_opened : ¬[0x2F, 0x2A] <:+: body
  not_closed : ¬[0x2A, 0x2F] <:+: body

variable {c : UInt8} {body : Bytes}

theorem Inside.tail (h : Inside (c :: body)) : Inside body :=
  ⟨fun hi ↦ h.not_opened (hi.trans (suffix_cons c body).isInfix),
    fun hi ↦ h.not_closed (hi.trans (suffix_cons c body).isInfix)⟩

theorem Inside.head {d : UInt8} (h : Inside (c :: d :: body)) :
    ¬(c == 0x2F && d == 0x2A) ∧ ¬(c == 0x2A && d == 0x2F) := by
  constructor
  · intro hcd
    simp only [and_eq_true, beq_iff_eq] at hcd
    obtain ⟨rfl, rfl⟩ := hcd
    exact h.not_opened ⟨[], body, rfl⟩
  · intro hcd
    simp only [and_eq_true, beq_iff_eq] at hcd
    obtain ⟨rfl, rfl⟩ := hcd
    exact h.not_closed ⟨[], body, rfl⟩

theorem not_infix_cons {d : UInt8} {x y : UInt8} (hcd : ¬(c == x && d == y))
    (h : ¬[x, y] <:+: d :: body) : ¬[x, y] <:+: c :: d :: body := by
  intro hi
  rcases infix_cons_iff.mp hi with hp | hi
  · obtain ⟨rest, heq⟩ := hp
    obtain ⟨hx, htail⟩ := List.cons.inj heq
    obtain ⟨hy, -⟩ := List.cons.inj htail
    exact hcd (by simp [hx, hy])
  · exact h hi

/-- A closed comment stays closed, whatever comes after it. -/
theorem closeBlock_append {rest : Bytes} (h : closeBlock body = some rest) (more : Bytes) :
    closeBlock (body ++ more) = some (rest ++ more) := by
  induction body using closeBlock.induct with
  | case1 | case2 => cases h
  | case3 c d body hopen =>
    rw [closeBlock, if_pos hopen] at h
    cases h
  | case4 c d body hopen hclose =>
    rw [closeBlock, if_neg hopen, if_pos hclose] at h
    cases h
    rw [cons_append, cons_append, closeBlock, if_neg hopen, if_pos hclose]
  | case5 c d body hopen hclose ih =>
    rw [closeBlock, if_neg hopen, if_neg hclose] at h
    rw [cons_append, cons_append, closeBlock, if_neg hopen, if_neg hclose]
    exact ih h

/-- A comment that is not closed is open, or has another one in it. -/
theorem closeBlock_eq_none (h : closeBlock body = none) :
    Inside body ∨ ∀ more, closeBlock (body ++ more) = none := by
  induction body using closeBlock.induct with
  | case1 => exact .inl ⟨by simp, by simp⟩
  | case2 c =>
    refine .inl ⟨fun hi ↦ ?_, fun hi ↦ ?_⟩
    · simpa using hi.length_le
    · simpa using hi.length_le
  | case3 c d body hopen =>
    refine .inr fun more ↦ ?_
    rw [cons_append, cons_append, closeBlock, if_pos hopen]
  | case4 c d body hopen hclose =>
    rw [closeBlock, if_neg hopen, if_pos hclose] at h
    cases h
  | case5 c d body hopen hclose ih =>
    rw [closeBlock, if_neg hopen, if_neg hclose] at h
    rcases ih h with hin | hnone
    · exact .inl ⟨not_infix_cons hopen hin.not_opened, not_infix_cons hclose hin.not_closed⟩
    · refine .inr fun more ↦ ?_
      rw [cons_append, cons_append, closeBlock, if_neg hopen, if_neg hclose]
      exact hnone more

/-- The inside of a comment is gone over, up to its last byte. -/
theorem closeBlock_inside (h : Inside (body ++ [c])) (more : Bytes) :
    closeBlock (body ++ c :: more) = closeBlock (c :: more) := by
  induction body with
  | nil => rfl
  | cons b body ih =>
    have htail : Inside (body ++ [c]) := h.tail
    rw [← ih htail]
    obtain ⟨d, rest, hrest⟩ : ∃ d rest, body ++ [c] = d :: rest :=
      exists_cons_of_ne_nil (by simp)
    have heq : body ++ c :: more = d :: (rest ++ more) := by
      rw [← singleton_append, ← append_assoc, hrest, cons_append]
    rw [cons_append, hrest] at h
    rw [cons_append, heq, closeBlock, if_neg h.head.1, if_neg h.head.2]

/-- A byte that neither opens nor closes a comment is gone over. -/
theorem closeBlock_cons (hs : c ≠ 0x2F) (ht : c ≠ 0x2A) (text : Bytes) :
    closeBlock (c :: text) = closeBlock text := by
  cases text with
  | nil => rfl
  | cons d text =>
    rw [closeBlock, if_neg (by simp [hs]), if_neg (by simp [ht])]

/-! ### Gaps -/

/-- White space and complete comments. No block comment has a second `/*` in it. -/
inductive Gap : Bytes → Prop
  | nil : Gap []
  | space {c : UInt8} {g : Bytes} (hc : isSpace c) (hg : Gap g) : Gap (c :: g)
  | line {body : Bytes} {c : UInt8} {g : Bytes} (hbody : ∀ b ∈ body, ¬isNewline b)
      (hc : isNewline c) (hg : Gap g) : Gap (0x2D :: 0x2D :: (body ++ c :: g))
  | block {body g : Bytes} (hbody : Inside (body ++ [0x2A])) (hg : Gap g) :
      Gap (0x2F :: 0x2A :: (body ++ 0x2A :: 0x2F :: g))

theorem isSpace_of_isNewline (h : isNewline c) : isSpace c := by
  rw [isNewline, or_eq_true] at h
  rw [isSpace]
  rcases h with h | h <;> simp [h]

theorem skipGaps_space (hc : isSpace c) (text : Bytes) : skipGaps (c :: text) = skipGaps text := by
  rw [skipGaps, if_pos hc]

theorem dropWhile_line (hbody : ∀ b ∈ body, ¬isNewline b) (hc : isNewline c) (text : Bytes) :
    (body ++ c :: text).dropWhile (fun c ↦ !isNewline c) = c :: text := by
  rw [dropWhile_append_of_pos (by simpa using hbody), dropWhile_cons_of_neg (by simpa)]

/-- So is a comment to the end of the line. -/
theorem skipGaps_line (text : Bytes) :
    skipGaps (0x2D :: 0x2D :: text) = skipGaps (text.dropWhile fun c ↦ !isNewline c) := by
  rw [skipGaps, if_neg (by decide)]
  rfl

variable {text : Bytes}

/-- So is a comment that is closed. -/
theorem skipGaps_block_some {rest : Bytes} (h : closeBlock text = some rest) :
    skipGaps (0x2F :: 0x2A :: text) = skipGaps rest := by
  rw [skipGaps, if_neg (by decide)]
  have hc : skipComment (0x2F :: 0x2A :: text) = some (some rest) := by rw [skipComment, h]
  split
  · next heq => cases hc.symm.trans heq
  · next heq => cases hc.symm.trans heq
  · next heq => rw [Option.some.inj (Option.some.inj (hc.symm.trans heq))]

theorem skipGaps_block_none (h : closeBlock text = none) :
    skipGaps (0x2F :: 0x2A :: text) = none := by
  rw [skipGaps, if_neg (by decide)]
  have hc : skipComment (0x2F :: 0x2A :: text) = some none := by rw [skipComment, h]
  split
  · next heq => cases hc.symm.trans heq
  · rfl
  · next heq => cases hc.symm.trans heq

/-- A text that starts no gap is where `skipGaps` stops. -/
theorem skipGaps_stop (hc : ¬isSpace c) (hnone : skipComment (c :: text) = none) :
    skipGaps (c :: text) = some (c :: text) := by
  rw [skipGaps, if_neg hc]
  split
  · rfl
  · next heq => cases hnone.symm.trans heq
  · next heq => cases hnone.symm.trans heq

/-- A line comment that is open is gone over to the end. -/
theorem skipGaps_openLine (hbody : ∀ b ∈ body, ¬isNewline b) :
    skipGaps (0x2D :: 0x2D :: body) = some [] := by
  rw [skipGaps_line, dropWhile_eq_nil_iff.mpr (by simpa using hbody), skipGaps]

/-- A gap is gone past. -/
theorem skipGaps_gap {g : Bytes} (hg : Gap g) (text : Bytes) :
    skipGaps (g ++ text) = skipGaps text := by
  induction hg with
  | nil => rfl
  | space hc hg ih => rw [cons_append, skipGaps_space hc, ih]
  | @line body c g hbody hc hg ih =>
    have heq : 0x2D :: 0x2D :: (body ++ c :: g) ++ text =
        0x2D :: 0x2D :: (body ++ c :: (g ++ text)) := by simp
    rw [heq, skipGaps_line, dropWhile_line hbody hc, skipGaps_space (isSpace_of_isNewline hc), ih]
  | @block body g hbody hg ih =>
    have heq : 0x2F :: 0x2A :: (body ++ 0x2A :: 0x2F :: g) ++ text =
        0x2F :: 0x2A :: (body ++ 0x2A :: 0x2F :: (g ++ text)) := by simp
    have hclose : closeBlock (body ++ 0x2A :: 0x2F :: (g ++ text)) = some (g ++ text) := by
      rw [closeBlock_inside hbody]
      rfl
    rw [heq, skipGaps_block_some hclose, ih]

/-! ### Where a gap ends -/

/-- A text that does not start with white space or a complete comment. -/
inductive Stop : Bytes → Prop
  | nil : Stop []
  | other {c : UInt8} {text : Bytes} (hc : ¬isSpace c) (h : skipComment (c :: text) = none) :
      Stop (c :: text)
  | line {body : Bytes} (h : ∀ b ∈ body, ¬isNewline b) : Stop (0x2D :: 0x2D :: body)
  | block {body : Bytes} (h : closeBlock body = none) : Stop (0x2F :: 0x2A :: body)

theorem Gap.append {g g' : Bytes} (hg : Gap g) (hg' : Gap g') : Gap (g ++ g') := by
  induction hg with
  | nil => exact hg'
  | space hc hg ih => exact .space hc ih
  | line hbody hc hg ih =>
    rw [cons_append, cons_append, append_assoc, cons_append]
    exact .line hbody hc ih
  | block hbody hg ih =>
    rw [cons_append, cons_append, append_assoc, cons_append, cons_append]
    exact .block hbody ih

theorem exists_of_closeBlock {rest : Bytes} (h : closeBlock text = some rest) :
    ∃ body, Inside (body ++ [0x2A]) ∧ text = body ++ 0x2A :: 0x2F :: rest := by
  induction text using closeBlock.induct with
  | case1 | case2 => cases h
  | case3 c d text hopen =>
    rw [closeBlock, if_pos hopen] at h
    cases h
  | case4 c d text hopen hclose =>
    rw [closeBlock, if_neg hopen, if_pos hclose] at h
    cases h
    simp only [and_eq_true, beq_iff_eq] at hclose
    obtain ⟨rfl, rfl⟩ := hclose
    refine ⟨[], ⟨fun hi ↦ ?_, fun hi ↦ ?_⟩, rfl⟩
    · simpa using hi.length_le
    · simpa using hi.length_le
  | case5 c d text hopen hclose ih =>
    rw [closeBlock, if_neg hopen, if_neg hclose] at h
    obtain ⟨body, hin, heq⟩ := ih h
    refine ⟨c :: body, ?_, by rw [heq, cons_append]⟩
    -- The first byte of the rest is that of `body`, or the star.
    obtain ⟨rest', hrest⟩ : ∃ rest', body ++ [0x2A] = d :: rest' := by
      cases body with
      | nil => exact ⟨[], by rw [(List.cons.inj heq).1]; rfl⟩
      | cons b body => exact ⟨body ++ [0x2A], by rw [(List.cons.inj heq).1]; rfl⟩
    rw [cons_append, hrest]
    rw [hrest] at hin
    exact ⟨not_infix_cons hopen hin.not_opened, not_infix_cons hclose hin.not_closed⟩

/-- What starts a comment. -/
theorem skipComment_cases (text : Bytes) :
    (∃ body, text = 0x2D :: 0x2D :: body) ∨ (∃ body, text = 0x2F :: 0x2A :: body) ∨
      skipComment text = none := by
  fun_cases skipComment text with
  | case1 body => exact .inl ⟨body, rfl⟩
  | case2 body => exact .inr (.inl ⟨body, rfl⟩)
  | case3 => exact .inr (.inr rfl)

/-- Every text is a gap up to a place where none goes on. -/
theorem exists_gap_stop (text : Bytes) : ∃ g rest, Gap g ∧ text = g ++ rest ∧ Stop rest := by
  induction hn : text.length using Nat.strong_induction_on generalizing text with
  | _ n ih =>
    subst hn
    -- A piece of a gap, before a shorter text.
    have hpiece : ∀ {g₀} text', Gap g₀ → g₀ ≠ [] → text = g₀ ++ text' →
        ∃ g rest, Gap g ∧ text = g ++ rest ∧ Stop rest := by
      intro g₀ text' hg₀ hne heq
      have hlt : text'.length < text.length := by
        rw [heq, length_append]
        have := length_pos_of_ne_nil hne
        omega
      obtain ⟨g, rest, hg, heq', hstop⟩ := ih _ hlt text' rfl
      exact ⟨g₀ ++ g, rest, hg₀.append hg, by rw [heq, heq', append_assoc], hstop⟩
    cases text with
    | nil => exact ⟨[], [], .nil, rfl, .nil⟩
    | cons c text =>
      by_cases hc : isSpace c
      · exact hpiece text (.space hc .nil) (by simp) rfl
      · rcases skipComment_cases (c :: text) with ⟨body, hbody⟩ | ⟨body, hbody⟩ | hnone
        · cases hdrop : body.dropWhile fun c ↦ !isNewline c with
          | nil =>
            refine ⟨[], _, .nil, rfl, ?_⟩
            rw [hbody]
            exact .line fun b hb ↦ by simpa using dropWhile_eq_nil_iff.mp hdrop b hb
          | cons d rest =>
            have htake := takeWhile_append_dropWhile (p := fun c ↦ !isNewline c) (l := body)
            have hd : isNewline d := by
              simpa [hdrop] using
                dropWhile_get_zero_not (fun c ↦ !isNewline c) body (by simp [hdrop])
            rw [hdrop] at htake
            have hline : Gap (0x2D :: 0x2D :: (body.takeWhile (fun c ↦ !isNewline c) ++ [d])) :=
              .line (fun b hb ↦ by simpa using mem_takeWhile_imp hb) hd .nil
            refine hpiece rest hline (by simp) ?_
            have heq : 0x2D :: 0x2D :: (body.takeWhile (fun c ↦ !isNewline c) ++ d :: rest) =
                0x2D :: 0x2D :: (body.takeWhile (fun c ↦ !isNewline c) ++ [d]) ++ rest := by simp
            rw [hbody, ← heq, htake]
        · cases hclose : closeBlock body with
          | none =>
            refine ⟨[], _, .nil, rfl, ?_⟩
            rw [hbody]
            exact .block hclose
          | some rest =>
            obtain ⟨inside, hin, rfl⟩ := exists_of_closeBlock hclose
            refine hpiece rest (.block hin .nil) (by simp) ?_
            rw [hbody]
            simp
        · exact ⟨[], _, .nil, rfl, .other hc hnone⟩

theorem not_isWordByte_of_isSpace (hc : isSpace c) : ¬isWordByte c := by
  simp only [isSpace, or_eq_true, beq_iff_eq] at hc
  rcases hc with ((((rfl | rfl) | rfl) | rfl) | rfl) | rfl <;> decide

/-- The last byte of a gap is not one of a word. -/
theorem Gap.not_isWordByte_getLast {g : Bytes} (hg : Gap g) : ∀ c ∈ g.getLast?, ¬isWordByte c := by
  -- The last byte is in the rest of the gap, or it is the one before it.
  have hcons : ∀ {c : UInt8} {g : Bytes}, ¬isWordByte c → (∀ d ∈ g.getLast?, ¬isWordByte d) →
      ∀ d ∈ (c :: g).getLast?, ¬isWordByte d := by
    intro c g hc hg d hd
    cases g with
    | nil =>
      obtain rfl : c = d := by simpa using hd
      exact hc
    | cons b g => exact hg d (by simpa using hd)
  induction hg with
  | nil => simp
  | space hc hg ih => exact hcons (not_isWordByte_of_isSpace hc) ih
  | @line body c g hbody hc hg ih =>
    have hne : body ++ c :: g ≠ [] := by simp
    rw [List.getLast?_cons_of_ne_nil (by simp), List.getLast?_cons_of_ne_nil hne,
      List.getLast?_append_cons]
    exact hcons (not_isWordByte_of_isSpace (isSpace_of_isNewline hc)) ih
  | @block body g hbody hg ih =>
    have hne : body ++ 0x2A :: 0x2F :: g ≠ [] := by simp
    rw [List.getLast?_cons_of_ne_nil (by simp), List.getLast?_cons_of_ne_nil hne,
      List.getLast?_append_cons, List.getLast?_cons_of_ne_nil (by simp)]
    exact hcons (by decide) ih

end SqlRedact
