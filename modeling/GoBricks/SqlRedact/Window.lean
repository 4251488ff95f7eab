import GoBricks.SqlRedact.Gap

/-!
# The window of a gap

`skipGap` reads a gap in a window of `maxGapBytes` bytes. A gap that does not fit counts as one
whose value cannot be located, but for one place: when the window ends between the two bytes that
open a comment (`Straddled`), the first of them is taken for the end of the gap.

How the gap after one word is read may depend on the text after another, which stands in a comment
of that gap (`Undecided`). Otherwise it does not (`exists_verdict`).
-/

open Text List Option

namespace SqlRedact

/-! ### Comments at the edge -/

/-- The window ends between the two bytes that open a comment. -/
def Straddled (text : Bytes) : Prop :=
  ∃ g x, Gap g ∧ g.length + 1 = maxGapBytes ∧ skipComment x ≠ none ∧ text = g ++ x

theorem exists_of_skipComment {x : Bytes} (h : skipComment x ≠ none) :
    ∃ c d body, x = c :: d :: body ∧ (c = 0x2D ∨ c = 0x2F) := by
  rcases skipComment_cases x with ⟨body, rfl⟩ | ⟨body, rfl⟩ | hnone
  · exact ⟨_, _, body, rfl, .inl rfl⟩
  · exact ⟨_, _, body, rfl, .inr rfl⟩
  · exact absurd hnone h

variable {c : UInt8}

/-- A comment is known by its first byte and one more. -/
theorem skipComment_eq_none (hd : c ≠ 0x2D) (hs : c ≠ 0x2F) (text : Bytes) :
    skipComment (c :: text) = none := by
  by_contra h
  obtain ⟨c', d, body, heq, hc⟩ := exists_of_skipComment h
  obtain ⟨rfl, -⟩ := List.cons.inj heq
  rcases hc with hc | hc
  · exact hd hc
  · exact hs hc

theorem skipComment_append_ne_none {x : Bytes} (h : skipComment x ≠ none) (more : Bytes) :
    skipComment (x ++ more) ≠ none := by
  rcases skipComment_cases x with ⟨body, rfl⟩ | ⟨body, rfl⟩ | hnone
  · exact some_ne_none _
  · exact some_ne_none _
  · exact absurd hnone h

variable {text : Bytes}

theorem skipComment_append_eq_none {d : UInt8} (h : skipComment (c :: d :: text) = none)
    (more : Bytes) : skipComment (c :: d :: (text ++ more)) = none := by
  rcases skipComment_cases (c :: d :: (text ++ more)) with ⟨body, hbody⟩ | ⟨body, hbody⟩ | hnone
  · obtain ⟨rfl, htail⟩ := List.cons.inj hbody
    obtain ⟨rfl, -⟩ := List.cons.inj htail
    cases h
  · obtain ⟨rfl, htail⟩ := List.cons.inj hbody
    obtain ⟨rfl, -⟩ := List.cons.inj htail
    cases h
  · exact hnone

/-- What `skipGap` says of a window in which the gap ends. -/
theorem skipGap_of_some {rest : Bytes} (h : skipGaps (text.take maxGapBytes) = some rest)
    (hne : rest ≠ []) : skipGap text = ((text.take maxGapBytes).length - rest.length, false) := by
  have hempty : rest.isEmpty = false := by simpa using hne
  rw [skipGap, h]
  simp only [hempty, Bool.false_and]

theorem skipGap_of_nil (h : skipGaps (text.take maxGapBytes) = some [])
    (hlt : maxGapBytes < text.length) : (skipGap text).2 = true := by
  rw [skipGap, h]
  simpa using hlt

theorem skipGap_of_none (h : skipGaps (text.take maxGapBytes) = none) :
    (skipGap text).2 = true := by
  rw [skipGap, h]

/-- A gap before a text that is no part of one is read to its end when it fits the window. -/
theorem skipGap_short {g v : Bytes} (hg : Gap g) (hspace : ¬isSpace c) (hd : c ≠ 0x2D)
    (hs : c ≠ 0x2F) (hfit : g.length < maxGapBytes) :
    skipGap (g ++ c :: v) = (g.length, false) := by
  obtain ⟨k, hk⟩ := Nat.exists_eq_add_of_lt hfit
  have hwindow : (g ++ c :: v).take maxGapBytes = g ++ c :: v.take k := by
    have hsub : g.length + k + 1 - g.length = k + 1 := by omega
    rw [hk, List.take_append, List.take_of_length_le (by omega), hsub, List.take_succ_cons]
  have hskip : skipGaps ((g ++ c :: v).take maxGapBytes) = some (c :: v.take k) := by
    rw [hwindow, skipGaps_gap hg, skipGaps_stop hspace (skipComment_eq_none hd hs _)]
  rw [skipGap_of_some hskip (by simp), hwindow, List.length_append, Nat.add_sub_cancel]

/-- The value behind a gap that does not fit the window cannot be located, unless the window ends
between the bytes of a comment. -/
theorem skipGap_long {g v : Bytes} (hg : Gap g) (hv : v ≠ []) (hlong : maxGapBytes ≤ g.length)
    (hnot : ¬Straddled (g ++ v)) : (skipGap (g ++ v)).2 = true := by
  have hwindow : (g ++ v).take maxGapBytes = g.take maxGapBytes :=
    take_append_of_le_length hlong
  have hlt : maxGapBytes < (g ++ v).length := by
    have := length_pos_of_ne_nil hv
    rw [length_append]
    omega
  obtain ⟨g', x, hg', heq, hstop⟩ := exists_gap_stop (g.take maxGapBytes)
  cases hstop with
  | nil =>
    refine skipGap_of_nil ?_ hlt
    rw [hwindow, heq, skipGaps_gap hg', skipGaps]
  | line hbody =>
    refine skipGap_of_nil ?_ hlt
    rw [hwindow, heq, skipGaps_gap hg', skipGaps_openLine hbody]
  | block hbody =>
    refine skipGap_of_none ?_
    rw [hwindow, heq, skipGaps_gap hg', skipGaps_block_none hbody]
  | @other d text hc hnone =>
    -- The gap goes on, so that a comment is opened here that the window does not show.
    exfalso
    have hsplit : g = g' ++ (d :: (text ++ g.drop maxGapBytes)) := by
      rw [← cons_append, ← append_assoc, ← heq, take_append_drop]
    have hskip : skipGaps (d :: (text ++ g.drop maxGapBytes)) = some [] := by
      rw [← skipGaps_gap hg', ← hsplit, ← append_nil g, skipGaps_gap hg, skipGaps]
    have hopen : skipComment (d :: (text ++ g.drop maxGapBytes)) ≠ none := by
      intro h
      rw [skipGaps_stop hc h] at hskip
      cases hskip
    cases text with
    | cons e text => exact hopen (skipComment_append_eq_none hnone _)
    | nil =>
      refine hnot ⟨g', d :: (g.drop maxGapBytes ++ v), hg', ?_, ?_, ?_⟩
      · have hlen := congrArg List.length heq
        rw [length_take, min_eq_left (by omega), length_append] at hlen
        exact hlen.symm
      · exact skipComment_append_ne_none hopen (v)
      · nth_rewrite 1 [hsplit]
        simp

/-! ### Gaps with another word in them -/

/-- A text that ends in a line comment. -/
def OpenLine (text : Bytes) : Prop :=
  ∃ g body, Gap g ∧ (∀ b ∈ body, ¬isNewline b) ∧ text = g ++ 0x2D :: 0x2D :: body

/-- A text that ends inside a block comment. -/
def OpenBlock (text : Bytes) : Prop :=
  ∃ g body, Gap g ∧ Inside body ∧ text = g ++ 0x2F :: 0x2A :: body

/-- How the gap is read that starts with a text depends on what comes after the text, of which `m`
bytes belong to a word or a value: the text ends in a comment, and in the window the comment may
still end, or the gap with it. -/
def Undecided (m : ℕ) (text : Bytes) : Prop :=
  OpenLine text ∧ text.length + m ≤ maxGapBytes ∨
    OpenBlock text ∧ text.length + m + 2 ≤ maxGapBytes

/-- A text whose last two bytes are letters. -/
def EndsInWord (text : Bytes) : Prop :=
  ∃ init c d, isLetter c ∧ isLetter d ∧ text = init ++ [c, d]

/-- What may come after a word, or after a word and a gap: at least `m` bytes, of which the first is
not one of the word and none closes a comment too soon. -/
structure Continuation (m : ℕ) (r : Bytes) : Prop where
  le_one : m ≤ 1
  le_length : m ≤ r.length
  head : ¬r.head?.any isWordByte
  unclosed : closeBlock (r.take (m + 1)) = none

/-- How a gap is read: its length, or that its value cannot be located. -/
def Verdict (text : Bytes) (v : Option ℕ) : Prop :=
  match v with
  | none => (skipGap text).2 = true
  | some n => skipGap text = (n, false)

theorem isWordByte_of_isLetter (h : isLetter c) : isWordByte c := by
  rw [isWordByte, h, Bool.or_true, Bool.true_or]

theorem ne_of_isLetter {d : UInt8} (h : isLetter c) (hd : isLetter d = false) : c ≠ d := by
  rintro rfl
  rw [h] at hd
  cases hd

/-- The end of a word is no end of a gap. -/
theorem EndsInWord.two_le {g x : Bytes} (h : EndsInWord (g ++ x)) (hg : Gap g) : 2 ≤ x.length := by
  obtain ⟨init, c, d, hc, hd, heq⟩ := h
  by_contra hlt
  -- The last byte of the gap would be one of the two letters.
  have hlast : ∃ b ∈ g.getLast?, isLetter b := by
    match x, hlt with
    | [], _ =>
      refine ⟨d, ?_, hd⟩
      rw [append_nil] at heq
      rw [heq]
      simp
    | [b], _ =>
      refine ⟨c, ?_, hc⟩
      have hinit : g = init ++ [c] := by
        have : g ++ [b] = init ++ [c] ++ [d] := by simpa using heq
        exact (append_inj' this rfl).1
      rw [hinit]
      simp
    | _ :: _ :: _, hlt => simp at hlt
  obtain ⟨b, hb, hletter⟩ := hlast
  exact hg.not_isWordByte_getLast b hb (isWordByte_of_isLetter hletter)

/-- A comment whose inside ends in a letter goes on after it. -/
theorem closeBlock_append_of_letter {body : Bytes} (hin : Inside (body ++ [c])) (hc : isLetter c)
    (more : Bytes) : closeBlock (body ++ [c] ++ more) = closeBlock more := by
  rw [append_assoc, singleton_append, closeBlock_inside hin,
    closeBlock_cons (ne_of_isLetter hc rfl) (ne_of_isLetter hc rfl)]

theorem closeBlock_take {k n : ℕ} (h : closeBlock (text.take n) = none) (hle : k ≤ n) :
    closeBlock (text.take k) = none := by
  by_contra hne
  obtain ⟨rest, hrest⟩ := ne_none_iff_exists'.mp hne
  have htake : text.take k = (text.take n).take k := by rw [take_take, min_eq_left hle]
  have hclosed := closeBlock_append hrest ((text.take n).drop k)
  rw [htake, take_append_drop, h] at hclosed
  cases hclosed

/-- **How a gap is read does not depend on what comes after a word in it**, unless the word stands
in a comment that is open. -/
theorem exists_verdict {m : ℕ} {t : Bytes} (hword : EndsInWord t) (hopen : ¬Undecided m t) :
    ∃ v : Option ℕ, (∀ n ∈ v, n + 2 ≤ t.length) ∧
      ∀ r, Continuation m r → Verdict (t ++ r) v := by
  by_cases hfit : t.length ≤ maxGapBytes
  · obtain ⟨g, x, hg, rfl, hstop⟩ := exists_gap_stop t
    have htwo := hword.two_le hg
    have hwindow : ∀ r : Bytes, (g ++ x ++ r).take maxGapBytes =
        g ++ (x ++ r.take (maxGapBytes - (g ++ x).length)) := fun r ↦ by
      rw [take_append, take_of_length_le hfit, append_assoc]
    cases hstop with
    | nil => simp at htwo
    | @other c text hc hnone =>
      refine ⟨some g.length, fun n hn ↦ ?_, fun r _ ↦ ?_⟩
      · cases hn
        rw [length_append]
        omega
      · cases text with
        | nil => simp at htwo
        | cons d text =>
          set r' := r.take (maxGapBytes - (g ++ c :: d :: text).length)
          have hskip : skipGaps ((g ++ c :: d :: text ++ r).take maxGapBytes) =
              some (c :: d :: (text ++ r')) := by
            rw [hwindow, skipGaps_gap hg]
            exact skipGaps_stop hc (skipComment_append_eq_none hnone r')
          rw [Verdict, skipGap_of_some hskip (by simp), hwindow, length_append]
          exact congrArg (·, false) (Nat.add_sub_cancel ..)
    | @line body hbody =>
      -- The line comment fills the window, and the text goes on.
      have hlong : ¬((g ++ 0x2D :: 0x2D :: body).length + m ≤ maxGapBytes) :=
        fun hle ↦ hopen (.inl ⟨⟨g, body, hg, hbody, rfl⟩, hle⟩)
      refine ⟨none, by simp, fun r hr ↦ ?_⟩
      have hm := hr.le_one
      have hlen := hr.le_length
      have hfull : maxGapBytes - (g ++ 0x2D :: 0x2D :: body).length = 0 := by omega
      refine skipGap_of_nil ?_ (by rw [length_append]; omega)
      rw [hwindow, hfull, take_zero, append_nil, skipGaps_gap hg,
        skipGaps_openLine hbody]
    | @block body hnone =>
      refine ⟨none, by simp, fun r hr ↦ skipGap_of_none ?_⟩
      rw [hwindow, skipGaps_gap hg]
      refine skipGaps_block_none ?_
      rcases closeBlock_eq_none hnone with hin | hnested
      · -- The window ends before the comment may.
        have hlong : ¬((g ++ 0x2F :: 0x2A :: body).length + m + 2 ≤ maxGapBytes) :=
          fun hle ↦ hopen (.inr ⟨⟨g, body, hg, hin, rfl⟩, hle⟩)
        obtain ⟨init, c, d, hc, hd, heq⟩ := hword
        rcases eq_nil_or_concat body with rfl | ⟨body, b, rfl⟩
        · have hlast := congrArg List.getLast? heq
          simp at hlast
          subst hlast
          cases hd
        · rw [concat_eq_append] at hin hlong heq ⊢
          have hb : b = d := by
            have hlast := congrArg List.getLast? heq
            rw [← cons_append, ← cons_append, ← append_assoc,
              List.getLast?_concat] at hlast
            simpa using hlast
          subst hb
          have hclose := closeBlock_append_of_letter hin hd
            (r.take (maxGapBytes - (g ++ 0x2F :: 0x2A :: (body ++ [b])).length))
          exact hclose.trans (closeBlock_take hr.unclosed (by omega))
      · exact hnested _
  · -- The window is a part of the text.
    have hwindow : ∀ r : Bytes, (t ++ r).take maxGapBytes = t.take maxGapBytes := fun r ↦
      take_append_of_le_length (by omega)
    have hlt : ∀ r : Bytes, maxGapBytes < (t ++ r).length := fun r ↦ by
      rw [length_append]
      omega
    match hskip : skipGaps (t.take maxGapBytes) with
    | none =>
      refine ⟨none, by simp, fun r _ ↦ skipGap_of_none ?_⟩
      rw [hwindow, hskip]
    | some [] =>
      refine ⟨none, by simp, fun r _ ↦ skipGap_of_nil ?_ (hlt r)⟩
      rw [hwindow, hskip]
    | some (c :: rest) =>
      refine ⟨some ((t.take maxGapBytes).length - (c :: rest).length), fun n hn ↦ ?_, fun r _ ↦ ?_⟩
      · cases hn
        have hmax : 1 ≤ maxGapBytes := by decide
        rw [length_take, min_eq_left (by omega), length_cons]
        omega
      · have := skipGap_of_some (hskip ▸ congrArg skipGaps (hwindow r)) (cons_ne_nil c rest)
        rwa [hwindow] at this

end SqlRedact
