import GoBricks.Lib.Utf8
import Mathlib.Data.Bool.AllAny
import Mathlib.Data.List.Infix
import Mathlib.Data.List.Sort
import Mathlib.Data.List.TakeWhile

/-!
# Strings in Go

The functions of package `strings` on byte strings: `TrimSpace`, `ToUpper`, `ReplaceAll`, `Cut` and
`Join`; the order of strings, and the decimal form of numbers.

`trimSpace` takes off the encodings of Unicode's white space at both ends. `toUpper` takes Unicode's
table as a parameter for the runes beyond ASCII; only U+017F, the long s, is given, as it is the one
such rune that the letters of SQL's keywords fold with.
-/

namespace Text

open List Bool

/-- The bytes of an ASCII text. -/
def ascii (s : String) : Bytes :=
  s.toList.map fun c ↦ .ofNat c.toNat

/-! ### White space -/

/-- The encodings of Unicode's white space. -/
def spaces : List Bytes :=
  [[0x09], [0x0A], [0x0B], [0x0C], [0x0D], [0x20], [0xC2, 0x85], [0xC2, 0xA0], [0xE1, 0x9A, 0x80],
    [0xE2, 0x80, 0x80], [0xE2, 0x80, 0x81], [0xE2, 0x80, 0x82], [0xE2, 0x80, 0x83],
    [0xE2, 0x80, 0x84], [0xE2, 0x80, 0x85], [0xE2, 0x80, 0x86], [0xE2, 0x80, 0x87],
    [0xE2, 0x80, 0x88], [0xE2, 0x80, 0x89], [0xE2, 0x80, 0x8A], [0xE2, 0x80, 0xA8],
    [0xE2, 0x80, 0xA9], [0xE2, 0x80, 0xAF], [0xE2, 0x81, 0x9F], [0xE3, 0x80, 0x80]]

/-- The text without white space at its front; the first argument bounds how much there is. -/
def trimLeftFrom : ℕ → Bytes → Bytes
  | 0, s => s
  | n + 1, s =>
    match spaces.find? (·.isPrefixOf s) with
    | some w => trimLeftFrom n (s.drop w.length)
    | none => s

/-- The text without white space at its end; the first argument bounds how much there is. -/
def trimRightFrom : ℕ → Bytes → Bytes
  | 0, s => s
  | n + 1, s =>
    match spaces.find? (·.isSuffixOf s) with
    | some w => trimRightFrom n (s.take (s.length - w.length))
    | none => s

/-- `strings.TrimSpace` -/
def trimSpace (s : Bytes) : Bytes :=
  let t := trimLeftFrom s.length s
  trimRightFrom t.length t

/-- A byte that is neither white space nor part of the encoding of any. -/
def isSolid (b : UInt8) : Bool :=
  0x20 < b && b < 0x80

variable {b : UInt8}

theorem not_isSolid_of_mem_spaces {w : Bytes} (hw : w ∈ spaces) (hb : b ∈ w) :
    isSolid b = false := by
  have hall : ∀ w ∈ spaces, w.all (!isSolid ·) := all_iff_forall_prop.mp (by decide)
  simpa using all_eq_true.mp (hall w hw) b hb

theorem spaces_ne_nil {w : Bytes} (hw : w ∈ spaces) : w ≠ [] := by
  have hall : ∀ w ∈ spaces, w ≠ [] := all_iff_forall_prop.mp (by decide)
  exact hall w hw

/-- There is no white space at either end. -/
def Trimmed (s : Bytes) : Prop :=
  ∀ w ∈ spaces, ¬w <+: s ∧ ¬w <:+ s

variable {s : Bytes}

theorem trimLeftFrom_eq_self {n : ℕ} (h : ∀ w ∈ spaces, ¬w <+: s) : trimLeftFrom n s = s := by
  cases n with
  | zero => rfl
  | succ n =>
    have hnone : spaces.find? (·.isPrefixOf s) = none := by
      simpa only [List.find?_eq_none, isPrefixOf_iff_prefix] using h
    rw [trimLeftFrom, hnone]

theorem trimRightFrom_eq_self {n : ℕ} (h : ∀ w ∈ spaces, ¬w <:+ s) : trimRightFrom n s = s := by
  cases n with
  | zero => rfl
  | succ n =>
    have hnone : spaces.find? (·.isSuffixOf s) = none := by
      simpa only [List.find?_eq_none, isSuffixOf_iff_suffix] using h
    rw [trimRightFrom, hnone]

theorem Trimmed.trimSpace_eq (h : Trimmed s) : trimSpace s = s := by
  rw [trimSpace, trimLeftFrom_eq_self fun w hw ↦ (h w hw).1,
    trimRightFrom_eq_self fun w hw ↦ (h w hw).2]

/-- The text ends with a byte that is not white space. -/
def EndsSolid (w : Bytes) : Prop :=
  ∃ b ∈ w.getLast?, isSolid b

theorem EndsSolid.append {a b : Bytes} (h : EndsSolid b) : EndsSolid (a ++ b) := by
  obtain ⟨c, hc, hsolid⟩ := h
  refine ⟨c, ?_, hsolid⟩
  rw [List.getLast?_append, Option.mem_def.mp hc]
  rfl

theorem endsSolid_of_solid {w : Bytes} (hw : w ≠ []) (h : ∀ b ∈ w, isSolid b) : EndsSolid w :=
  ⟨w.getLast hw, List.getLast?_eq_some_getLast hw, h _ (getLast_mem hw)⟩

/-- What starts and ends with bytes that are not white space is left alone. -/
theorem trimSpace_eq_self (hhead : ∃ b ∈ s.head?, isSolid b) (hlast : EndsSolid s) :
    trimSpace s = s := by
  obtain ⟨b, hb, hsb⟩ := hhead
  obtain ⟨c, hc, hsc⟩ := hlast
  refine Trimmed.trimSpace_eq fun w hw ↦ ⟨?_, ?_⟩
  · rintro ⟨t, rfl⟩
    rw [List.head?_append_of_ne_nil _ (spaces_ne_nil hw)] at hb
    rw [not_isSolid_of_mem_spaces hw (mem_of_mem_head? hb)] at hsb
    cases hsb
  · rintro ⟨t, rfl⟩
    rw [List.getLast?_append_of_ne_nil _ (spaces_ne_nil hw)] at hc
    rw [not_isSolid_of_mem_spaces hw (mem_of_mem_getLast? hc)] at hsc
    cases hsc

theorem trimLeftFrom_spec (n : ℕ) (s : Bytes) :
    ∃ v, (∀ b ∈ v, isSolid b = false) ∧ v ++ trimLeftFrom n s = s ∧
      (s.length ≤ n → ∀ w ∈ spaces, ¬w <+: trimLeftFrom n s) := by
  induction n generalizing s with
  | zero =>
    refine ⟨[], fun b hb ↦ (not_mem_nil hb).elim, rfl, fun hs w hw hpre ↦ ?_⟩
    rw [eq_nil_of_length_eq_zero (Nat.le_zero.mp hs)] at hpre
    exact spaces_ne_nil hw (prefix_nil.mp hpre)
  | succ n ih =>
    rw [trimLeftFrom]
    split
    · next w hw =>
      have hmem := mem_of_find?_eq_some hw
      obtain ⟨rest, rfl⟩ := isPrefixOf_iff_prefix.mp
        (List.find?_some (p := fun w : Bytes ↦ w.isPrefixOf s) hw)
      obtain ⟨v, hv, hrest, hfree⟩ := ih rest
      rw [drop_left]
      refine ⟨w ++ v, fun b hb ↦ ?_, by rw [append_assoc, hrest], fun hlen ↦ hfree ?_⟩
      · exact (mem_append.mp hb).elim (not_isSolid_of_mem_spaces hmem) (hv b)
      · have := length_pos_of_ne_nil (spaces_ne_nil hmem)
        rw [length_append] at hlen
        omega
    · next hnone =>
      refine ⟨[], fun b hb ↦ (not_mem_nil hb).elim, rfl, fun _ ↦ ?_⟩
      simpa only [List.find?_eq_none, isPrefixOf_iff_prefix] using hnone

theorem trimRightFrom_spec (n : ℕ) (s : Bytes) :
    ∃ v, (∀ b ∈ v, isSolid b = false) ∧ trimRightFrom n s ++ v = s ∧
      (s.length ≤ n → ∀ w ∈ spaces, ¬w <:+ trimRightFrom n s) := by
  induction n generalizing s with
  | zero =>
    refine ⟨[], fun b hb ↦ (not_mem_nil hb).elim, append_nil _, fun hs w hw hsuf ↦ ?_⟩
    rw [eq_nil_of_length_eq_zero (Nat.le_zero.mp hs)] at hsuf
    exact spaces_ne_nil hw (suffix_nil.mp hsuf)
  | succ n ih =>
    rw [trimRightFrom]
    split
    · next w hw =>
      have hmem := mem_of_find?_eq_some hw
      obtain ⟨rest, rfl⟩ := isSuffixOf_iff_suffix.mp
        (List.find?_some (p := fun w : Bytes ↦ w.isSuffixOf s) hw)
      obtain ⟨v, hv, hrest, hfree⟩ := ih rest
      rw [length_append, Nat.add_sub_cancel, take_left]
      refine ⟨v ++ w, fun b hb ↦ ?_, by rw [← append_assoc, hrest], fun hlen ↦ hfree ?_⟩
      · exact (mem_append.mp hb).elim (hv b) (not_isSolid_of_mem_spaces hmem)
      · have := length_pos_of_ne_nil (spaces_ne_nil hmem)
        omega
    · next hnone =>
      refine ⟨[], fun b hb ↦ (not_mem_nil hb).elim, append_nil _, fun _ ↦ ?_⟩
      simpa only [List.find?_eq_none, isSuffixOf_iff_suffix] using hnone

/-- Trimming takes white space off, and all of it. -/
theorem trimSpace_spec (s : Bytes) :
    ∃ v w, (∀ b ∈ v, isSolid b = false) ∧ (∀ b ∈ w, isSolid b = false) ∧
      v ++ trimSpace s ++ w = s ∧ Trimmed (trimSpace s) := by
  obtain ⟨v, hv, hleft, hpre⟩ := trimLeftFrom_spec s.length s
  obtain ⟨w, hw, hright, hsuf⟩ := trimRightFrom_spec (trimLeftFrom s.length s).length
    (trimLeftFrom s.length s)
  rw [← trimSpace] at hright hsuf
  refine ⟨v, w, hv, hw, by rw [append_assoc, hright, hleft], fun x hx ↦ ⟨fun h ↦ ?_, ?_⟩⟩
  · exact hpre le_rfl x hx (hright ▸ h.trans (prefix_append ..))
  · exact hsuf le_rfl x hx

/-- A second trim changes nothing. -/
theorem trimSpace_trimSpace (s : Bytes) : trimSpace (trimSpace s) = trimSpace s :=
  have ⟨_, _, _, _, _, h⟩ := trimSpace_spec s
  h.trimSpace_eq

theorem length_trimSpace_le (s : Bytes) : (trimSpace s).length ≤ s.length := by
  obtain ⟨v, w, -, -, hs, -⟩ := trimSpace_spec s
  have hlen := congrArg List.length hs
  simp only [length_append] at hlen
  omega

theorem mem_trimSpace (hb : isSolid b) (h : b ∈ s) : b ∈ trimSpace s := by
  obtain ⟨v, w, hv, hw, hs, -⟩ := trimSpace_spec s
  rw [← hs, mem_append, mem_append] at h
  rcases h with (h | h) | h
  · exact absurd hb (by rw [hv b h]; exact false_ne_true)
  · exact h
  · exact absurd hb (by rw [hw b h]; exact false_ne_true)

theorem trimSpace_blank_cons (s : Bytes) : trimSpace (0x20 :: s) = trimSpace s := by
  have hleft : trimLeftFrom (s.length + 1) (0x20 :: s) = trimLeftFrom s.length s := rfl
  rw [trimSpace, trimSpace, length_cons, hleft]

/-! ### Case -/

/-- The upper case of a rune. -/
def upperRune (upper : ℕ → ℕ) (r : ℕ) : ℕ :=
  if 0x61 ≤ r ∧ r ≤ 0x7A then r - 0x20
  else if r < 0x80 then r
  else if r = 0x17F then 0x53
  else upper r

/-- `strings.ToUpper` -/
def toUpper (upper : ℕ → ℕ) (s : Bytes) : Bytes :=
  (Utf8.runes s).flatMap fun r ↦ Utf8.encodeRune (upperRune upper r)

/-- The upper case of an ASCII letter. -/
def upperByte (b : UInt8) : UInt8 :=
  if 0x61 ≤ b ∧ b ≤ 0x7A then b - 0x20 else b

@[simp] theorem toUpper_nil (upper : ℕ → ℕ) : toUpper upper [] = [] := rfl

variable {upper : ℕ → ℕ}

theorem encodeRune_upperRune_ascii (hb : b < 0x80) :
    Utf8.encodeRune (upperRune upper b.toNat) = [upperByte b] := by
  have hb : b.toNat < 0x80 := UInt8.lt_iff_toNat_lt.mp hb
  have hrune : upperRune upper b.toNat = (upperByte b).toNat := by
    by_cases hletter : 0x61 ≤ b ∧ b ≤ 0x7A
    · have hlow : 0x61 ≤ b.toNat := UInt8.le_iff_toNat_le.mp hletter.1
      have hhigh : b.toNat ≤ 0x7A := UInt8.le_iff_toNat_le.mp hletter.2
      rw [upperRune, if_pos ⟨hlow, hhigh⟩, upperByte, if_pos hletter, UInt8.toNat_sub_of_le]
      · rfl
      · exact UInt8.le_iff_toNat_le.mpr (le_trans (by decide) hlow)
    · rw [upperRune, if_neg, if_pos hb, upperByte, if_neg hletter]
      exact fun h ↦ hletter ⟨UInt8.le_iff_toNat_le.mpr h.1, UInt8.le_iff_toNat_le.mpr h.2⟩
  have hlt : (upperByte b).toNat < 0x80 := by
    rw [← hrune, upperRune]
    split <;> omega
  rw [hrune, Utf8.encodeRune_ascii hlt, UInt8.ofNat_toNat]

theorem toUpper_cons (hb : b < 0x80) (s : Bytes) :
    toUpper upper (b :: s) = upperByte b :: toUpper upper s := by
  rw [toUpper, Utf8.runes_cons_ascii hb, flatMap_cons, encodeRune_upperRune_ascii hb]
  rfl

theorem toUpper_longS (s : Bytes) :
    toUpper upper (0xC5 :: 0xBF :: s) = 0x53 :: toUpper upper s := by
  rw [toUpper, Utf8.runes_longS, flatMap_cons]
  rfl

theorem toUpper_append {a : Bytes} (ha : ∀ b ∈ a, b < 0x80) (s : Bytes) :
    toUpper upper (a ++ s) = a.map upperByte ++ toUpper upper s := by
  induction a with
  | nil => rfl
  | cons b a ih =>
    obtain ⟨hb, ha⟩ := forall_mem_cons.mp ha
    rw [cons_append, toUpper_cons hb, ih ha]
    rfl

/-! ### Replacing -/

/-- `strings.ReplaceAll` for a text of at most `n` bytes. -/
def replaceAllFrom (old new : Bytes) : ℕ → Bytes → Bytes
  | 0, s => s
  | _ + 1, [] => []
  | n + 1, b :: s =>
    if old.isPrefixOf (b :: s) then
      new ++ replaceAllFrom old new n ((b :: s).drop old.length)
    else
      b :: replaceAllFrom old new n s

/-- `strings.ReplaceAll`, for what to replace not empty. -/
def replaceAll (old new s : Bytes) : Bytes :=
  replaceAllFrom old new s.length s

theorem replaceAllFrom_eq {old new : Bytes} (hold : old ≠ []) {n m : ℕ} (hn : s.length ≤ n)
    (hm : s.length ≤ m) : replaceAllFrom old new n s = replaceAllFrom old new m s := by
  induction n generalizing m s with
  | zero =>
    cases eq_nil_of_length_eq_zero (Nat.le_zero.mp hn)
    cases m <;> rfl
  | succ n ih =>
    cases s with
    | nil => cases m <;> rfl
    | cons b s =>
      obtain ⟨m, rfl⟩ : ∃ k, m = k + 1 := Nat.exists_eq_succ_of_ne_zero (by rintro rfl; cases hm)
      have hn : s.length ≤ n := Nat.le_of_succ_le_succ hn
      have hm : s.length ≤ m := Nat.le_of_succ_le_succ hm
      have hdrop : ((b :: s).drop old.length).length ≤ s.length := by
        have := length_pos_of_ne_nil hold
        rw [length_drop, length_cons]
        omega
      rw [replaceAllFrom, replaceAllFrom, ih hn hm, ih (hdrop.trans hn) (hdrop.trans hm)]

theorem replaceAll_append {old : Bytes} (hold : old ≠ []) (new s : Bytes) :
    replaceAll old new (old ++ s) = new ++ replaceAll old new s := by
  obtain ⟨b, old', rfl⟩ := exists_cons_of_ne_nil hold
  have hpre : (b :: old').isPrefixOf (b :: (old' ++ s)) :=
    isPrefixOf_iff_prefix.mpr (prefix_append (b :: old') s)
  rw [replaceAll, cons_append, length_cons, replaceAllFrom, if_pos hpre,
    ← cons_append, drop_left, replaceAll, replaceAllFrom_eq hold _ le_rfl]
  simp

theorem replaceAll_cons {old : Bytes} (new : Bytes) (h : ¬old <+: b :: s) :
    replaceAll old new (b :: s) = b :: replaceAll old new s := by
  rw [replaceAll, length_cons, replaceAllFrom,
    if_neg (mt isPrefixOf_iff_prefix.mp h), replaceAll]

/-- A text in which there is nothing to replace. -/
theorem replaceAll_eq_self {old new : Bytes} (h : ¬old <:+: s) : replaceAll old new s = s := by
  induction s with
  | nil => rfl
  | cons b s ih =>
    rw [replaceAll_cons new fun hpre ↦ h hpre.isInfix,
      ih fun hs ↦ h (hs.trans (suffix_cons b s).isInfix)]

/-- Replacing one byte. -/
theorem replaceAll_singleton (b : UInt8) (new s : Bytes) :
    replaceAll [b] new s = s.flatMap fun c ↦ if c = b then new else [c] := by
  induction s with
  | nil => rfl
  | cons c s ih =>
    rw [flatMap_cons, ← ih]
    by_cases hc : c = b
    · subst hc
      rw [if_pos rfl, ← replaceAll_append (cons_ne_nil _ _), singleton_append]
    · rw [if_neg hc, replaceAll_cons new (by simpa using Ne.symm hc), singleton_append]

/-! ### Cutting -/

/-- `strings.Cut` at a byte: what stands before and after its first occurrence. -/
def cut (c : UInt8) (s : Bytes) : Option (Bytes × Bytes) :=
  match s.dropWhile (· != c) with
  | [] => none
  | _ :: after => some (s.takeWhile (· != c), after)

theorem cut_append {c : UInt8} {a : Bytes} (ha : c ∉ a) (b : Bytes) :
    cut c (a ++ c :: b) = some (a, b) := by
  have hne : ∀ x ∈ a, (x != c) = true := fun x hx ↦ bne_iff_ne.mpr fun heq ↦ ha (heq ▸ hx)
  have hstop : ¬(c != c) = true := by simp
  rw [cut, dropWhile_append_of_pos hne, dropWhile_cons_of_neg (p := (· != c)) hstop,
    takeWhile_append_of_pos hne, takeWhile_cons_of_neg (p := (· != c)) hstop,
    append_nil]

theorem cut_eq_none {c : UInt8} (hs : c ∉ s) : cut c s = none := by
  have hdrop : s.dropWhile (· != c) = [] :=
    dropWhile_eq_nil_iff.mpr fun x hx ↦ bne_iff_ne.mpr fun heq ↦ hs (heq ▸ hx)
  rw [cut, hdrop]

/-- What stands before and after the last occurrence of a byte. -/
def cutLast (c : UInt8) (s : Bytes) : Option (Bytes × Bytes) :=
  match s.reverse.dropWhile (· != c) with
  | [] => none
  | _ :: before => some (before.reverse, (s.reverse.takeWhile (· != c)).reverse)

theorem eq_of_cutLast {c : UInt8} {a b : Bytes} (h : cutLast c s = some (a, b)) :
    s = a ++ c :: b := by
  rw [cutLast] at h
  split at h
  · cases h
  · next d before hdrop =>
    cases h
    have hd : d = c := by
      have := List.head?_dropWhile_not (fun x ↦ x != c) s.reverse
      rw [hdrop] at this
      simpa using this
    have hs := takeWhile_append_dropWhile (p := fun x ↦ x != c) (l := s.reverse)
    rw [hdrop, hd] at hs
    have hs := congrArg List.reverse hs
    rw [reverse_reverse, reverse_append, reverse_cons, append_assoc,
      singleton_append] at hs
    exact hs.symm

theorem cutLast_append {c : UInt8} {b : Bytes} (hb : c ∉ b) (a : Bytes) :
    cutLast c (a ++ c :: b) = some (a, b) := by
  have hne : ∀ x ∈ b.reverse, (x != c) = true := fun x hx ↦
    bne_iff_ne.mpr fun heq ↦ hb (heq ▸ mem_reverse.mp hx)
  have hstop : ¬(c != c) = true := by simp
  have hrev : (a ++ c :: b).reverse = b.reverse ++ c :: a.reverse := by
    rw [reverse_append, reverse_cons, append_assoc, singleton_append]
  rw [cutLast, hrev, dropWhile_append_of_pos hne, dropWhile_cons_of_neg (p := (· != c))
    hstop, takeWhile_append_of_pos hne, takeWhile_cons_of_neg (p := (· != c)) hstop,
    append_nil,
    reverse_reverse]
  dsimp only
  rw [reverse_reverse]

/-! ### Joining -/

/-- `strings.Join` -/
def join (sep : Bytes) : List Bytes → Bytes
  | [] => []
  | a :: l => a ++ l.flatMap (sep ++ ·)

theorem join_cons (sep a : Bytes) (l : List Bytes) :
    join sep (a :: l) = a ++ l.flatMap (sep ++ ·) := rfl

/-! ### Sorting -/

/-- The order of strings. -/
def le : Bytes → Bytes → Bool
  | [], _ => true
  | _ :: _, [] => false
  | a :: s, b :: t => a < b || (a == b && le s t)

theorem le_antisymm {t : Bytes} (hst : le s t) (hts : le t s) : s = t := by
  induction s generalizing t with
  | nil =>
    cases t with
    | nil => rfl
    | cons => cases hts
  | cons a s ih =>
    cases t with
    | nil => cases hst
    | cons b t =>
      simp only [le, or_eq_true, decide_eq_true_eq, and_eq_true, beq_iff_eq] at *
      rcases hst with hab | ⟨rfl, hst⟩
      · rcases hts with hba | ⟨rfl, -⟩
        · exact absurd (UInt8.lt_trans hab hba) (UInt8.lt_irrefl a)
        · exact absurd hab (UInt8.lt_irrefl _)
      · rcases hts with hba | ⟨-, hts⟩
        · exact absurd hba (UInt8.lt_irrefl _)
        · rw [ih hst hts]

/-- `sort.Strings` -/
def sort (l : List Bytes) : List Bytes :=
  l.insertionSort (le · ·)

theorem perm_sort (l : List Bytes) : (sort l).Perm l :=
  perm_insertionSort _ _

/-! ### Numbers -/

/-- The decimal form of a number. -/
def decimal (n : ℕ) : Bytes :=
  (Nat.toDigits 10 n).map fun c ↦ .ofNat c.toNat

end Text
