import GoBricks.Lib.Json.Scan

/-!
# Parsing

The parser of `Json.Syn`, one recursion for the three categories. It takes the longest text of its
category off the front of a byte string, and refuses arrays and objects that nest deeper than a
given limit.

It is tied to the grammar in both directions: what it returns stands in the input
(`text_of_parse`), and a text of the grammar that nests no deeper than the limit is what it returns
(`parse_text`). That the grammar is unambiguous follows, since the parser is a function.
-/

namespace Json

open Scanner

/-! ### Pieces -/

/-- A scanner that returns its token together with what it knows of it. -/
def Scanner.attach {P : Bytes → Prop} (s : Scanner) (h : s.Sound P) (bs : Bytes) :
    Option ({ t : Bytes // P t } × Bytes) :=
  match hs : s bs with
  | none => none
  | some (t, r) => some (⟨t, (h hs).2⟩, r)

variable {bs r : Bytes}

theorem Scanner.attach_eq_some_iff {P : Bytes → Prop} {s : Scanner} {h : s.Sound P}
    {t : { t : Bytes // P t }} : s.attach h bs = some (t, r) ↔ s bs = some (t.1, r) := by
  unfold Scanner.attach
  split
  · next hs => simp [hs]
  · next t' r' hs => simp [hs, Subtype.ext_iff]

/-- The rest of a text that starts with the byte. -/
def expect (b : UInt8) : Bytes → Option Bytes
  | [] => none
  | c :: r => if c = b then some r else none

@[simp] theorem expect_self (b : UInt8) (r : Bytes) : expect b (b :: r) = some r := by
  simp [expect]

theorem expect_eq_some_iff {b : UInt8} : expect b bs = some r ↔ bs = b :: r := by
  cases bs with
  | nil | cons c bs => simp [expect]

theorem expect_eq_none {b c : UInt8} (h : c ≠ b) : expect b (c :: r) = none := by
  simp [expect, h]

/-- A member up to its value, without the whitespace before the value. -/
def scanName (bs : Bytes) : Option (Name × Bytes) := do
  let (key, r) ← scanString.attach scanString_sound (skip bs)
  let r' ← expect 0x3A (skip r)
  return (⟨blank bs, key, blank r, blank r'⟩, skip r')

theorem text_of_scanName {n : Name} (h : scanName bs = some (n, r)) : bs = n.text ++ r := by
  simp only [scanName, bind, pure, Option.bind_eq_some_iff, Option.some.injEq, Prod.mk.injEq,
    Prod.exists] at h
  obtain ⟨key, r₁, hkey, r₂, hcolon, rfl, rfl⟩ := h
  have h₁ := (scanString_sound (attach_eq_some_iff.mp hkey)).1
  have h₂ := expect_eq_some_iff.mp hcolon
  calc bs = (blank bs).1 ++ skip bs := (blank_append_skip bs).symm
    _ = (blank bs).1 ++ (key.1 ++ r₁) := by rw [h₁]
    _ = (blank bs).1 ++ (key.1 ++ ((blank r₁).1 ++ 0x3A :: r₂)) := by
      rw [← h₂, blank_append_skip]
    _ = (blank bs).1 ++ (key.1 ++ ((blank r₁).1 ++ 0x3A :: ((blank r₂).1 ++ skip r₂))) := by
      rw [blank_append_skip r₂]
    _ = _ := by simp [Name.text]

theorem IsString.dense {t : Bytes} (h : IsString t) : Dense (t ++ r) := by
  obtain ⟨w, -, rfl⟩ := h
  exact dense_cons (by decide)

theorem scanName_text (n : Name) (hr : Dense r) : scanName (n.text ++ r) = some (n, r) := by
  have e : n.text ++ r = n.lead.1 ++ (n.key.1 ++ (n.post.1 ++ 0x3A :: (n.inner.1 ++ r))) := by
    simp [Name.text]
  have hkey : scanString.attach scanString_sound
      (n.key.1 ++ (n.post.1 ++ 0x3A :: (n.inner.1 ++ r))) =
        some (n.key, n.post.1 ++ 0x3A :: (n.inner.1 ++ r)) :=
    attach_eq_some_iff.mpr (scanString_complete n.key.2 trivial)
  have hcolon : Dense (0x3A :: (n.inner.1 ++ r)) := dense_cons (by decide)
  rw [e, scanName, skip_blank_append n.lead n.key.2.dense, blank_blank_append n.lead n.key.2.dense,
    hkey]
  simp [skip_blank_append n.post hcolon, blank_blank_append n.post hcolon,
    skip_blank_append n.inner hr, blank_blank_append n.inner hr]

/-! ### The parser -/

/-- Parses a text of the category off the front of a byte string. Arrays and objects may nest `d`
deep; the first argument bounds the recursion. -/
def parse : ℕ → (c : Cat) → (d : ℕ) → Bytes → Option (Syn c × Bytes)
  | 0, _, _, _ => none
  | fuel + 1, .value, d, bs =>
    match expect 0x5B bs, expect 0x7B bs, d with
    | some _, _, 0 => none
    | some bs, _, d + 1 =>
      match expect 0x5D (skip bs) with
      | some r => some (.emptyArray (blank bs), r)
      | none => do
        let (es, r) ← parse fuel .elements d bs
        let r ← expect 0x5D r
        return (.array es, r)
    | none, some _, 0 => none
    | none, some bs, d + 1 =>
      match expect 0x7D (skip bs) with
      | some r => some (.emptyObject (blank bs), r)
      | none => do
        let (ms, r) ← parse fuel .members d bs
        let r ← expect 0x7D r
        return (.object ms, r)
    | none, none, _ => do
      let (s, r) ← scanScalar.attach scanScalar_sound bs
      return (.scalar s, r)
  | fuel + 1, .elements, d, bs => do
    let (v, r) ← parse fuel .value d (skip bs)
    match expect 0x2C (skip r) with
    | some r' => do
      let (es, r') ← parse fuel .elements d r'
      return (.element (blank bs) v (blank r) es, r')
    | none => return (.lastElement (blank bs) v (blank r), skip r)
  | fuel + 1, .members, d, bs => do
    let (n, r) ← scanName bs
    let (v, r) ← parse fuel .value d r
    match expect 0x2C (skip r) with
    | some r' => do
      let (ms, r') ← parse fuel .members d r'
      return (.member n v (blank r) ms, r')
    | none => return (.lastMember n v (blank r), skip r)

/-- What the parser returns stands at the front of its input, and nests no deeper than allowed. -/
theorem text_of_parse {fuel : ℕ} {c : Cat} {d : ℕ} {t : Syn c}
    (h : parse fuel c d bs = some (t, r)) : bs = t.text ++ r ∧ t.depth ≤ d := by
  -- On the fuel, since a call reads one node of the tree.
  induction fuel generalizing c d bs r with
  | zero => cases h
  | succ fuel ih =>
    cases c with
    | value =>
      unfold parse at h
      split at h
      · cases h
      · next bs' d hopen =>
        obtain rfl := expect_eq_some_iff.mp hopen
        split at h
        · next r' hclose =>
          obtain ⟨rfl, rfl⟩ : .emptyArray (blank bs') = t ∧ r' = r := by simpa using h
          have := blank_append_skip bs'
          rw [expect_eq_some_iff.mp hclose] at this
          exact ⟨by simp [Syn.text, this], by simp [Syn.depth]⟩
        · simp only [bind, pure, Option.bind_eq_some_iff, Option.some.injEq, Prod.mk.injEq,
            Prod.exists] at h
          obtain ⟨es, r₁, hes, r₂, hclose, rfl, rfl⟩ := h
          obtain ⟨rfl, hd⟩ := ih hes
          rw [expect_eq_some_iff.mp hclose]
          exact ⟨by simp [Syn.text], by simpa [Syn.depth] using hd⟩
      · cases h
      · next bs' d _ hopen =>
        obtain rfl := expect_eq_some_iff.mp hopen
        split at h
        · next r' hclose =>
          obtain ⟨rfl, rfl⟩ : .emptyObject (blank bs') = t ∧ r' = r := by simpa using h
          have := blank_append_skip bs'
          rw [expect_eq_some_iff.mp hclose] at this
          exact ⟨by simp [Syn.text, this], by simp [Syn.depth]⟩
        · simp only [bind, pure, Option.bind_eq_some_iff, Option.some.injEq, Prod.mk.injEq,
            Prod.exists] at h
          obtain ⟨ms, r₁, hms, r₂, hclose, rfl, rfl⟩ := h
          obtain ⟨rfl, hd⟩ := ih hms
          rw [expect_eq_some_iff.mp hclose]
          exact ⟨by simp [Syn.text], by simpa [Syn.depth] using hd⟩
      · simp only [bind, pure, Option.bind_eq_some_iff, Option.some.injEq, Prod.mk.injEq,
          Prod.exists] at h
        obtain ⟨s, r₁, hs, rfl, rfl⟩ := h
        exact ⟨(scanScalar_sound (attach_eq_some_iff.mp hs)).1, Nat.zero_le _⟩
    | elements =>
      rw [parse] at h
      simp only [bind, pure, Option.bind_eq_some_iff, Prod.exists] at h
      obtain ⟨v, r₁, hv, h⟩ := h
      obtain ⟨hv, hvd⟩ := ih hv
      have hr₁ := blank_append_skip r₁
      split at h
      · next r₂ hcomma =>
        simp only [Option.bind_eq_some_iff, Option.some.injEq, Prod.mk.injEq, Prod.exists] at h
        obtain ⟨es, r₃, hes, rfl, rfl⟩ := h
        obtain ⟨rfl, hesd⟩ := ih hes
        rw [expect_eq_some_iff.mp hcomma] at hr₁
        refine ⟨?_, Nat.max_le.mpr ⟨hvd, hesd⟩⟩
        calc bs = (blank bs).1 ++ (v.text ++ r₁) := by rw [← hv, blank_append_skip]
          _ = (blank bs).1 ++ (v.text ++ ((blank r₁).1 ++ 0x2C :: (es.text ++ r₃))) := by rw [hr₁]
          _ = _ := by simp [Syn.text]
      · obtain ⟨rfl, rfl⟩ : .lastElement (blank bs) v (blank r₁) = t ∧ skip r₁ = r := by
          simpa using h
        refine ⟨?_, hvd⟩
        calc bs = (blank bs).1 ++ (v.text ++ r₁) := by rw [← hv, blank_append_skip]
          _ = (blank bs).1 ++ (v.text ++ ((blank r₁).1 ++ skip r₁)) := by rw [hr₁]
          _ = _ := by simp [Syn.text]
    | members =>
      rw [parse] at h
      simp only [bind, pure, Option.bind_eq_some_iff, Prod.exists] at h
      obtain ⟨n, r₀, hn, v, r₁, hv, h⟩ := h
      obtain rfl := text_of_scanName hn
      obtain ⟨rfl, hvd⟩ := ih hv
      have hr₁ := blank_append_skip r₁
      split at h
      · next r₂ hcomma =>
        simp only [Option.bind_eq_some_iff, Option.some.injEq, Prod.mk.injEq, Prod.exists] at h
        obtain ⟨ms, r₃, hms, rfl, rfl⟩ := h
        obtain ⟨rfl, hmsd⟩ := ih hms
        rw [expect_eq_some_iff.mp hcomma] at hr₁
        refine ⟨?_, Nat.max_le.mpr ⟨hvd, hmsd⟩⟩
        calc n.text ++ (v.text ++ r₁)
            = n.text ++ (v.text ++ ((blank r₁).1 ++ 0x2C :: (ms.text ++ r₃))) := by rw [hr₁]
          _ = _ := by simp [Syn.text]
      · obtain ⟨rfl, rfl⟩ : .lastMember n v (blank r₁) = t ∧ skip r₁ = r := by simpa using h
        refine ⟨?_, hvd⟩
        calc n.text ++ (v.text ++ r₁)
            = n.text ++ (v.text ++ ((blank r₁).1 ++ skip r₁)) := by rw [hr₁]
          _ = _ := by simp [Syn.text]

/-! ### Completeness -/

/-- How a token that is a value starts: not like whitespace, a separator or a delimiter. -/
theorem IsScalar.head {t : Bytes} (ht : IsScalar t) :
    ∃ b w, t = b :: w ∧ isSpace b = false ∧ b ≠ 0x5B ∧ b ≠ 0x5D ∧ b ≠ 0x7B ∧ b ≠ 0x7D := by
  rcases ht with ht | ⟨w, -, rfl⟩ | ht
  · simp only [literals, List.mem_cons, List.not_mem_nil, or_false] at ht
    rcases ht with rfl | rfl | rfl <;> exact ⟨_, _, rfl, by decide⟩
  · exact ⟨_, _, rfl, by decide⟩
  · obtain ⟨b, w, rfl, hb⟩ := ht.head
    refine ⟨b, w, rfl, ?_⟩
    rcases hb with rfl | hb
    · decide
    · refine ⟨?_, ?_, ?_, ?_, ?_⟩
      · rw [Bool.eq_false_iff]
        intro hs
        have hs : b = 0x20 ∨ b = 0x09 ∨ b = 0x0A ∨ b = 0x0D := by
          simpa [isSpace, or_assoc] using hs
        rcases hs with rfl | rfl | rfl | rfl <;> cases hb
      all_goals rintro rfl; cases hb

namespace Syn

/-- How a value starts: not like whitespace or a closing delimiter. -/
theorem head_value (v : Value) :
    ∃ b w, v.text = b :: w ∧ isSpace b = false ∧ b ≠ 0x5D ∧ b ≠ 0x7D := by
  cases v with
  | scalar s =>
    obtain ⟨b, w, h, hs, -, hb, -, hb'⟩ := s.2.head
    exact ⟨b, w, h, hs, hb, hb'⟩
  | emptyArray b | array es | emptyObject b | object ms => exact ⟨_, _, rfl, by decide⟩

theorem dense_value (v : Value) (r : Bytes) : Dense (v.text ++ r) := by
  obtain ⟨b, w, h, hs, -⟩ := v.head_value
  rw [h]
  exact dense_cons hs

/-- The recursion a text takes to parse. -/
def size : {c : Cat} → Syn c → ℕ
  | _, scalar _ => 1
  | _, emptyArray _ => 1
  | _, array es => es.size + 1
  | _, emptyObject _ => 1
  | _, object ms => ms.size + 1
  | _, lastElement _ v _ => v.size + 1
  | _, element _ v _ es => v.size + es.size + 1
  | _, lastMember _ v _ => v.size + 1
  | _, member _ v _ ms => v.size + ms.size + 1

/-- What a text of the category is followed by. -/
def Ends : Cat → Bytes → Prop
  | .value, r => Follows r
  | .elements, r => ∃ r', r = 0x5D :: r'
  | .members, r => ∃ r', r = 0x7D :: r'

/-- The first element of an array does not look like the end of it. -/
theorem expect_close_elements (es : Syn .elements) (r : Bytes) :
    expect 0x5D (skip (es.text ++ r)) = none := by
  cases es with
  | lastElement lead v trail =>
    obtain ⟨b, w, hv, -, hb, -⟩ := v.head_value
    have e : (lastElement lead v trail).text ++ r = lead.1 ++ (v.text ++ (trail.1 ++ r)) := by
      simp [text]
    rw [e, skip_blank_append lead (v.dense_value _), hv]
    exact expect_eq_none hb
  | element lead v trail es =>
    obtain ⟨b, w, hv, -, hb, -⟩ := v.head_value
    have e : (element lead v trail es).text ++ r =
        lead.1 ++ (v.text ++ (trail.1 ++ 0x2C :: (es.text ++ r))) := by
      simp [text]
    rw [e, skip_blank_append lead (v.dense_value _), hv]
    exact expect_eq_none hb

theorem expect_close_name (n : Name) (r : Bytes) : expect 0x7D (skip (n.text ++ r)) = none := by
  have e : n.text ++ r = n.lead.1 ++ (n.key.1 ++ (n.post.1 ++ 0x3A :: (n.inner.1 ++ r))) := by
    simp [Name.text]
  rw [e, skip_blank_append n.lead n.key.2.dense]
  obtain ⟨w, -, hw⟩ := n.key.2
  rw [hw]
  exact expect_eq_none (by decide)

/-- The first member of an object does not look like the end of it. -/
theorem expect_close_members (ms : Syn .members) (r : Bytes) :
    expect 0x7D (skip (ms.text ++ r)) = none := by
  cases ms with
  | lastMember n v trail | member n v trail ms =>
    rw [text, List.append_assoc]
    exact expect_close_name n _

/-- Whitespace before a closing delimiter is all the whitespace there is. -/
theorem blank_close {b : UInt8} (r : Bytes) (trail : Blank) (hs : isSpace b = false) :
    blank (trail.1 ++ b :: r) = trail ∧ skip (trail.1 ++ b :: r) = b :: r :=
  ⟨blank_blank_append trail (dense_cons hs), skip_blank_append trail (dense_cons hs)⟩

/-- A recursion bound that is large enough for something has a predecessor. -/
theorem exists_fuel {n fuel : ℕ} (h : n + 1 ≤ fuel) : ∃ k, fuel = k + 1 ∧ n ≤ k :=
  match fuel, h with
  | k + 1, h => ⟨k, rfl, Nat.le_of_succ_le_succ h⟩

/-- A text of the grammar that nests no deeper than allowed is what the parser returns. -/
theorem parse_text {c : Cat} (t : Syn c) {fuel d : ℕ} (hfuel : t.size ≤ fuel) (hd : t.depth ≤ d)
    (hr : Ends c r) : parse fuel c d (t.text ++ r) = some (t, r) := by
  -- On the tree; `Ends` says what may stand after a node.
  induction t generalizing fuel d r with
  | scalar s =>
    obtain ⟨fuel, rfl, -⟩ := exists_fuel hfuel
    obtain ⟨b, w, hw, -, hb, -, hb', -⟩ := s.2.head
    have hs : scanScalar.attach scanScalar_sound (s.1 ++ r) = some (s, r) :=
      attach_eq_some_iff.mpr (scanScalar_complete s.2 hr)
    have harr : expect 0x5B (s.1 ++ r) = none := by rw [hw]; exact expect_eq_none hb
    have hobj : expect 0x7B (s.1 ++ r) = none := by rw [hw]; exact expect_eq_none hb'
    unfold parse
    simp [text, hs, harr, hobj]
  | emptyArray b =>
    obtain ⟨fuel, rfl, -⟩ := exists_fuel hfuel
    obtain ⟨d, rfl, -⟩ := exists_fuel hd
    have hclose : Dense (0x5D :: r) := dense_cons (by decide)
    unfold parse
    simp [text, skip_blank_append b hclose, blank_blank_append b hclose]
  | array es ih =>
    obtain ⟨fuel, rfl, hk⟩ := exists_fuel hfuel
    obtain ⟨d, rfl, hd'⟩ := exists_fuel hd
    have hes := ih hk hd' (r := 0x5D :: r) ⟨r, rfl⟩
    unfold parse
    simp [text, expect_close_elements, hes]
  | emptyObject b =>
    obtain ⟨fuel, rfl, -⟩ := exists_fuel hfuel
    obtain ⟨d, rfl, -⟩ := exists_fuel hd
    have hclose : Dense (0x7D :: r) := dense_cons (by decide)
    have hopen : expect 0x5B (0x7B :: (b.1 ++ 0x7D :: r)) = none := expect_eq_none (by decide)
    unfold parse
    simp [text, hopen, skip_blank_append b hclose, blank_blank_append b hclose]
  | object ms ih =>
    obtain ⟨fuel, rfl, hk⟩ := exists_fuel hfuel
    obtain ⟨d, rfl, hd'⟩ := exists_fuel hd
    have hms := ih hk hd' (r := 0x7D :: r) ⟨r, rfl⟩
    have hopen : expect 0x5B (0x7B :: (ms.text ++ 0x7D :: r)) = none := expect_eq_none (by decide)
    unfold parse
    simp [text, hopen, expect_close_members, hms]
  | lastElement lead v trail ih =>
    obtain ⟨fuel, rfl, hk⟩ := exists_fuel hfuel
    obtain ⟨r, rfl⟩ := hr
    have hcomma : expect 0x2C (0x5D :: r) = none := expect_eq_none (by decide)
    obtain ⟨hblank, hskip⟩ := blank_close (b := 0x5D) r trail (by decide)
    have hv := ih hk hd (r := trail.1 ++ 0x5D :: r) (follows_cons (by decide) |>.blank trail)
    have e : (lastElement lead v trail).text ++ 0x5D :: r =
        lead.1 ++ (v.text ++ (trail.1 ++ 0x5D :: r)) := by
      simp [text]
    rw [e, parse, skip_blank_append lead (v.dense_value _), hv]
    simp [hcomma, hblank, hskip, blank_blank_append lead (v.dense_value _)]
  | element lead v trail es ihv ihes =>
    obtain ⟨fuel, rfl, hk⟩ := exists_fuel hfuel
    obtain ⟨hvd, hesd⟩ := Nat.max_le.mp hd
    have hdense : Dense (0x2C :: (es.text ++ r)) := dense_cons (by decide)
    have hv := ihv (Nat.le_of_add_right_le hk) hvd (r := trail.1 ++ 0x2C :: (es.text ++ r))
      (follows_cons (by decide) |>.blank trail)
    have hes := ihes (Nat.le_of_add_left_le hk) hesd hr
    have e : (element lead v trail es).text ++ r =
        lead.1 ++ (v.text ++ (trail.1 ++ 0x2C :: (es.text ++ r))) := by
      simp [text]
    rw [e, parse, skip_blank_append lead (v.dense_value _), hv]
    simp [skip_blank_append trail hdense, blank_blank_append trail hdense, hes,
      blank_blank_append lead (v.dense_value _)]
  | lastMember n v trail ih =>
    obtain ⟨fuel, rfl, hk⟩ := exists_fuel hfuel
    obtain ⟨r, rfl⟩ := hr
    have hcomma : expect 0x2C (0x7D :: r) = none := expect_eq_none (by decide)
    obtain ⟨hblank, hskip⟩ := blank_close (b := 0x7D) r trail (by decide)
    have hv := ih hk hd (r := trail.1 ++ 0x7D :: r) (follows_cons (by decide) |>.blank trail)
    have e : (lastMember n v trail).text ++ 0x7D :: r =
        n.text ++ (v.text ++ (trail.1 ++ 0x7D :: r)) := by
      simp [text]
    rw [e, parse, scanName_text n (v.dense_value _)]
    simp [hv, hcomma, hblank, hskip]
  | member n v trail ms ihv ihms =>
    obtain ⟨fuel, rfl, hk⟩ := exists_fuel hfuel
    obtain ⟨hvd, hmsd⟩ := Nat.max_le.mp hd
    have hdense : Dense (0x2C :: (ms.text ++ r)) := dense_cons (by decide)
    have hv := ihv (Nat.le_of_add_right_le hk) hvd (r := trail.1 ++ 0x2C :: (ms.text ++ r))
      (follows_cons (by decide) |>.blank trail)
    have hms := ihms (Nat.le_of_add_left_le hk) hmsd hr
    have e : (member n v trail ms).text ++ r =
        n.text ++ (v.text ++ (trail.1 ++ 0x2C :: (ms.text ++ r))) := by
      simp [text]
    rw [e, parse, scanName_text n (v.dense_value _)]
    simp [hv, skip_blank_append trail hdense, blank_blank_append trail hdense, hms]

/-- A text is at least half as long as its parse is deep in recursion. -/
theorem size_le {c : Cat} (t : Syn c) :
    t.size + (match c with | .value => 1 | _ => 0) ≤ 2 * t.text.length := by
  induction t with
  | scalar s =>
    obtain ⟨b, w, hw, -⟩ := s.2.head
    simp only [size, text, hw, List.length_cons]
    omega
  | emptyArray b =>
    simp only [size, text, List.length_cons]
    omega
  | array es ih => simp [size, text] at ih ⊢; omega
  | emptyObject b =>
    simp only [size, text, List.length_cons]
    omega
  | object ms ih | lastElement lead v trail ih => simp [size, text] at ih ⊢; omega
  | element lead v trail es ihv ihes => simp [size, text] at ihv ihes ⊢; omega
  | lastMember n v trail ih => simp [size, text] at ih ⊢; omega
  | member n v trail ms ihv ihms => simp [size, text] at ihv ihms ⊢; omega

end Syn

/-! ### Values -/

/-- Parses a value off the front of a byte string, with arrays and objects nesting at most `d`
deep. -/
def parseValue (d : ℕ) (bs : Bytes) : Option (Value × Bytes) :=
  parse (2 * bs.length) .value d bs

/-- What is parsed is the text of a value. -/
theorem text_of_parseValue {d : ℕ} {v : Value} (h : parseValue d bs = some (v, r)) :
    bs = v.text ++ r ∧ v.depth ≤ d :=
  text_of_parse h

/-- The text of a value is parsed. -/
theorem parseValue_text {d : ℕ} (v : Value) (hd : v.depth ≤ d) (hr : Follows r) :
    parseValue d (v.text ++ r) = some (v, r) := by
  have hsize := v.size_le
  refine v.parse_text ?_ hd hr
  rw [List.length_append]
  omega

/-- A byte string is a value in one way only, whatever may follow it. -/
theorem text_append_inj {v v' : Value} {r' : Bytes} (hr : Follows r) (hr' : Follows r')
    (h : v.text ++ r = v'.text ++ r') : v = v' ∧ r = r' := by
  have e := parseValue_text v (Nat.le_max_left v.depth v'.depth) hr
  rw [h, parseValue_text v' (Nat.le_max_right v.depth v'.depth) hr'] at e
  simpa [eq_comm] using e

end Json
