import GoBricks.Lib.Json.Decoder

/-!
# Objects as lists of members

The members of an object as a list, with the text of the object put together from it, and what the
streaming decoder does on each of its members.

The decoder is described piece by piece, in both directions: on the text of a member it returns its
name and its value (`token_name`, `decode_value`), and where it returns a name and a value the text
of a member stands (`name_of_token`, `value_of_decode`).
-/

namespace Json

/-! ### Members -/

/-- A member of an object, up to the separator after it. -/
structure Member where
  name : Name
  value : Value
  trail : Blank

/-- The text of a member. -/
def Member.text (m : Member) : Bytes :=
  m.name.text ++ (m.value.text ++ m.trail.1)

/-- Members that follow another, each with its comma. -/
def tailText (ms : List Member) : Bytes :=
  ms.flatMap fun m ↦ 0x2C :: m.text

@[simp] theorem tailText_nil : tailText [] = [] := rfl

@[simp] theorem tailText_cons (m : Member) (ms : List Member) :
    tailText (m :: ms) = 0x2C :: (m.text ++ tailText ms) := by
  simp [tailText]

/-- The text between the braces of an object with members. -/
def membersText : List Member → Bytes
  | [] => []
  | m :: ms => m.text ++ tailText ms

namespace Syn

/-- The members of an object in order. -/
def toList : Syn .members → List Member
  | lastMember n v trail => [⟨n, v, trail⟩]
  | member n v trail ms => ⟨n, v, trail⟩ :: ms.toList

/-- The members of an object from a list. -/
def ofList : Member → List Member → Syn .members
  | m, [] => lastMember m.name m.value m.trail
  | m, m' :: ms => member m.name m.value m.trail (ofList m' ms)

theorem text_ofList (m : Member) (ms : List Member) :
    (ofList m ms).text = m.text ++ tailText ms := by
  induction ms generalizing m with
  | nil => simp [ofList, text, Member.text]
  | cons m' ms ih => simp [ofList, text, Member.text, ih]

theorem depth_ofList {m : Member} {ms : List Member} {d : ℕ} :
    (ofList m ms).depth ≤ d ↔ ∀ m' ∈ m :: ms, m'.value.depth ≤ d := by
  induction ms generalizing m with
  | nil => simp [ofList, depth]
  | cons m' ms ih => rw [ofList, depth, Nat.max_le, ih]; simp

end Syn

/-- An object: no members and the whitespace between its braces, or its members. -/
inductive Object
  | empty (b : Blank)
  | full (m : Member) (ms : List Member)

namespace Object

/-- The object as a value. -/
def value : Object → Value
  | empty b => .emptyObject b
  | full m ms => .object (.ofList m ms)

/-- The members of an object. -/
def members : Object → List Member
  | empty _ => []
  | full m ms => m :: ms

/-- The text of an object. -/
def text (o : Object) : Bytes :=
  o.value.text

/-- The text between the braces. -/
def inner : Object → Bytes
  | empty b => b.1
  | full m ms => m.text ++ tailText ms

theorem text_eq (o : Object) : o.text = 0x7B :: (o.inner ++ [0x7D]) := by
  cases o with
  | empty b => rfl
  | full m ms => simp [text, value, inner, Syn.text, Syn.text_ofList]

end Object

/-! ### The decoder on a member -/

/-- A string is read as a value whatever follows it. -/
theorem parseValue_key {d : ℕ} (k : Key) (r : Bytes) :
    parseValue d (k.1 ++ r) = some (.scalar ⟨k.1, .inr (.inl k.2)⟩, r) := by
  have hs : scanScalar (k.1 ++ r) = some (k.1, r) := by
    have hstr := scanString_complete (r := r) k.2 trivial
    obtain ⟨w, -, hw⟩ := k.2
    have hl : scanLiteral (k.1 ++ r) = none := by
      rw [hw]
      exact scanLiteral_eq_none (by decide) (by decide) (by decide)
    rw [scanScalar, hl, hstr]
    rfl
  have hattach : scanScalar.attach scanScalar_sound (k.1 ++ r) =
      some (⟨k.1, .inr (.inl k.2)⟩, r) :=
    Scanner.attach_eq_some_iff.mpr hs
  obtain ⟨w, -, hw⟩ := k.2
  have harr : expect 0x5B (k.1 ++ r) = none := by rw [hw]; exact expect_eq_none (by decide)
  have hobj : expect 0x7B (k.1 ++ r) = none := by rw [hw]; exact expect_eq_none (by decide)
  obtain ⟨n, hn⟩ : ∃ n, 2 * (k.1 ++ r).length = n + 1 := by
    rw [hw]
    exact ⟨_, rfl⟩
  rw [parseValue, hn, parse.eq_def]
  simp [harr, hobj, hattach]

variable {d d' : Decoder} {c : UInt8}

namespace Decoder

variable {o : ℕ} {s : TokenState} {k : List TokenState}

theorem advance_eq {t r : Bytes} (h : d.rest = t ++ r) :
    d.advance t.length = ⟨r, d.offset + t.length, d.state, d.stack⟩ := by
  rw [advance, h, List.drop_left]

theorem peek_mk (b : Blank) (hc : isSpace c = false) (r : Bytes) :
    (⟨b.1 ++ c :: r, o, s, k⟩ : Decoder).peek = some (c, ⟨c :: r, o + b.1.length, s, k⟩) := by
  have hd : Dense (c :: r) := dense_cons hc
  simp [peek, advance, skip_blank_append b hd, blank_blank_append b hd]

/-- What `peek` tells about the input. -/
theorem of_peek (h : d.peek = some (c, d')) :
    ∃ (b : Blank) (r : Bytes), isSpace c = false ∧ d.rest = b.1 ++ c :: r ∧
      d' = ⟨c :: r, d.offset + b.1.length, d.state, d.stack⟩ := by
  unfold peek at h
  split at h
  · cases h
  · next c' r hskip =>
    obtain ⟨rfl, rfl⟩ : c' = c ∧ d.advance (blank d.rest).1.length = d' := by simpa using h
    have hrest := blank_append_skip d.rest
    rw [hskip] at hrest
    refine ⟨blank d.rest, r, ?_, hrest.symm, ?_⟩
    · exact dense_skip d.rest c' (by rw [hskip]; rfl)
    · exact advance_eq hrest.symm

theorem more_mk (b : Blank) (hc : isSpace c = false) (r : Bytes) :
    (⟨b.1 ++ c :: r, o, s, k⟩ : Decoder).more =
      if c = 0x5D ∨ c = 0x7D then none else some ⟨c :: r, o + b.1.length, s, k⟩ := by
  rw [more, peek_mk b hc]

theorem of_more (h : d.more = some d') :
    ∃ (b : Blank) (c : UInt8) (r : Bytes), isSpace c = false ∧ c ≠ 0x5D ∧ c ≠ 0x7D ∧
      d.rest = b.1 ++ c :: r ∧ d' = ⟨c :: r, d.offset + b.1.length, d.state, d.stack⟩ := by
  unfold more at h
  split at h
  · cases h
  · next c d₁ hpeek =>
    obtain ⟨b, r, hc, hrest, rfl⟩ := of_peek hpeek
    obtain ⟨hclose, ⟨⟩⟩ := Option.ite_none_left_eq_some.mp h
    rw [not_or] at hclose
    exact ⟨b, c, r, hc, hclose.1, hclose.2, hrest, rfl⟩

/-- `more` says no at the end of the input and before a closing delimiter. -/
theorem more_eq_none_iff :
    d.more = none ↔ skip d.rest = [] ∨ ∃ c r, skip d.rest = c :: r ∧ (c = 0x5D ∨ c = 0x7D) := by
  unfold more peek
  split
  · next h =>
    split at h
    · next hskip => simp [hskip]
    · cases h
  · next c d₁ h =>
    split at h
    · cases h
    · next c' r hskip =>
      obtain ⟨rfl, -⟩ : c' = c ∧ _ = d₁ := by simpa using h
      simp [hskip, or_iff_not_imp_left]

/-- A value is read off the text of one. -/
theorem readValue_mk (b : Blank) {v : Value} (hv : v.depth ≤ maxNestingDepth - k.length)
    {r : Bytes} (hr : Follows r) :
    (⟨b.1 ++ (v.text ++ r), o, s, k⟩ : Decoder).readValue =
      some (v, ⟨r, o + (b.1.length + v.text.length), s, k⟩) := by
  have hd := v.dense_value r
  simp only [readValue, skip_blank_append b hd, parseValue_text v hv hr, advance,
    blank_blank_append b hd]
  rw [← List.append_assoc, ← List.length_append, List.drop_left]

/-- What is read as a value is the text of one. -/
theorem of_readValue {v : Value} (h : d.readValue = some (v, d')) :
    ∃ (b : Blank) (r : Bytes), d.rest = b.1 ++ (v.text ++ r) ∧
      v.depth ≤ maxNestingDepth - d.stack.length ∧
      d' = ⟨r, d.offset + (b.1.length + v.text.length), d.state, d.stack⟩ := by
  unfold readValue at h
  split at h
  · cases h
  · next v' r hparse =>
    obtain ⟨rfl, rfl⟩ : v' = v ∧ _ = d' := by simpa using h
    obtain ⟨hskip, hdepth⟩ := text_of_parseValue hparse
    have hrest := blank_append_skip d.rest
    rw [hskip] at hrest
    refine ⟨blank d.rest, r, hrest.symm, hdepth, ?_⟩
    rw [← List.length_append]
    exact advance_eq (by rw [List.append_assoc, hrest])

theorem readName_mk (n : Name) (r : Bytes) :
    (⟨n.key.1 ++ r, o, s, k⟩ : Decoder).readName =
      some (.name n.name, ⟨r, o + n.key.1.length, .objectColon, k⟩) := by
  have hd : Dense (n.key.1 ++ r) := n.key.2.dense
  have hb : blank (n.key.1 ++ r) = blank [] := blank_blank_append (blank []) hd
  have hs : skip (n.key.1 ++ r) = n.key.1 ++ r := skip_blank_append (blank []) hd
  have hlen : (blank []).1.length + n.key.1.length = n.key.1.length := Nat.zero_add _
  simp only [readName, readValue, hs, parseValue_key, hb, Syn.text, hlen, Name.name]
  rw [advance_eq rfl]

/-- A token that starts with a quote is a string. -/
theorem isString_of_head {t w : Bytes} (ht : IsScalar t) (hw : t = 0x22 :: w) : IsString t := by
  rcases ht with ht | ht | ht
  · rw [hw] at ht
    simp [literals, nullText, trueText, falseText] at ht
  · exact ht
  · obtain ⟨b, w', rfl, hb⟩ := ht.head
    cases hw
    exact absurd hb (by decide)

theorem of_readName {t : Token} {w : Bytes} (hw : d.rest = 0x22 :: w)
    (h : d.readName = some (t, d')) :
    ∃ (key : Key) (r : Bytes), d.rest = key.1 ++ r ∧ t = .name (unquote key.1) ∧
      d' = ⟨r, d.offset + key.1.length, .objectColon, d.stack⟩ := by
  unfold readName at h
  split at h
  · next tok d₁ hread =>
    obtain ⟨rfl, rfl⟩ : .name (unquote tok.1) = t ∧ _ = d' := by simpa using h
    obtain ⟨b, r, hrest, -, rfl⟩ := of_readValue hread
    obtain rfl : b = blank [] := by
      have hb := blank_blank_append b (Syn.dense_value (.scalar tok) r)
      rw [← hrest, hw] at hb
      exact hb.symm.trans (Subtype.ext rfl)
    have hrest' : d.rest = tok.1 ++ r := hrest
    obtain ⟨c, w', htok, -⟩ := tok.2.head
    have hstr : IsString tok.1 := by
      rw [htok, hw] at hrest'
      obtain ⟨rfl, -⟩ := List.cons.inj hrest'
      exact isString_of_head tok.2 htok
    refine ⟨⟨tok.1, hstr⟩, r, hrest', rfl, ?_⟩
    rw [show (blank []).1.length + (Syn.scalar tok).text.length = tok.1.length from Nat.zero_add _]
  · cases h

/-- Where the name of a member may stand, and no closing brace does, only a name is a token. -/
theorem tokenAt_name {p : Token × Decoder} (hs : d.state = .objectStart ∨ d.state = .objectKey)
    (hc : d.state = .objectStart → c ≠ 0x7D) (h : d.tokenAt c = some p) :
    c = 0x22 ∧ d.readName = some p := by
  have hv : d.valueAllowed = false := by
    rcases hs with hs | hs <;> simp [valueAllowed, hs]
  have hclose : c = 0x7D → ¬(d.state = .objectStart ∨ d.state = .objectComma) := by
    rintro rfl
    rcases hs with hs | hs
    · exact absurd rfl (hc hs)
    · simp [hs]
  have harr : ¬(d.state = .arrayStart ∨ d.state = .arrayComma) := by
    rcases hs with hs | hs <;> simp [hs]
  have hdec : d.decode = none := by
    rcases hs with hs | hs <;> simp [decode, prepare, valueAllowed, hs]
  unfold tokenAt at h
  simp only [hv, harr, hdec, if_false, Bool.false_eq_true, Option.map_none] at h
  split at h
  · cases h
  split at h
  · cases h
  split at h
  · cases h
  split at h
  · next hb =>
    rw [if_neg (hclose hb)] at h
    cases h
  split at h
  · cases h
  split at h
  · next hq => exact ⟨hq.1, h⟩
  · cases h

/-- A delimiter is the byte it starts with. -/
theorem tokenAt_delim {b : UInt8} (h : d.tokenAt c = some (.delim b, d')) : b = c := by
  have hdec : ∀ o : Option (Value × Decoder),
      o.map (fun p ↦ (Token.value p.1, p.2)) ≠ some (.delim b, d') := by
    intro o
    cases o <;> simp
  have hname : d.readName ≠ some (.delim b, d') := by
    intro h
    unfold readName at h
    split at h <;> simp at h
  have hpop : ∀ o : Option Decoder,
      o.map (fun d ↦ (Token.delim c, d)) = some (.delim b, d') → b = c := by
    intro o h
    cases o <;> simp_all
  have hopen : ∀ d₁ : Decoder, some (Token.delim c, d₁) = some (.delim b, d') → b = c := by
    simp_all
  unfold tokenAt at h
  repeat' split at h
  all_goals first
    | exact hpop _ h
    | exact hopen _ h
    | exact absurd h hname
    | exact absurd h (hdec _)
    | cases h

/-- Between a value and the separator after it no token starts, unless the object ends. -/
theorem tokenAt_objectComma (hs : d.state = .objectComma) (hc : c ≠ 0x7D) : d.tokenAt c = none := by
  have hdec : d.decode = none := by simp [decode, prepare, valueAllowed, hs]
  simp [tokenAt, valueAllowed, hs, hc, hdec]

theorem tokenAt_quote (hs : d.state = .objectStart ∨ d.state = .objectKey) :
    d.tokenAt 0x22 = d.readName := by
  simp [tokenAt, hs]

/-- The separator that stands before a member. -/
def sep : TokenState → Bytes
  | .objectComma => [0x2C]
  | _ => []

/-- Where a member may start. -/
def AtMember (s : TokenState) : Prop :=
  s = .objectStart ∨ s = .objectComma

theorem token_name (hs : AtMember s) (n : Name) (r : Bytes) :
    (⟨sep s ++ (n.text ++ r), o, s, k⟩ : Decoder).token =
      some (.name n.name, ⟨n.post.1 ++ 0x3A :: (n.inner.1 ++ r),
        o + (sep s).length + n.lead.1.length + n.key.1.length, .objectColon, k⟩) := by
  have e : n.text ++ r = n.lead.1 ++ (n.key.1 ++ (n.post.1 ++ 0x3A :: (n.inner.1 ++ r))) := by
    simp [Name.text]
  obtain ⟨w, -, hw⟩ := n.key.2
  have hpeek : ∀ o s, (⟨n.lead.1 ++ (n.key.1 ++ (n.post.1 ++ 0x3A :: (n.inner.1 ++ r))), o, s, k⟩ :
      Decoder).peek = some (0x22, ⟨n.key.1 ++ (n.post.1 ++ 0x3A :: (n.inner.1 ++ r)),
        o + n.lead.1.length, s, k⟩) := by
    intro o s
    rw [hw]
    exact peek_mk n.lead (by decide) _
  rcases hs with rfl | rfl
  · simp [token, sep, e, hpeek, tokenAt_quote, readName_mk]
  · have hcomma : ∀ w : Bytes, (⟨0x2C :: w, o, .objectComma, k⟩ : Decoder).peek =
        some (0x2C, ⟨0x2C :: w, o, .objectComma, k⟩) := fun w ↦ peek_mk (blank []) (by decide) w
    simp [token, sep, e, hcomma, advance, hpeek, tokenAt_quote, readName_mk]

theorem name_of_token {t : Token} {w : Bytes} (hs : AtMember d.state) (hw : d.rest = c :: w)
    (hsp : isSpace c = false) (hc : c ≠ 0x7D) (h : d.token = some (t, d')) :
    ∃ (lead : Blank) (key : Key) (r : Bytes), d.rest = sep d.state ++ (lead.1 ++ (key.1 ++ r)) ∧
      t = .name (unquote key.1) ∧ d' = ⟨r, d.offset + (sep d.state).length + lead.1.length +
        key.1.length, .objectColon, d.stack⟩ := by
  obtain ⟨rest, o, s, k⟩ := d
  obtain rfl : rest = c :: w := hw
  have hpeek : (⟨c :: w, o, s, k⟩ : Decoder).peek = some (c, ⟨c :: w, o, s, k⟩) :=
    peek_mk (blank []) hsp w
  rcases hs with hs | hs
  · obtain rfl : s = .objectStart := hs
    have htok : (⟨c :: w, o, .objectStart, k⟩ : Decoder).tokenAt c = some (t, d') := by
      simpa [token, hpeek] using h
    obtain ⟨rfl, hread⟩ := tokenAt_name (.inl rfl) (fun _ ↦ hc) htok
    obtain ⟨key, r, hrest, rfl, rfl⟩ := of_readName rfl hread
    exact ⟨blank [], key, r, hrest, rfl, rfl⟩
  · obtain rfl : s = .objectComma := hs
    by_cases hcomma : c = 0x2C
    · subst hcomma
      simp only [token, hpeek, advance] at h
      simp only [reduceCtorEq, and_false, if_false, and_self, if_true, List.drop_succ_cons,
        List.drop_zero] at h
      split at h
      · cases h
      · next c' d₁ hpeek' =>
        obtain ⟨b, r', -, hrest, rfl⟩ := of_peek hpeek'
        obtain ⟨rfl, hread⟩ := tokenAt_name (.inr rfl) (fun h ↦ by cases h) h
        obtain ⟨key, r, hkey, rfl, rfl⟩ := of_readName rfl hread
        refine ⟨b, key, r, ?_, rfl, ?_⟩
        · have hw : w = b.1 ++ (key.1 ++ r) := hrest.trans (congrArg (b.1 ++ ·) hkey)
          rw [hw]
          rfl
        · simp [sep]
    · have htok : (⟨c :: w, o, .objectComma, k⟩ : Decoder).tokenAt c = some (t, d') := by
        simpa [token, hpeek, hcomma] using h
      rw [tokenAt_objectComma rfl hc] at htok
      cases htok

theorem decode_value {v : Value} (hv : v.depth ≤ maxNestingDepth - k.length) {r : Bytes}
    (hr : Follows r) (post inner : Blank) :
    (⟨post.1 ++ 0x3A :: (inner.1 ++ (v.text ++ r)), o, .objectColon, k⟩ : Decoder).decode =
      some (v, ⟨r, o + post.1.length + 1 + (inner.1.length + v.text.length), .objectComma, k⟩) := by
  have hcolon := peek_mk (o := o) (s := .objectColon) (k := k) post (c := 0x3A) (by decide)
    (inner.1 ++ (v.text ++ r))
  simp [decode, prepare, hcolon, advance, valueAllowed, readValue_mk inner hv hr, valueEnd]

theorem value_of_decode {v : Value} (hs : d.state = .objectColon) (h : d.decode = some (v, d')) :
    ∃ (post inner : Blank) (r : Bytes), d.rest = post.1 ++ 0x3A :: (inner.1 ++ (v.text ++ r)) ∧
      v.depth ≤ maxNestingDepth - d.stack.length ∧
      d' = ⟨r, d.offset + post.1.length + 1 + (inner.1.length + v.text.length), .objectComma,
        d.stack⟩ := by
  obtain ⟨rest, o, s, k⟩ := d
  obtain rfl : s = .objectColon := hs
  simp only [decode, prepare] at h
  split at h
  · cases h
  · next d₁ hprep =>
    split at hprep
    · next c d₂ hpeek =>
      obtain ⟨post, w, -, hrest, rfl⟩ := of_peek hpeek
      obtain ⟨rfl, rfl⟩ : c = 0x3A ∧ _ = d₁ := by simpa using hprep
      simp only [valueAllowed, if_true] at h
      split at h
      · cases h
      · next v' d₃ hread =>
        obtain ⟨inner, r, hw, hdepth, rfl⟩ := of_readValue hread
        obtain ⟨rfl, rfl⟩ : v' = v ∧ _ = d' := by simpa using h
        obtain rfl : w = inner.1 ++ (v'.text ++ r) := hw
        exact ⟨post, inner, r, hrest, hdepth, rfl⟩
    · cases hprep

end Decoder

end Json
