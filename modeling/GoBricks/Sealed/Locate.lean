import GoBricks.Sealed.Splice

/-!
# What `locateSubject` accepts

The walk of `locateSubject` is compared with the text it walks. On a document that starts with an
object it does what a plain pass over the list of members does (`surveyObject`,
`locateSubject_object`); where it succeeds, the document starts with an object
(`exists_object_of_locate`). Together they say for every byte string what the walk returns.

What comes after the object is judged by `More`, which does not see a closing delimiter. So a
document is also accepted when its object is followed by a stray `]` or `}` and anything at all
(`locateSubject_pins`).
-/

open Json Utf8 List Option

namespace Sealed

variable {fold : ℕ → ℕ} {path : Bytes} {o : ℕ} {s : TokenState} {k : List TokenState}

/-! ### One member -/

variable {r : Bytes}

/-- A member is read off the text of one. -/
theorem nextMember_mk (hs : Decoder.AtMember s) (n : Name) {v : Value}
    (hv : v.depth ≤ maxNestingDepth - k.length) (hr : Follows r) :
    nextMember ⟨Decoder.sep s ++ (n.text ++ (v.text ++ r)), o, s, k⟩ =
      .ok (n.name, v.text,
        ⟨r, o + (Decoder.sep s).length + n.text.length + v.text.length, .objectComma, k⟩) := by
  rw [nextMember, Decoder.token_name hs n (v.text ++ r)]
  simp only [Decoder.decode_value hv hr, Name.text, length_append, length_cons]
  congr 4
  omega

variable {d : Decoder}

/-- What is read as a member is the text of one. -/
theorem of_nextMember {d' : Decoder} {key raw : Bytes} {c : UInt8} {w : Bytes}
    (hs : Decoder.AtMember d.state) (hw : d.rest = c :: w) (hsp : isSpace c = false)
    (hc : c ≠ 0x7D) (h : nextMember d = .ok (key, raw, d')) :
    ∃ (n : Name) (v : Value) (r : Bytes),
      d.rest = Decoder.sep d.state ++ (n.text ++ (v.text ++ r)) ∧
      v.depth ≤ maxNestingDepth - d.stack.length ∧
      d'.rest = r ∧ d'.state = .objectComma ∧ d'.stack = d.stack := by
  unfold nextMember at h
  split at h
  · cases h
  · next tok d₁ htok =>
    obtain ⟨lead, name, r₁, hrest, rfl, rfl⟩ := Decoder.name_of_token hs hw hsp hc htok
    split at h
    · cases h
    · next v d₂ hdec =>
      obtain ⟨post, inner, r, rfl, hdepth, rfl⟩ := Decoder.value_of_decode rfl hdec
      obtain ⟨rfl, rfl, rfl⟩ : unquote name.1 = key ∧ v.text = raw ∧ _ = d' := by
        simpa [tokenString] using h
      refine ⟨⟨lead, name, post, inner⟩, v, r, ?_, hdepth, rfl, rfl, rfl⟩
      rw [hrest]
      simp [Name.text]

/-! ### The pass over the members -/

/-- The span of a member whose first byte and whose value stand at the given offsets. -/
def spanAt (lead start : ℕ) (m : Member) : SubjectSpan :=
  ⟨m.value.text, start, start + m.value.text.length, lead⟩

/-- The pass over members that follow another; the comma of the first stands at `pos`. -/
def survey (fold : ℕ → ℕ) (path : Bytes) :
    ℕ → List Member → Option SubjectSpan → Except LocateError (Option SubjectSpan)
  | _, [], found => .ok found
  | pos, m :: ms, found => do
    let found ← judge fold path m.name.name (spanAt pos (pos + 1 + m.name.text.length) m) found
    survey fold path (pos + 1 + m.text.length) ms found

/-- The pass over the members of an object; `pos` is the offset after its opening brace. -/
def surveyObject (fold : ℕ → ℕ) (path : Bytes) (pos : ℕ) :
    Object → Except LocateError (Option SubjectSpan)
  | .empty _ => .ok none
  | .full m ms => do
    let found ← judge fold path m.name.name
      (spanAt (pos + m.name.lead.1.length) (pos + m.name.text.length) m) none
    survey fold path (pos + m.text.length) ms found

/-- No member is too deep for the decoder, which counts the object, too. -/
def Shallow (ms : List Member) : Prop :=
  ∀ m ∈ ms, m.value.depth + 1 ≤ maxNestingDepth

theorem follows_tailText (trail : Blank) (ms : List Member) (r : Bytes) :
    Follows (trail.1 ++ (tailText ms ++ 0x7D :: r)) := by
  refine Follows.blank ?_ trail
  cases ms with
  | nil => exact follows_cons (.inr (.inr (.inr rfl)))
  | cons m ms =>
    exact follows_cons (.inr (.inl rfl))

/-- One turn of the walk. -/
theorem walk_succ {n : ℕ} {d₁ d₂ : Decoder} {key raw : Bytes} (found : Option SubjectSpan)
    (hmore : d.more = some d₁) (hnext : nextMember d₁ = .ok (key, raw, d₂)) :
    walk fold path (n + 1) d found = (do
      let found ← judge fold path key ⟨raw, d₂.offset - raw.length, d₂.offset, d₁.offset⟩ found
      walk fold path n d₂ found) := by
  rw [walk, hmore]
  simp only [hnext]
  rfl

variable (fold path) in
/-- After a first member, the walk is a pass over the others. -/
theorem walk_tail {ms : List Member} (hms : Shallow ms) {n : ℕ} (hn : ms.length < n)
    (trail : Blank) (r : Bytes) (o : ℕ) (found : Option SubjectSpan) :
    ∃ (trail' : Blank) (o' : ℕ),
      walk fold path n ⟨trail.1 ++ (tailText ms ++ 0x7D :: r), o, .objectComma, [.topValue]⟩
          found = (do
        let found ← survey fold path (o + trail.1.length) ms found
        .ok (⟨trail'.1 ++ 0x7D :: r, o', .objectComma, [.topValue]⟩, found)) := by
  induction ms generalizing n trail o found with
  | nil =>
    obtain ⟨n, rfl⟩ : ∃ n', n = n' + 1 := ⟨n - 1, by omega⟩
    refine ⟨trail, o, ?_⟩
    rw [tailText_nil, nil_append, walk, Decoder.more_mk trail (by decide)]
    rfl
  | cons m ms ih =>
    obtain ⟨n, rfl⟩ : ∃ n', n = n' + 1 := ⟨n - 1, by simp at hn; omega⟩
    have hnext := nextMember_mk (o := o + trail.1.length) (k := [.topValue]) (.inr rfl) m.name
      (Nat.le_sub_one_of_lt (hms m (by simp))) (follows_tailText m.trail ms r)
    have hmore := Decoder.more_mk (o := o) (s := .objectComma) (k := [.topValue]) trail (c := 0x2C)
      (by decide) (m.name.text ++ (m.value.text ++ (m.trail.1 ++ (tailText ms ++ 0x7D :: r))))
    have e : trail.1 ++ (tailText (m :: ms) ++ 0x7D :: r) = trail.1 ++ 0x2C ::
        (m.name.text ++ (m.value.text ++ (m.trail.1 ++ (tailText ms ++ 0x7D :: r)))) := by
      simp [Member.text]
    have hstart : o + trail.1.length + 1 + m.name.text.length + m.value.text.length -
        m.value.text.length = o + trail.1.length + 1 + m.name.text.length := Nat.add_sub_cancel ..
    have hpos : o + trail.1.length + 1 + m.name.text.length + m.value.text.length +
        m.trail.1.length = o + trail.1.length + 1 + m.text.length := by
      simp [Member.text]
      omega
    rw [e, walk_succ found hmore hnext]
    simp only [survey, spanAt, hstart, Decoder.sep, length_singleton]
    cases judge fold path m.name.name _ found with
    | error err => exact ⟨trail, o, rfl⟩
    | ok found' =>
      obtain ⟨trail', o', ih⟩ := ih (fun m' hm' ↦ hms m' (mem_cons_of_mem m hm'))
        (by simpa using hn) m.trail
        (o + trail.1.length + 1 + m.name.text.length + m.value.text.length) found'
      rw [hpos] at ih
      exact ⟨trail', o', ih⟩

variable (fold path) in
/-- The walk over an object, from after its opening brace. -/
theorem walk_object (obj : Object) (hms : Shallow obj.members) {n : ℕ}
    (hn : obj.members.length < n) (r : Bytes) (o : ℕ) :
    ∃ (trail : Blank) (o' : ℕ) (s : TokenState), Decoder.AtMember s ∧
      walk fold path n ⟨obj.inner ++ 0x7D :: r, o, .objectStart, [.topValue]⟩ none = (do
        let found ← surveyObject fold path o obj
        .ok (⟨trail.1 ++ 0x7D :: r, o', s, [.topValue]⟩, found)) := by
  cases obj with
  | empty b =>
    obtain ⟨n, rfl⟩ : ∃ n', n = n' + 1 := ⟨n - 1, by omega⟩
    refine ⟨b, o, .objectStart, .inl rfl, ?_⟩
    rw [Object.inner, walk, Decoder.more_mk b (by decide)]
    rfl
  | full m ms =>
    obtain ⟨n, rfl⟩ : ∃ n', n = n' + 1 := ⟨n - 1, by omega⟩
    -- `More` has passed the whitespace before the name
    let bare : Name := { m.name with lead := blank [] }
    have hbare : m.name.text = m.name.lead.1 ++ bare.text := rfl
    have hnext := nextMember_mk (o := o + m.name.lead.1.length) (k := [.topValue]) (.inl rfl) bare
      (Nat.le_sub_one_of_lt (hms m (by simp [Object.members]))) (follows_tailText m.trail ms r)
    obtain ⟨w, -, hw⟩ := m.name.key.2
    have hmore : (⟨m.name.lead.1 ++ (bare.text ++ (m.value.text ++
        (m.trail.1 ++ (tailText ms ++ 0x7D :: r)))), o, .objectStart, [.topValue]⟩ :
          Decoder).more =
        some ⟨bare.text ++ (m.value.text ++ (m.trail.1 ++ (tailText ms ++ 0x7D :: r))),
          o + m.name.lead.1.length, .objectStart, [.topValue]⟩ := by
      have hq : bare.text = 0x22 :: (w ++ 0x22 :: (m.name.post.1 ++ 0x3A :: m.name.inner.1)) := by
        simp [bare, Name.text, hw, blank]
      rw [hq]
      exact Decoder.more_mk m.name.lead (by decide) _
    have e : (Object.full m ms).inner ++ 0x7D :: r = m.name.lead.1 ++ (bare.text ++
        (m.value.text ++ (m.trail.1 ++ (tailText ms ++ 0x7D :: r)))) := by
      simp [Object.inner, Member.text, hbare]
    have hlen : m.name.text.length = m.name.lead.1.length + bare.text.length := by
      rw [hbare, List.length_append]
    have hstop : o + m.name.lead.1.length + bare.text.length + m.value.text.length =
        o + m.name.text.length + m.value.text.length := by
      omega
    have hpos : o + m.name.text.length + m.value.text.length + m.trail.1.length =
        o + m.text.length := by
      simp [Member.text]
      omega
    rw [e, walk_succ none hmore hnext]
    simp only [surveyObject, spanAt, Decoder.sep, List.length_nil, Nat.add_zero, hstop,
      Nat.add_sub_cancel]
    rw [show bare.name = m.name.name from rfl]
    cases judge fold path m.name.name _ none with
    | error err => exact ⟨m.trail, o, .objectComma, .inr rfl, rfl⟩
    | ok found' =>
      obtain ⟨trail, o', h⟩ := walk_tail fold path
        (fun m' hm' ↦ hms m' (List.mem_cons_of_mem m hm')) (by simpa [Object.members] using hn)
        m.trail r (o + m.name.text.length + m.value.text.length) found'
      rw [hpos] at h
      exact ⟨trail, o', .objectComma, .inr rfl, h⟩

/-! ### The document -/

/-- The text after an object ends, or goes on with a closing delimiter. -/
def Closed (r : Bytes) : Prop :=
  skip r = [] ∨ ∃ c w, skip r = c :: w ∧ (c = 0x5D ∨ c = 0x7D)

theorem expectDelim_close (hs : Decoder.AtMember s) (b : Blank) (r : Bytes) :
    expectDelim ⟨b.1 ++ 0x7D :: r, o, s, [.topValue]⟩ 0x7D =
      .ok ⟨r, o + b.1.length + 1, .topValue, []⟩ := by
  have hpeek := Decoder.peek_mk (o := o) (s := s) (k := [.topValue]) b (c := 0x7D) (by decide) r
  have hs' : s = .objectStart ∨ s = .objectComma := hs
  simp [expectDelim, Decoder.token, hpeek, Decoder.tokenAt, hs', Decoder.pop, Decoder.advance,
    Decoder.valueEnd]

theorem expectDelim_open (b : Blank) (r : Bytes) :
    expectDelim (.new (b.1 ++ 0x7B :: r)) 0x7B =
      .ok ⟨r, b.1.length + 1, .objectStart, [.topValue]⟩ := by
  have hpeek := Decoder.peek_mk (o := 0) (s := .topValue) (k := []) b (c := 0x7B) (by decide) r
  simp [expectDelim, Decoder.new, Decoder.token, hpeek, Decoder.tokenAt, Decoder.valueAllowed,
    Decoder.advance, maxNestingDepth]

/-- How the walk ends, with what it found and what follows the object. -/
def conclude (r : Bytes) (found : Option SubjectSpan) : Except LocateError SubjectSpan :=
  if (⟨r, 0, .topValue, []⟩ : Decoder).more.isSome then
    .error .docTrailingContent
  else
    match found with
    | none => .error .subjectAbsent
    | some span => .ok span

variable {found : Option SubjectSpan} {span : SubjectSpan}

/-- The search ends well if it found a span before a closed rest. -/
theorem conclude_eq_ok_iff : conclude r found = .ok span ↔ Closed r ∧ found = some span := by
  have h := Decoder.more_eq_none_iff (d := ⟨r, 0, .topValue, []⟩)
  unfold conclude Closed
  rw [← h]
  cases (⟨r, 0, .topValue, []⟩ : Decoder).more <;> cases found <;> simp

theorem length_tailText (ms : List Member) : ms.length ≤ (tailText ms).length := by
  induction ms with
  | nil => exact Nat.zero_le _
  | cons m ms ih =>
    simp
    omega

/-- On a document that starts with an object, the walk is a pass over its members. -/
theorem locateSubject_object (lead : Blank) (obj : Object) (hms : Shallow obj.members)
    (r : Bytes) :
    locateSubject fold (lead.1 ++ (obj.text ++ r)) path = (do
      let found ← surveyObject fold path (lead.1.length + 1) obj
      conclude r found) := by
  have e : lead.1 ++ (obj.text ++ r) = lead.1 ++ 0x7B :: (obj.inner ++ 0x7D :: r) := by
    simp [Object.text_eq]
  have hlen : obj.members.length ≤ obj.inner.length + 1 := by
    cases obj with
    | empty b => simp [Object.members]
    | full m ms =>
      have := length_tailText ms
      simp [Object.members, Object.inner]
      omega
  obtain ⟨trail, o', s, hs, hwalk⟩ := walk_object fold path obj hms (n := (lead.1 ++
    (obj.text ++ r)).length + 1)
    (by rw [e]; simp; omega) r (lead.1.length + 1)
  have hfinish : ∀ found, finishWalk ⟨trail.1 ++ 0x7D :: r, o', s, [.topValue]⟩ found =
      conclude r found := by
    intro found
    have hmore : (⟨r, o' + trail.1.length + 1, .topValue, []⟩ : Decoder).more.isSome =
        (⟨r, 0, .topValue, []⟩ : Decoder).more.isSome := by
      rw [Bool.eq_iff_iff, isSome_iff_ne_none, isSome_iff_ne_none, ne_eq, ne_eq,
        Decoder.more_eq_none_iff, Decoder.more_eq_none_iff]
    unfold finishWalk conclude
    rw [expectDelim_close hs, ← hmore]
    rfl
  have hopen := expectDelim_open lead (obj.inner ++ 0x7D :: r)
  rw [← e] at hopen
  rw [locateSubject, hopen]
  simp only [bind, Except.bind] at hwalk ⊢
  rw [hwalk]
  cases surveyObject fold path (lead.1.length + 1) obj with
  | error err => rfl
  | ok found => exact hfinish found

/-! ### Where the walk succeeds -/

/-- The members that follow another, and the end of the object. -/
def Rest (bs : Bytes) : Prop :=
  ∃ (trail : Blank) (ms : List Member) (r : Bytes), Shallow ms ∧
    bs = trail.1 ++ (tailText ms ++ 0x7D :: r)

/-- What must follow where the decoder stands before a member, for the walk to get through. -/
def Members : TokenState → Bytes → Prop
  | .objectStart, bs => ∃ (obj : Object) (r : Bytes), Shallow obj.members ∧
      bs = obj.inner ++ 0x7D :: r
  | _, bs => Rest bs

/-- At the end of the walk only a closing brace is accepted. -/
theorem of_expectDelim_close {d' : Decoder} (hs : Decoder.AtMember d.state)
    (hmore : d.more = none) (h : expectDelim d 0x7D = .ok d') :
    ∃ (b : Blank) (r : Bytes), d.rest = b.1 ++ 0x7D :: r := by
  have hrest := blank_append_skip d.rest
  rcases Decoder.more_eq_none_iff.mp hmore with hnil | ⟨c, r, hskip, hc⟩
  · simp [expectDelim, Decoder.token, Decoder.peek, hnil] at h
  · rw [hskip] at hrest
    rcases hc with rfl | rfl
    · have hpeek : d.peek = some (0x5D, d.advance (blank d.rest).1.length) := by
        simp [Decoder.peek, hskip]
      have hs' : (d.advance (blank d.rest).1.length).state ≠ .arrayStart ∧
          (d.advance (blank d.rest).1.length).state ≠ .arrayComma := by
        rcases hs with hs | hs <;> simp [Decoder.advance, hs]
      simp [expectDelim, Decoder.token, hpeek, Decoder.tokenAt, hs'] at h
    · exact ⟨blank d.rest, r, hrest.symm⟩

/-- A walk that gets through has gone over the members of an object. -/
theorem members_of_walk {n : ℕ} {d' d'' : Decoder} {found' : Option SubjectSpan}
    (hs : Decoder.AtMember d.state) (hstack : d.stack = [.topValue])
    (h : walk fold path n d found = .ok (d', found'))
    (hclose : expectDelim d' 0x7D = .ok d'') : Members d.state d.rest := by
  -- On the turns: the member that a turn reads goes in front of the rest.
  induction n generalizing d found with
  | zero => cases h
  | succ n ih =>
    cases hmore : d.more with
    | none =>
      obtain ⟨rfl, rfl⟩ : d = d' ∧ found = found' := by simpa [walk, hmore] using h
      obtain ⟨b, r, hrest⟩ := of_expectDelim_close hs hmore hclose
      rcases hs with hs | hs
      · rw [hs]
        exact ⟨.empty b, r, by simp [Shallow, Object.members], hrest⟩
      · rw [hs]
        exact ⟨b, [], r, by simp [Shallow], hrest⟩
    | some d₁ =>
      cases hnext : nextMember d₁ with
      | error err =>
        rw [walk, hmore] at h
        simp only [hnext] at h
        cases h
      | ok p =>
        obtain ⟨key, raw, d₂⟩ := p
        rw [walk_succ _ hmore hnext] at h
        obtain ⟨b, c, w, hsp, -, hc, hrest, rfl⟩ := Decoder.of_more hmore
        obtain ⟨name, v, r, hw, hv, rfl, hs₂, hstack₂⟩ := of_nextMember
          (d := ⟨c :: w, d.offset + b.1.length, d.state, d.stack⟩) hs rfl hsp hc hnext
        cases hj : judge fold path key ⟨raw, d₂.offset - raw.length, d₂.offset,
            d.offset + b.1.length⟩ found with
        | error err =>
          rw [hj] at h
          cases h
        | ok found₂ =>
          rw [hj] at h
          obtain ⟨trail, ms, r, hms, hr⟩ : Rest d₂.rest := by
            have := ih (.inr hs₂) (hstack₂.trans hstack) h
            rwa [hs₂] at this
          rw [hstack, length_singleton] at hv
          have hms' : ∀ name, Shallow (⟨name, v, trail⟩ :: ms) := fun _ ↦
            forall_mem_cons.mpr ⟨Nat.add_le_of_le_sub (by decide) hv, hms⟩
          rw [hr] at hw
          rcases hs with hs | hs
          · rw [hs]
            refine ⟨.full ⟨{ name with lead := b.append name.lead }, v, trail⟩ ms, r, hms' _, ?_⟩
            rw [hrest]
            simp only at hw
            rw [hw, hs]
            simp [Decoder.sep, Object.inner, Member.text, Name.text, Blank.append]
          · rw [hs]
            refine ⟨b, ⟨name, v, trail⟩ :: ms, r, hms' _, ?_⟩
            simp only at hw
            rw [hrest, hw, hs]
            simp [Decoder.sep, Member.text]

/-- What is opened starts with a brace. -/
theorem of_expectDelim_open {doc : Bytes} (h : expectDelim (.new doc) 0x7B = .ok d) :
    ∃ (lead : Blank) (r : Bytes), doc = lead.1 ++ 0x7B :: r ∧
      d = ⟨r, lead.1.length + 1, .objectStart, [.topValue]⟩ := by
  cases hpeek : (Decoder.new doc).peek with
  | none => simp [expectDelim, Decoder.token, hpeek] at h
  | some p =>
    obtain ⟨c, d₁⟩ := p
    obtain ⟨lead, r, hsp, hrest, rfl⟩ := Decoder.of_peek hpeek
    have hdoc : doc = lead.1 ++ c :: r := hrest
    by_cases hc : c = 0x7B
    · subst hc
      rw [hdoc, expectDelim_open] at h
      exact ⟨lead, r, hdoc, by simpa [eq_comm] using h⟩
    · -- any other token is not the brace asked for
      have hpeek : (Decoder.new doc).peek = some (c, ⟨c :: r, 0 + lead.1.length, .topValue, []⟩) :=
        hpeek
      have htok : (Decoder.new doc).token =
          (⟨c :: r, 0 + lead.1.length, .topValue, []⟩ : Decoder).tokenAt c := by
        rw [Decoder.token, hpeek]
        simp
      unfold expectDelim at h
      rw [htok] at h
      split at h
      · next b d₁ hb =>
        rw [if_neg (by rwa [Decoder.tokenAt_delim hb])] at h
        cases h
      · cases h

/-- Where `locateSubject` succeeds, the document starts with an object. -/
theorem exists_object_of_locate {doc : Bytes} (h : locateSubject fold doc path = .ok span) :
    ∃ (lead : Blank) (obj : Object) (r : Bytes), Shallow obj.members ∧
      doc = lead.1 ++ (obj.text ++ r) := by
  unfold locateSubject at h
  cases hopen : expectDelim (.new doc) 0x7B with
  | error err => rw [hopen] at h; cases h
  | ok d =>
    obtain ⟨lead, w, rfl, rfl⟩ := of_expectDelim_open hopen
    rw [hopen] at h
    simp only [bind, Except.bind] at h
    split at h
    · cases h
    · next p hwalk =>
      obtain ⟨d', found⟩ := p
      cases hclose : expectDelim d' 0x7D with
      | error err => simp [finishWalk, hclose, bind, Except.bind] at h
      | ok d'' =>
        obtain ⟨obj, r, hms, rfl⟩ := members_of_walk (.inl rfl) rfl hwalk hclose
        exact ⟨lead, obj, r, hms, by simp [Object.text_eq]⟩

/-! ### What the pass finds -/

/-- The member is neither the Subject nor a twin of it. -/
def Apart (fold : ℕ → ℕ) (path : Bytes) (m : Member) : Prop :=
  equalFold fold m.name.name path = false

theorem Apart.ne {m : Member} (h : Apart fold path m) : m.name.name ≠ path := by
  intro e
  rw [Apart, e, equalFold_refl] at h
  cases h

/-- A member of another name is passed over. -/
theorem judge_apart {m : Member} (h : Apart fold path m) (span : SubjectSpan)
    (found : Option SubjectSpan) : judge fold path m.name.name span found = .ok found := by
  have hf : equalFold fold m.name.name path = false := h
  simp [judge, h.ne, hf]

/-- What a member adds to the search. -/
theorem judge_eq_ok_iff {m : Member} {found' : Option SubjectSpan} :
    judge fold path m.name.name span found = .ok found' ↔
      (Apart fold path m ∧ found' = found) ∨
        (m.name.name = path ∧ found = none ∧ found' = some span) := by
  constructor
  · intro h
    unfold judge at h
    split at h
    · next hpath =>
      split at h
      · cases h
      · next hnone => exact .inr ⟨hpath, by simpa using hnone, by simpa [eq_comm] using h⟩
    · split at h
      · cases h
      · next hf => exact .inl ⟨by simpa [Apart] using hf, by simpa [eq_comm] using h⟩
  · rintro (⟨h, rfl⟩ | ⟨h, rfl, rfl⟩)
    · exact judge_apart h ..
    · simp [judge, h]

/-- Once the Subject is found, every other member must be apart from it. -/
theorem survey_some_eq_ok_iff {pos : ℕ} {ms : List Member} :
    survey fold path pos ms (some span) = .ok found ↔
      (∀ m ∈ ms, Apart fold path m) ∧ found = some span := by
  induction ms generalizing pos with
  | nil => simp [survey, eq_comm]
  | cons m ms ih =>
    rw [survey, forall_mem_cons]
    simp only [bind, Except.bind]
    cases hj : judge fold path m.name.name _ (some span) with
    | error err =>
      have : ¬Apart fold path m := fun h ↦ by rw [judge_apart h] at hj; cases hj
      simp [this]
    | ok found' =>
      rcases judge_eq_ok_iff.mp hj with ⟨h, rfl⟩ | ⟨-, h, -⟩
      · simp [h, ih]
      · cases h

/-- The Subject and where it is: `before` and `after` are the other members. -/
theorem survey_none_eq_ok_iff {pos : ℕ} {ms : List Member} :
    survey fold path pos ms none = .ok (some span) ↔
      ∃ before m after, ms = before ++ m :: after ∧ m.name.name = path ∧
        (∀ m' ∈ before ++ after, Apart fold path m') ∧
        span = spanAt (pos + (tailText before).length)
          (pos + (tailText before).length + 1 + m.name.text.length) m := by
  induction ms generalizing pos with
  | nil => simp [survey]
  | cons m ms ih =>
    rw [survey]
    simp only [bind, Except.bind]
    constructor
    · intro h
      split at h
      · cases h
      · next found' hj =>
        rcases judge_eq_ok_iff.mp hj with ⟨hm, rfl⟩ | ⟨hm, -, rfl⟩
        · obtain ⟨before, m', after, rfl, hm', hothers, rfl⟩ := ih.mp h
          refine ⟨m :: before, m', after, rfl, hm', forall_mem_cons.mpr ⟨hm, hothers⟩, ?_⟩
          simp only [tailText_cons, length_cons, length_append]
          congr 1 <;> omega
        · obtain ⟨hothers, hspan⟩ := survey_some_eq_ok_iff.mp h
          exact ⟨[], m, ms, rfl, hm, hothers, by simpa using hspan⟩
    · rintro ⟨before, m', after, hms, hm', hothers, rfl⟩
      cases before with
      | nil =>
        obtain ⟨rfl, rfl⟩ : m = m' ∧ ms = after := by simpa using hms
        rw [judge_eq_ok_iff.mpr (.inr ⟨hm', rfl, rfl⟩)]
        exact survey_some_eq_ok_iff.mpr ⟨hothers, by simp⟩
      | cons b before =>
        obtain ⟨rfl, rfl⟩ : m = b ∧ ms = before ++ m' :: after := by simpa using hms
        obtain ⟨hb, hothers⟩ := forall_mem_cons.mp hothers
        rw [judge_apart hb]
        refine ih.mpr ⟨before, m', after, rfl, hm', hothers, ?_⟩
        simp only [tailText_cons, length_cons, length_append]
        congr 1 <;> omega

/-! ### What is accepted -/

/-- `m` is the Subject of the object, between the members `before` and `after` it: it is named
`path`, and no other member is, nor has a name that case-folds to it. -/
structure IsSubject (fold : ℕ → ℕ) (path : Bytes) (obj : Object) (before : List Member)
    (m : Member) (after : List Member) : Prop where
  members : obj.members = before ++ m :: after
  name : m.name.name = path
  apart : ∀ m' ∈ before ++ after, equalFold fold m'.name.name path = false

variable {obj : Object}

/-- An object has one Subject at most. -/
theorem IsSubject.unique {before before' after after' : List Member} {m m' : Member}
    (h : IsSubject fold path obj before m after) (h' : IsSubject fold path obj before' m' after') :
    before = before' ∧ m = m' ∧ after = after' := by
  have hm : ¬Apart fold path m := fun ha ↦ ha.ne h.name
  have hm' : ¬Apart fold path m' := fun ha ↦ ha.ne h'.name
  have e := h.members.symm.trans h'.members
  obtain ⟨w, rfl, hw⟩ | ⟨w, rfl, hw⟩ := append_eq_append_iff.mp e
  · cases w with
    | nil => simpa using hw
    | cons b w =>
      obtain ⟨rfl, -⟩ : m = b ∧ _ := by simpa using hw
      exact absurd (h'.apart m (by simp)) hm
  · cases w with
    | nil => simpa [eq_comm] using hw
    | cons b w =>
      obtain ⟨rfl, -⟩ : m' = b ∧ _ := by simpa using hw
      exact absurd (h.apart m' (by simp)) hm'

/-- The text between the opening brace and the value of a member. -/
def headText : List Member → Member → Bytes
  | [], m => m.name.text
  | before, m => membersText before ++ 0x2C :: m.name.text

/-- The text between the opening brace and the first byte of a member: its comma, or the quote of
its name when it is the first. -/
def leadText : List Member → Member → Bytes
  | [], m => m.name.lead.1
  | before, _ => membersText before

/-- The span is that of the member: `lead` and the opening brace, then the members `before` it. -/
structure Pins (lead : Blank) (before : List Member) (m : Member) (span : SubjectSpan) : Prop where
  value : span.value = m.value.text
  start : span.start = (lead.1 ++ 0x7B :: headText before m).length
  stop : span.stop = span.start + m.value.text.length
  memberStart : span.memberStart = (lead.1 ++ 0x7B :: leadText before m).length

theorem exists_pins (lead : Blank) (before : List Member) (m : Member) :
    ∃ span, Pins lead before m span :=
  ⟨spanAt (lead.1 ++ 0x7B :: leadText before m).length
    (lead.1 ++ 0x7B :: headText before m).length m, rfl, rfl, rfl, rfl⟩

/-- The survey of an object finds its one subject. -/
theorem surveyObject_eq_ok_iff {lead : Blank} :
    surveyObject fold path (lead.1.length + 1) obj = .ok (some span) ↔
      ∃ before m after, IsSubject fold path obj before m after ∧ Pins lead before m span := by
  have hspan : ∀ {before m}, Pins lead before m span ↔
      span = spanAt (lead.1.length + 1 + (leadText before m).length)
        (lead.1.length + 1 + (headText before m).length) m := by
    intro before m
    obtain ⟨value, start, stop, memberStart⟩ := span
    constructor
    · rintro ⟨h₁, h₂, h₃, h₄⟩
      simp only [length_append, length_cons] at h₁ h₂ h₃ h₄
      simp only [spanAt, SubjectSpan.mk.injEq]
      exact ⟨h₁, by omega, by omega, by omega⟩
    · intro h
      obtain ⟨rfl, rfl, rfl, rfl⟩ := h
      constructor <;> simp <;> omega
  simp only [hspan]
  cases obj with
  | empty b =>
    simp only [surveyObject, Except.ok.injEq, reduceCtorEq, false_iff]
    rintro ⟨before, m, after, ⟨h, -, -⟩, -⟩
    simp [Object.members] at h
  | full m ms =>
    simp only [surveyObject, bind, Except.bind]
    constructor
    · intro h
      split at h
      · cases h
      · next found hj =>
        rcases judge_eq_ok_iff.mp hj with ⟨hm, rfl⟩ | ⟨hm, -, rfl⟩
        · obtain ⟨before, m', after, rfl, hm', hothers, rfl⟩ := survey_none_eq_ok_iff.mp h
          refine ⟨m :: before, m', after, ⟨rfl, hm', forall_mem_cons.mpr ⟨hm, hothers⟩⟩, ?_⟩
          simp only [leadText, headText, membersText, length_append, length_cons]
          congr 1 <;> omega
        · obtain ⟨hothers, hsp⟩ := survey_some_eq_ok_iff.mp h
          exact ⟨[], m, ms, ⟨rfl, hm, hothers⟩, by simpa [leadText, headText] using hsp⟩
    · rintro ⟨before, m', after, ⟨hms, hm', hothers⟩, rfl⟩
      cases before with
      | nil =>
        obtain ⟨rfl, rfl⟩ : m = m' ∧ ms = after := by simpa [Object.members] using hms
        rw [judge_eq_ok_iff.mpr (.inr ⟨hm', rfl, rfl⟩)]
        exact survey_some_eq_ok_iff.mpr ⟨hothers, rfl⟩
      | cons b before =>
        obtain ⟨rfl, rfl⟩ : m = b ∧ ms = before ++ m' :: after := by
          simpa [Object.members] using hms
        obtain ⟨hb, hothers⟩ := forall_mem_cons.mp hothers
        rw [judge_apart hb]
        refine survey_none_eq_ok_iff.mpr ⟨before, m', after, rfl, hm', hothers, ?_⟩
        simp only [leadText, headText, membersText, length_append, length_cons]
        congr 1 <;> omega

/-- The walk on a document that starts with an object. -/
theorem locate_eq_ok_iff {lead : Blank} (hms : Shallow obj.members) :
    locateSubject fold (lead.1 ++ (obj.text ++ r)) path = .ok span ↔
      Closed r ∧ ∃ before m after, IsSubject fold path obj before m after ∧
        Pins lead before m span := by
  rw [locateSubject_object lead obj hms r, ← surveyObject_eq_ok_iff]
  cases surveyObject fold path (lead.1.length + 1) obj with
  | error err => simp [bind, Except.bind]
  | ok found => simp [bind, Except.bind, conclude_eq_ok_iff]

/-- The document is exactly one object, with whitespace around it at most, and the object has a
Subject. -/
def IsSubjectDocument (fold : ℕ → ℕ) (doc path : Bytes) : Prop :=
  ∃ (lead : Blank) (obj : Object) (trail : Blank) (before : List Member) (m : Member)
    (after : List Member), doc = lead.1 ++ (obj.text ++ trail.1) ∧
      IsSubject fold path obj before m after

/-- `locateSubject` accepts exactly the documents with a Subject, and returns where it is. -/
def PinsSubject (fold : ℕ → ℕ) (doc path : Bytes) : Prop :=
  ((∃ span, locateSubject fold doc path = .ok span) ↔ IsSubjectDocument fold doc path) ∧
    ∀ span, locateSubject fold doc path = .ok span →
      ∀ (lead : Blank) (obj : Object) (trail : Blank) (before : List Member) (m : Member)
        (after : List Member), doc = lead.1 ++ (obj.text ++ trail.1) →
        IsSubject fold path obj before m after → Pins lead before m span

/-- The document is an object with a Subject followed by a stray closing delimiter, and whatever
else. -/
def StrayClose (fold : ℕ → ℕ) (doc path : Bytes) : Prop :=
  ∃ (lead : Blank) (obj : Object) (gap : Blank) (c : UInt8) (junk : Bytes) (before : List Member)
    (m : Member) (after : List Member), doc = lead.1 ++ (obj.text ++ (gap.1 ++ c :: junk)) ∧
      (c = 0x5D ∨ c = 0x7D) ∧ Shallow obj.members ∧ IsSubject fold path obj before m after

/-- The document is an object with a Subject that nests deeper than `encoding/json` reads. -/
def TooDeep (fold : ℕ → ℕ) (doc path : Bytes) : Prop :=
  ∃ (lead : Blank) (obj : Object) (trail : Blank) (before : List Member) (m : Member)
    (after : List Member), doc = lead.1 ++ (obj.text ++ trail.1) ∧ ¬Shallow obj.members ∧
      IsSubject fold path obj before m after

theorem closed_blank (b : Blank) : Closed b.1 := by
  refine .inl ?_
  have h := skip_blank_append b dense_nil
  rwa [append_nil] at h

theorem closed_close (gap : Blank) {c : UInt8} (hc : c = 0x5D ∨ c = 0x7D) (junk : Bytes) :
    Closed (gap.1 ++ c :: junk) := by
  have hsp : isSpace c = false := by rcases hc with rfl | rfl <;> decide
  exact .inr ⟨c, junk, skip_blank_append gap (dense_cons hsp), hc⟩

/-- A text that ends or goes on with a closing delimiter may follow a value. -/
theorem Closed.follows (h : Closed r) : Follows r := by
  rw [← blank_append_skip r]
  refine Follows.blank ?_ _
  rcases h with h | ⟨c, w, h, hc⟩
  · rw [h]
    exact follows_nil
  · rw [h]
    exact follows_cons (.inr (.inr hc))

/-- The object a document starts with is there in one way only. -/
theorem object_unique {lead lead' : Blank} {obj' : Object} {r' : Bytes} (hr : Follows r)
    (hr' : Follows r') (h : lead.1 ++ (obj.text ++ r) = lead'.1 ++ (obj'.text ++ r')) :
    obj.value = obj'.value ∧ r = r' := by
  have hskip := congrArg skip h
  simp only [Object.text] at hskip
  rw [skip_blank_append lead (obj.value.dense_value r),
    skip_blank_append lead' (obj'.value.dense_value r')] at hskip
  exact text_append_inj hr hr' hskip

/-- Whether an object is too deep is a matter of its value. -/
theorem shallow_of_value {obj' : Object} (h : obj.value = obj'.value) (hms : Shallow obj.members) :
    Shallow obj'.members := by
  have key : ∀ o : Object, Shallow o.members ↔ o.value.depth ≤ maxNestingDepth := by
    rintro (b | ⟨m, ms⟩)
    · simp [Shallow, Object.members, Object.value, Syn.depth, maxNestingDepth]
    · have hlimit (d : ℕ) : d + 1 ≤ maxNestingDepth ↔ d ≤ maxNestingDepth - 1 :=
        (Nat.le_sub_one_iff_lt (by decide)).symm
      rw [Object.value, Syn.depth, hlimit, Syn.depth_ofList]
      exact forall₂_congr fun m _ ↦ hlimit m.value.depth
  rw [key, ← h, ← key]
  exact hms

/-- For every document, `locateSubject` accepts exactly the objects with a Subject and pins it,
unless the document is such an object followed by a stray closing delimiter, or one that
`encoding/json` does not read for its nesting. -/
theorem locateSubject_pins (fold : ℕ → ℕ) (doc path : Bytes) :
    PinsSubject fold doc path ↔ ¬StrayClose fold doc path ∧ ¬TooDeep fold doc path := by
  constructor
  · rintro ⟨hiff, -⟩
    constructor
    · rintro ⟨lead, obj, gap, c, junk, before, m, after, rfl, hc, hms, hsub⟩
      have hclosed := closed_close gap hc junk
      obtain ⟨span, hspan⟩ := exists_pins lead before m
      have hok := (locate_eq_ok_iff hms).mpr ⟨hclosed, before, m, after, hsub, hspan⟩
      obtain ⟨lead', obj', trail, -, -, -, hdoc, -⟩ := hiff.mp ⟨span, hok⟩
      obtain ⟨-, hr⟩ := object_unique hclosed.follows (closed_blank trail).follows hdoc
      have hsp : isSpace c := all_eq_true.mp trail.2 c (by rw [← hr]; simp)
      rcases hc with rfl | rfl <;> cases hsp
    · rintro ⟨lead, obj, trail, before, m, after, rfl, hms, hsub⟩
      obtain ⟨span, hok⟩ := hiff.mpr ⟨lead, obj, trail, before, m, after, rfl, hsub⟩
      obtain ⟨lead', obj', r, hms', hdoc⟩ := exists_object_of_locate hok
      rw [hdoc] at hok
      have hclosed := ((locate_eq_ok_iff hms').mp hok).1
      obtain ⟨hobj, -⟩ := object_unique (closed_blank trail).follows hclosed.follows hdoc
      exact hms (shallow_of_value hobj.symm hms')
  · rintro ⟨hstray, hdeep⟩
    refine ⟨⟨?_, ?_⟩, ?_⟩
    · rintro ⟨span, hok⟩
      obtain ⟨lead, obj, r, hms, rfl⟩ := exists_object_of_locate hok
      obtain ⟨hclosed, before, m, after, hsub, -⟩ := (locate_eq_ok_iff hms).mp hok
      have hr := blank_append_skip r
      rcases hclosed with hnil | ⟨c, w, hskip, hc⟩
      · rw [hnil, append_nil] at hr
        exact ⟨lead, obj, blank r, before, m, after, by rw [hr], hsub⟩
      · rw [hskip] at hr
        exact absurd ⟨lead, obj, blank r, c, w, before, m, after, by rw [hr], hc, hms, hsub⟩ hstray
    · rintro ⟨lead, obj, trail, before, m, after, rfl, hsub⟩
      have hms : Shallow obj.members := by
        by_contra hms
        exact hdeep ⟨lead, obj, trail, before, m, after, rfl, hms, hsub⟩
      obtain ⟨span, hspan⟩ := exists_pins lead before m
      exact ⟨span, (locate_eq_ok_iff hms).mpr ⟨closed_blank trail, before, m, after, hsub, hspan⟩⟩
    · rintro span hok lead obj trail before m after rfl hsub
      have hms : Shallow obj.members := by
        by_contra hms
        exact hdeep ⟨lead, obj, trail, before, m, after, rfl, hms, hsub⟩
      obtain ⟨-, before', m', after', hsub', hspan⟩ := (locate_eq_ok_iff hms).mp hok
      obtain ⟨rfl, rfl, rfl⟩ := hsub.unique hsub'
      exact hspan

/-- How a document that is one object ends: with its brace, or whitespace after it. -/
theorem getLast_document (lead : Blank) (obj : Object) (trail : Blank) :
    ∃ b, (lead.1 ++ (obj.text ++ trail.1)).getLast? = some b ∧ (b = 0x7D ∨ isSpace b) := by
  obtain ⟨trail, htrail⟩ := trail
  rcases eq_nil_or_concat trail with rfl | ⟨w, b, rfl⟩
  · refine ⟨0x7D, ?_, .inl rfl⟩
    rw [Object.text_eq, append_nil, ← cons_append, ← append_assoc,
      List.getLast?_concat]
  · refine ⟨b, ?_, .inr (all_eq_true.mp htrail b (by simp))⟩
    simp only [concat_eq_append]
    rw [← append_assoc, ← append_assoc, List.getLast?_concat]

/-- The document `{"a":1}]` is accepted. -/
theorem accepts_stray_close :
    ¬PinsSubject asciiFold [0x7B, 0x22, 0x61, 0x22, 0x3A, 0x31, 0x7D, 0x5D] [0x61] := by
  rintro ⟨hiff, -⟩
  have hok : locateSubject asciiFold [0x7B, 0x22, 0x61, 0x22, 0x3A, 0x31, 0x7D, 0x5D] [0x61] =
      .ok ⟨[0x31], 5, 6, 1⟩ := rfl
  obtain ⟨lead, obj, trail, -, -, -, hdoc, -⟩ := hiff.mp ⟨_, hok⟩
  obtain ⟨b, hb, hend⟩ := getLast_document lead obj trail
  rw [← hdoc] at hb
  obtain rfl : 0x5D = b := by simpa using hb
  revert hend
  decide

end Sealed
