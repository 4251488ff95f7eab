import GoBricks.Lib.Json.Syntax

/-!
# Scanning tokens

A **scanner** takes a token off the front of a text, or fails. Two properties tie it to the grammar
of its tokens: what it takes is a token and the rest is the rest (`Sound`), and on a token before a
text that cannot continue it, it takes exactly that token (`Complete`). Numbers are scanned part by
part and put together by `andThen`, which keeps both.
-/

namespace Json

/-- Takes a token off the front of a text: the token and the rest. -/
abbrev Scanner := Bytes → Option (Bytes × Bytes)

namespace Scanner

/-- What the scanner takes is a token. -/
def Sound (s : Scanner) (P : Bytes → Prop) : Prop :=
  ∀ ⦃bs t r : Bytes⦄, s bs = some (t, r) → bs = t ++ r ∧ P t

/-- A token before a text of `Stop` is what the scanner takes. -/
def Complete (s : Scanner) (P Stop : Bytes → Prop) : Prop :=
  ∀ ⦃t r : Bytes⦄, P t → Stop r → s (t ++ r) = some (t, r)

/-- One token, then another. -/
def andThen (s₁ s₂ : Scanner) : Scanner := fun bs ↦ do
  let (t₁, r₁) ← s₁ bs
  let (t₂, r₂) ← s₂ r₁
  return (t₁ ++ t₂, r₂)

/-- The tokens of `andThen`. -/
def Concat (P Q : Bytes → Prop) (t : Bytes) : Prop :=
  ∃ t₁ t₂, P t₁ ∧ Q t₂ ∧ t = t₁ ++ t₂

variable {s₁ s₂ : Scanner} {P Q Stop₁ Stop₂ : Bytes → Prop}

/-- Scanners follow each other. -/
theorem Sound.andThen (h₁ : s₁.Sound P) (h₂ : s₂.Sound Q) :
    (s₁.andThen s₂).Sound (Concat P Q) := by
  intro bs t r h
  simp only [Scanner.andThen, bind, pure, Option.bind_eq_some_iff, Option.some.injEq,
    Prod.mk.injEq, Prod.exists] at h
  obtain ⟨t₁, r₁, hs₁, t₂, r₂, hs₂, rfl, rfl⟩ := h
  obtain ⟨rfl, hP⟩ := h₁ hs₁
  obtain ⟨rfl, hQ⟩ := h₂ hs₂
  exact ⟨(List.append_assoc ..).symm, t₁, t₂, hP, hQ, rfl⟩

/-- So do complete ones, if the first stops where the second starts. -/
theorem Complete.andThen (h₁ : s₁.Complete P Stop₁) (h₂ : s₂.Complete Q Stop₂)
    (hstop : ∀ {t r : Bytes}, Q t → Stop₂ r → Stop₁ (t ++ r)) :
    (s₁.andThen s₂).Complete (Concat P Q) Stop₂ := by
  rintro _ r ⟨t₁, t₂, hP, hQ, rfl⟩ hr
  have e₁ : s₁ (t₁ ++ (t₂ ++ r)) = some (t₁, t₂ ++ r) := h₁ hP (hstop hQ hr)
  simp [Scanner.andThen, e₁, h₂ hQ hr]

end Scanner

open Scanner

/-! ### Whitespace -/

/-- The whitespace at the front of a text. -/
def blank (bs : Bytes) : Blank :=
  ⟨bs.takeWhile isSpace, List.all_takeWhile⟩

/-- The text after the whitespace at its front. -/
def skip (bs : Bytes) : Bytes :=
  bs.dropWhile isSpace

/-- The text does not start with whitespace. -/
def Dense (r : Bytes) : Prop :=
  ∀ b ∈ r.head?, isSpace b = false

variable {r : Bytes}

theorem dense_cons {b : UInt8} (h : isSpace b = false) : Dense (b :: r) := by
  simpa [Dense] using h

theorem dense_nil : Dense [] := by
  simp [Dense]

theorem blank_append_skip (bs : Bytes) : (blank bs).1 ++ skip bs = bs :=
  List.takeWhile_append_dropWhile

theorem dense_skip (bs : Bytes) : Dense (skip bs) := by
  intro b hb
  have h := List.head?_dropWhile_not isSpace bs
  rw [skip] at hb
  rw [hb] at h
  exact h

variable {t : Bytes}

theorem takeWhile_append_of_all {p : UInt8 → Bool} (ht : t.all p)
    (hr : ∀ b ∈ r.head?, p b = false) : (t ++ r).takeWhile p = t ∧ (t ++ r).dropWhile p = r := by
  have hr' : r.takeWhile p = [] ∧ r.dropWhile p = r := by
    cases r with
    | nil => exact ⟨rfl, rfl⟩
    | cons b r => simp [hr b rfl]
  have ht' := List.all_eq_true.mp ht
  rw [List.takeWhile_append_of_pos ht', List.dropWhile_append_of_pos ht', hr'.1, hr'.2]
  simp

theorem skip_blank_append (b : Blank) (hr : Dense r) : skip (b.1 ++ r) = r :=
  (takeWhile_append_of_all b.2 hr).2

theorem blank_blank_append (b : Blank) (hr : Dense r) : blank (b.1 ++ r) = b :=
  Subtype.ext (takeWhile_append_of_all b.2 hr).1

/-! ### Strings -/

/-- The bytes up to the closing quote of a string; the quote is not among them, nor in the rest. -/
def scanInterior : Scanner
  | [] => none
  | b :: bs =>
    if b = 0x22 then
      some ([], bs)
    else if b = 0x5C then
      match bs with
      | [] => none
      | c :: bs =>
        if isEscape c then
          (scanInterior bs).map fun p ↦ (b :: c :: p.1, p.2)
        else if c = 0x75 then
          match bs with
          | h₁ :: h₂ :: h₃ :: h₄ :: bs =>
            if [h₁, h₂, h₃, h₄].all isHex then
              (scanInterior bs).map fun p ↦ (b :: c :: h₁ :: h₂ :: h₃ :: h₄ :: p.1, p.2)
            else
              none
          | _ => none
        else
          none
    else if isPlain b then
      (scanInterior bs).map fun p ↦ (b :: p.1, p.2)
    else
      none

/-- A string token. -/
def scanString : Scanner
  | [] => none
  | b :: bs =>
    if b = 0x22 then (scanInterior bs).map fun p ↦ (b :: (p.1 ++ [0x22]), p.2) else none

theorem scanInterior_sound {bs w : Bytes} (h : scanInterior bs = some (w, r)) :
    bs = w ++ 0x22 :: r ∧ Interior w := by
  fun_induction scanInterior bs generalizing w with
  | case1 => cases h
  | case2 bs =>
    obtain ⟨rfl, rfl⟩ : [] = w ∧ bs = r := by simpa using h
    exact ⟨rfl, .nil⟩
  | case3 => cases h
  | case4 c bs hc _ ih =>
    obtain ⟨p, hp, ⟨⟩⟩ := Option.map_eq_some_iff.mp h
    obtain ⟨rfl, hw⟩ := ih hp
    exact ⟨rfl, .escape hc hw⟩
  | case5 h₁ h₂ h₃ h₄ bs hhex _ _ ih =>
    obtain ⟨p, hp, ⟨⟩⟩ := Option.map_eq_some_iff.mp h
    obtain ⟨rfl, hw⟩ := ih hp
    exact ⟨rfl, .unicode (h := [h₁, h₂, h₃, h₄]) rfl hhex hw⟩
  | case6 | case7 | case8 => cases h
  | case9 b bs _ _ hb ih =>
    obtain ⟨p, hp, ⟨⟩⟩ := Option.map_eq_some_iff.mp h
    obtain ⟨rfl, hw⟩ := ih hp
    exact ⟨rfl, .plain hb hw⟩
  | case10 => cases h

theorem scanInterior_complete {w : Bytes} (hw : Interior w) (r : Bytes) :
    scanInterior (w ++ 0x22 :: r) = some (w, r) := by
  induction hw with
  | nil =>
    rw [List.nil_append, scanInterior.eq_def]
    simp
  | @plain b w hb hw ih =>
    have hne : b ≠ 0x22 ∧ b ≠ 0x5C := by
      simp only [isPlain, Bool.and_eq_true, bne_iff_ne] at hb
      exact ⟨hb.1.2, hb.2⟩
    rw [List.cons_append, scanInterior.eq_def]
    simp [hne, hb, ih]
  | @escape c w hc hw ih =>
    rw [List.cons_append, List.cons_append, scanInterior.eq_def]
    simp [hc, ih]
  | @unicode h w hlen hhex hw ih =>
    match h, hlen with
    | [h₁, h₂, h₃, h₄], _ =>
      have hu : isEscape 0x75 = false := by decide
      rw [scanInterior.eq_def]
      simp [hu, hhex, ih]

theorem scanString_sound : Sound scanString IsString := by
  intro bs t r h
  cases bs with
  | nil => cases h
  | cons b bs =>
    obtain ⟨rfl, h⟩ : b = 0x22 ∧ _ := Option.ite_none_right_eq_some.mp h
    obtain ⟨⟨w, r'⟩, hw, ⟨⟩⟩ := Option.map_eq_some_iff.mp h
    obtain ⟨rfl, hi⟩ := scanInterior_sound hw
    exact ⟨by simp, w, hi, rfl⟩

theorem scanString_complete : Complete scanString IsString fun _ ↦ True := by
  rintro _ r ⟨w, hw, rfl⟩ -
  simp [scanString, scanInterior_complete hw]

/-! ### Numbers -/

/-- The text does not go on with a digit. -/
def NoDigit (r : Bytes) : Prop :=
  ∀ b ∈ r.head?, isDigit b = false

/-- One or more digits. -/
def scanDigits : Scanner := fun bs ↦
  match bs.takeWhile isDigit with
  | [] => none
  | d :: ds => some (d :: ds, bs.dropWhile isDigit)

/-- The sign of a number. -/
def scanSign : Scanner
  | [] => some ([], [])
  | b :: bs => if b = 0x2D then some ([b], bs) else some ([], b :: bs)

/-- The integer part of a number. -/
def scanInt : Scanner
  | [] => none
  | b :: bs =>
    if b = 0x30 then
      some ([b], bs)
    else if isDigit b then
      some (b :: bs.takeWhile isDigit, bs.dropWhile isDigit)
    else
      none

/-- The fraction of a number. -/
def scanFrac : Scanner
  | [] => some ([], [])
  | b :: bs =>
    if b = 0x2E then (scanDigits bs).map fun p ↦ (b :: p.1, p.2) else some ([], b :: bs)

/-- The sign of an exponent. -/
def scanExpSign : Scanner
  | [] => some ([], [])
  | b :: bs => if b = 0x2B ∨ b = 0x2D then some ([b], bs) else some ([], b :: bs)

/-- The exponent of a number. -/
def scanExp : Scanner
  | [] => some ([], [])
  | b :: bs =>
    if b = 0x65 ∨ b = 0x45 then
      (scanExpSign.andThen scanDigits bs).map fun p ↦ (b :: p.1, p.2)
    else
      some ([], b :: bs)

/-- A number token. -/
def scanNumber : Scanner :=
  scanSign.andThen (scanInt.andThen (scanFrac.andThen scanExp))

theorem scanDigits_sound : Sound scanDigits IsDigits := by
  intro bs t r h
  have happ := List.takeWhile_append_dropWhile (p := isDigit) (l := bs)
  have hall := List.all_takeWhile (p := isDigit) (l := bs)
  unfold scanDigits at h
  split at h
  · cases h
  · next d ds hds =>
    obtain ⟨rfl, rfl⟩ : d :: ds = t ∧ _ = r := by simpa using h
    rw [hds] at happ hall
    exact ⟨happ.symm, by simp, hall⟩

theorem scanDigits_complete : Complete scanDigits IsDigits NoDigit := by
  rintro t r ⟨hne, hall⟩ hr
  obtain ⟨htake, hdrop⟩ := takeWhile_append_of_all hall hr
  match t, hne with
  | d :: ds, _ => rw [scanDigits, htake, hdrop]

theorem scanSign_sound : Sound scanSign IsSign := by
  intro bs t r h
  cases bs with
  | nil =>
    obtain ⟨rfl, rfl⟩ : [] = t ∧ [] = r := by simpa [scanSign] using h
    exact ⟨rfl, .inl rfl⟩
  | cons b bs =>
    rw [scanSign] at h
    split at h
    · next hb =>
      obtain ⟨rfl, rfl⟩ : [b] = t ∧ bs = r := by simpa using h
      exact ⟨rfl, .inr (by rw [hb])⟩
    · obtain ⟨rfl, rfl⟩ : [] = t ∧ b :: bs = r := by simpa using h
      exact ⟨rfl, .inl rfl⟩

theorem scanSign_complete : Complete scanSign IsSign fun r ↦ ∀ b ∈ r.head?, b ≠ 0x2D := by
  rintro t r (rfl | rfl) hr
  · cases r with
    | nil => rfl
    | cons b r => simp [scanSign, hr b rfl]
  · simp [scanSign]

theorem scanInt_sound : Sound scanInt IsInt := by
  intro bs t r h
  cases bs with
  | nil => cases h
  | cons b bs =>
    rw [scanInt] at h
    split at h
    · next hb =>
      obtain ⟨rfl, rfl⟩ : [b] = t ∧ bs = r := by simpa using h
      exact ⟨rfl, .inl (by rw [hb])⟩
    · next hb =>
      obtain ⟨hd, rfl, rfl⟩ : isDigit b ∧ b :: bs.takeWhile isDigit = t ∧
          bs.dropWhile isDigit = r := by simpa using h
      exact ⟨by rw [List.cons_append, List.takeWhile_append_dropWhile], .inr
        ⟨b, _, rfl, hb, hd, List.all_takeWhile⟩⟩

theorem scanInt_complete : Complete scanInt IsInt NoDigit := by
  rintro t r (rfl | ⟨d, ds, rfl, h0, hd, hds⟩) hr
  · simp [scanInt]
  · obtain ⟨htake, hdrop⟩ := takeWhile_append_of_all hds hr
    simp [scanInt, h0, hd, htake, hdrop]

theorem scanFrac_sound : Sound scanFrac IsFrac := by
  intro bs t r h
  cases bs with
  | nil =>
    obtain ⟨rfl, rfl⟩ : [] = t ∧ [] = r := by simpa [scanFrac] using h
    exact ⟨rfl, .inl rfl⟩
  | cons b bs =>
    rw [scanFrac] at h
    split at h
    · next hb =>
      obtain ⟨⟨ds, r'⟩, hds, ⟨⟩⟩ := Option.map_eq_some_iff.mp h
      obtain ⟨rfl, hd⟩ := scanDigits_sound hds
      exact ⟨rfl, .inr ⟨ds, by rw [hb], hd⟩⟩
    · obtain ⟨rfl, rfl⟩ : [] = t ∧ b :: bs = r := by simpa using h
      exact ⟨rfl, .inl rfl⟩

theorem scanFrac_complete :
    Complete scanFrac IsFrac fun r ↦ NoDigit r ∧ ∀ b ∈ r.head?, b ≠ 0x2E := by
  rintro t r (rfl | ⟨ds, rfl, hds⟩) ⟨hr, hdot⟩
  · cases r with
    | nil => rfl
    | cons b r => simp [scanFrac, hdot b rfl]
  · simp [scanFrac, scanDigits_complete hds hr]

/-- The sign of an exponent. -/
def IsExpSign (t : Bytes) : Prop :=
  t = [] ∨ t = [0x2B] ∨ t = [0x2D]

theorem scanExpSign_sound : Sound scanExpSign IsExpSign := by
  intro bs t r h
  cases bs with
  | nil =>
    obtain ⟨rfl, rfl⟩ : [] = t ∧ [] = r := by simpa [scanExpSign] using h
    exact ⟨rfl, .inl rfl⟩
  | cons b bs =>
    rw [scanExpSign] at h
    split at h
    · next hb =>
      obtain ⟨rfl, rfl⟩ : [b] = t ∧ bs = r := by simpa using h
      exact ⟨rfl, .inr (by simpa using hb)⟩
    · obtain ⟨rfl, rfl⟩ : [] = t ∧ b :: bs = r := by simpa using h
      exact ⟨rfl, .inl rfl⟩

theorem scanExpSign_complete :
    Complete scanExpSign IsExpSign fun r ↦ ∀ b ∈ r.head?, b ≠ 0x2B ∧ b ≠ 0x2D := by
  rintro t r (rfl | rfl | rfl) hr
  · cases r with
    | nil => rfl
    | cons b r => simp [scanExpSign, hr b rfl]
  · simp [scanExpSign]
  · simp [scanExpSign]

/-- A run of digits starts with a digit, whatever follows. -/
theorem IsDigits.head (h : IsDigits t) : ∀ b ∈ (t ++ r).head?, isDigit b := by
  obtain ⟨hne, hall⟩ := h
  match t, hne with
  | d :: ds, _ =>
    rintro _ ⟨⟩
    exact List.all_eq_true.mp hall d (by simp)

theorem scanExp_sound : Sound scanExp IsExp := by
  intro bs t r h
  cases bs with
  | nil =>
    obtain ⟨rfl, rfl⟩ : [] = t ∧ [] = r := by simpa [scanExp] using h
    exact ⟨rfl, .inl rfl⟩
  | cons b bs =>
    rw [scanExp] at h
    split at h
    · next hb =>
      obtain ⟨⟨_, r'⟩, hp, ⟨⟩⟩ := Option.map_eq_some_iff.mp h
      obtain ⟨rfl, sign, ds, hsign, hds, rfl⟩ := scanExpSign_sound.andThen scanDigits_sound hp
      exact ⟨rfl, .inr ⟨b, sign, ds, rfl, hb, hsign, hds⟩⟩
    · obtain ⟨rfl, rfl⟩ : [] = t ∧ b :: bs = r := by simpa using h
      exact ⟨rfl, .inl rfl⟩

theorem scanExp_complete :
    Complete scanExp IsExp fun r ↦ NoDigit r ∧ ∀ b ∈ r.head?, b ≠ 0x65 ∧ b ≠ 0x45 := by
  rintro t r (rfl | ⟨e, sign, ds, rfl, he, hsign, hds⟩) ⟨hr, hexp⟩
  · cases r with
    | nil => rfl
    | cons b r => simp [scanExp, hexp b rfl]
  · have hstop : ∀ {t r : Bytes}, IsDigits t → NoDigit r →
        ∀ b ∈ (t ++ r).head?, b ≠ 0x2B ∧ b ≠ 0x2D := by
      intro t r ht _ b hb
      have hd := ht.head b hb
      constructor <;> rintro rfl <;> cases hd
    have h := scanExpSign_complete.andThen scanDigits_complete hstop
      ⟨sign, ds, hsign, hds, rfl⟩ hr
    simp only [List.append_assoc] at h
    simp [scanExp, he, h]

/-- What may follow a value does not continue a number. -/
theorem Follows.stops_number (h : Follows r) :
    NoDigit r ∧ ∀ b ∈ r.head?, b ≠ 0x2E ∧ b ≠ 0x65 ∧ b ≠ 0x45 := by
  have key : ∀ b : UInt8, isSpace b ∨ b = 0x2C ∨ b = 0x5D ∨ b = 0x7D →
      isDigit b = false ∧ b ≠ 0x2E ∧ b ≠ 0x65 ∧ b ≠ 0x45 := by
    intro b hb
    have hb : b = 0x20 ∨ b = 0x09 ∨ b = 0x0A ∨ b = 0x0D ∨ b = 0x2C ∨ b = 0x5D ∨ b = 0x7D := by
      simpa [isSpace, or_assoc] using hb
    rcases hb with rfl | rfl | rfl | rfl | rfl | rfl | rfl <;> decide
  exact ⟨fun b hb ↦ (key b (h b hb)).1, fun b hb ↦ (key b (h b hb)).2⟩

theorem isNumber_iff : IsNumber t ↔ Concat IsSign (Concat IsInt (Concat IsFrac IsExp)) t := by
  constructor
  · rintro ⟨sign, int, frac, exp, hs, hi, hf, he, rfl⟩
    exact ⟨sign, _, hs, ⟨int, _, hi, ⟨frac, exp, hf, he, rfl⟩, rfl⟩, rfl⟩
  · rintro ⟨sign, _, hs, ⟨int, _, hi, ⟨frac, exp, hf, he, rfl⟩, rfl⟩, rfl⟩
    exact ⟨sign, int, frac, exp, hs, hi, hf, he, rfl⟩

theorem scanNumber_sound : Sound scanNumber IsNumber := by
  intro bs t r h
  obtain ⟨happ, ht⟩ := scanSign_sound.andThen
    (scanInt_sound.andThen (scanFrac_sound.andThen scanExp_sound)) h
  exact ⟨happ, isNumber_iff.mpr ht⟩

/-- An exponent before what may follow a number does not start with a digit or a point. -/
theorem IsExp.head (ht : IsExp t) (hr : Follows r) :
    ∀ b ∈ (t ++ r).head?, isDigit b = false ∧ b ≠ 0x2E := by
  rcases ht with rfl | ⟨e, sign, ds, rfl, he, -⟩
  · exact fun b hb ↦ ⟨hr.stops_number.1 b hb, (hr.stops_number.2 b hb).1⟩
  · rintro _ ⟨⟩
    rcases he with rfl | rfl <;> decide

/-- Nor does what follows the integer part of a number start with a digit. -/
theorem IsFrac.head (ht : Concat IsFrac IsExp t) (hr : Follows r) : NoDigit (t ++ r) := by
  obtain ⟨frac, exp, hf, he, rfl⟩ := ht
  rcases hf with rfl | ⟨ds, rfl, -⟩
  · exact fun b hb ↦ (he.head hr b hb).1
  · rintro _ ⟨⟩
    decide

theorem IsInt.head (ht : IsInt t) : ∀ b ∈ t.head?, isDigit b := by
  rcases ht with rfl | ⟨d, ds, rfl, -, hd, -⟩
  · rintro _ ⟨⟩
    decide
  · rintro _ ⟨⟩
    exact hd

theorem IsInt.ne_nil (ht : IsInt t) : t ≠ [] := by
  rcases ht with rfl | ⟨d, ds, rfl, -⟩ <;> simp

/-- A number is scanned to its end. -/
theorem scanNumber_complete : Complete scanNumber IsNumber Follows := by
  have hexp : Complete scanExp IsExp Follows := fun t r ht hr ↦
    scanExp_complete ht ⟨hr.stops_number.1, fun b hb ↦ (hr.stops_number.2 b hb).2⟩
  have hfrac : Complete (scanFrac.andThen scanExp) (Concat IsFrac IsExp) Follows :=
    scanFrac_complete.andThen hexp fun he hr ↦
      ⟨fun b hb ↦ (he.head hr b hb).1, fun b hb ↦ (he.head hr b hb).2⟩
  have hint := scanInt_complete.andThen hfrac IsFrac.head
  have hsign := scanSign_complete.andThen hint fun {t r} ht _ b hb ↦ by
    obtain ⟨int, _, hi, -, rfl⟩ := ht
    have hd : isDigit b := hi.head b (by
      match int, hi.ne_nil with
      | d :: ds, _ => exact hb)
    rintro rfl
    cases hd
  intro t r ht hr
  exact hsign (isNumber_iff.mp ht) hr

/-! ### Values that are tokens -/

/-- The literal a text starts with. -/
def scanLiteral : Scanner := fun bs ↦
  (literals.find? fun t ↦ t.isPrefixOf bs).map fun t ↦ (t, bs.drop t.length)

/-- A token that is a value on its own. -/
def scanScalar : Scanner := fun bs ↦
  (scanLiteral bs).or ((scanString bs).or (scanNumber bs))

theorem scanLiteral_sound : Sound scanLiteral (· ∈ literals) := by
  intro bs t r h
  obtain ⟨t', hfind, ⟨⟩⟩ := Option.map_eq_some_iff.mp h
  have hpre : t.isPrefixOf bs := List.find?_some (p := fun t ↦ List.isPrefixOf t bs) hfind
  obtain ⟨r', rfl⟩ := List.isPrefixOf_iff_prefix.mp hpre
  exact ⟨by simp, List.mem_of_find?_eq_some hfind⟩

theorem scanLiteral_complete : Complete scanLiteral (· ∈ literals) fun _ ↦ True := by
  intro t r ht _
  simp only [literals, List.mem_cons, List.not_mem_nil, or_false] at ht
  rcases ht with rfl | rfl | rfl <;> simp [scanLiteral, literals, nullText, trueText, falseText]

/-- A text that starts like no literal has none. -/
theorem scanLiteral_eq_none {b : UInt8} {bs : Bytes} (hn : b ≠ 0x6E) (ht : b ≠ 0x74)
    (hf : b ≠ 0x66) : scanLiteral (b :: bs) = none := by
  simp [scanLiteral, literals, nullText, trueText, falseText, hn.symm, ht.symm, hf.symm]

theorem scanScalar_sound : Sound scanScalar IsScalar := by
  intro bs t r h
  simp only [scanScalar, Option.or_eq_some_iff] at h
  rcases h with h | ⟨-, h | ⟨-, h⟩⟩
  · exact (scanLiteral_sound h).imp_right .inl
  · exact (scanString_sound h).imp_right fun hs ↦ .inr (.inl hs)
  · exact (scanNumber_sound h).imp_right fun hn ↦ .inr (.inr hn)

/-- How a number starts: with a minus sign or a digit. -/
theorem IsNumber.head (ht : IsNumber t) : ∃ b t', t = b :: t' ∧ (b = 0x2D ∨ isDigit b) := by
  obtain ⟨sign, int, frac, exp, hs, hi, -, -, rfl⟩ := ht
  rcases hs with rfl | rfl
  · match int, hi.ne_nil, hi.head with
    | d :: ds, _, hd => exact ⟨d, _, rfl, .inr (hd d rfl)⟩
  · exact ⟨0x2D, _, rfl, .inl rfl⟩

/-- A scalar is scanned to its end. -/
theorem scanScalar_complete : Complete scanScalar IsScalar Follows := by
  rintro t r (ht | ht | ht) hr
  · simp [scanScalar, scanLiteral_complete ht trivial]
  · have hs := scanString_complete (r := r) ht trivial
    obtain ⟨w, -, rfl⟩ := ht
    have hl : scanLiteral (0x22 :: (w ++ [0x22]) ++ r) = none :=
      scanLiteral_eq_none (by decide) (by decide) (by decide)
    rw [scanScalar, hl, hs]
    rfl
  · have hn := scanNumber_complete ht hr
    obtain ⟨b, t, rfl, hb⟩ := ht.head
    have hb : b ≠ 0x6E ∧ b ≠ 0x74 ∧ b ≠ 0x66 ∧ b ≠ 0x22 := by
      refine ⟨?_, ?_, ?_, ?_⟩ <;> rintro rfl <;> revert hb <;> decide
    have hl : scanLiteral (b :: t ++ r) = none := scanLiteral_eq_none hb.1 hb.2.1 hb.2.2.1
    have hs : scanString (b :: t ++ r) = none := by simp [scanString, hb.2.2.2]
    rw [scanScalar, hl, hs, hn]
    rfl

end Json
