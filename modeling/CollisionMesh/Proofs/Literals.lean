import CollisionMesh.Proofs.Nearest
import CollisionMesh.Proofs.Numerals

namespace CollisionMesh.Number

open Float.Model.UnpackedFloat (Sign)

/-!
# The grammar of written numbers

What a text has to look like to be read as a number, said without reading it.

* `SignText`, `MantissaText`, `ExponentText` — the parts of a decimal;
* `LiteralText`, `Literal.read?_eq_some_iff` — the texts of numbers, and that they are read;
* `FiniteText`, `exists_finite?_iff`, `Denotes`, `denotes_of_finite?` — the texts of finite
  numbers, and the doubles that they denote;
* `NaturalText`, `natural?_eq_some_iff` — the texts of natural numbers; `byte?_eq_some_iff`,
  `word?_eq_some_iff` — of bytes and of words of 32 bits.
-/

/-- Nothing but digits. -/
def AllDigits (ds : List Char) : Prop :=
  ∀ c ∈ ds, isDigit c = true

/-- A sign, or none where the number is positive. -/
inductive SignText : Sign → List Char → Prop where
  | none : SignText .positive []
  | plus : SignText .positive ['+']
  | minus : SignText .negative ['-']

/-- The digits before and after a point. There is at least one digit, and without a point there
    are none after it. -/
inductive MantissaText : List Char → List Char → List Char → Prop where
  | whole {w : List Char} : w ≠ [] → AllDigits w → MantissaText w [] w
  | point {w f : List Char} : w ++ f ≠ [] → AllDigits w → AllDigits f →
      MantissaText w f (w ++ '.' :: f)

/-- The letter `e` in either case, a sign and at least one digit, or nothing at all. -/
inductive ExponentText : Int → List Char → Prop where
  | none : ExponentText 0 []
  | some {c : Char} {s : Sign} {σ ds : List Char} : c = 'e' ∨ c = 'E' → SignText s σ → ds ≠ [] →
      AllDigits ds → ExponentText (signed s (digitsValue ds)) (c :: (σ ++ ds))

/-- The texts of numbers. -/
inductive LiteralText : Literal → List Char → Prop where
  | decimal {s : Sign} {σ w f m x : List Char} {e : Int} : SignText s σ → MantissaText w f m →
      ExponentText e x →
      LiteralText (.decimal s (digitsValue (w ++ f)) (e - f.length)) (σ ++ (m ++ x))
  | infinity {s : Sign} {σ word : List Char} : SignText s σ →
      word.map Char.toLower = "inf".toList ∨ word.map Char.toLower = "infinity".toList →
      LiteralText (.infinity s) (σ ++ word)
  | notANumber {s : Sign} {σ word : List Char} : SignText s σ →
      word.map Char.toLower = "nan".toList → LiteralText (.notANumber s) (σ ++ word)

/-! ### Signs -/

/-- What is read as a sign is the text of a sign. -/
theorem exists_signText (text : List Char) :
    ∃ σ, SignText (Literal.sign text).1 σ ∧ text = σ ++ (Literal.sign text).2 := by
  unfold Literal.sign
  split
  · exact ⟨['-'], .minus, rfl⟩
  · exact ⟨['+'], .plus, rfl⟩
  · exact ⟨[], .none, rfl⟩

/-- A sign is read up to where it ends, unless another sign follows. -/
theorem sign_append {s : Sign} {σ rest : List Char} (h : SignText s σ)
    (hrest : ∀ c, rest.head? = some c → c ≠ '+' ∧ c ≠ '-') :
    Literal.sign (σ ++ rest) = (s, rest) := by
  cases h with
  | plus => rfl
  | minus => rfl
  | none =>
    rw [List.nil_append]
    unfold Literal.sign
    split
    · exact absurd rfl (hrest _ rfl).2
    · exact absurd rfl (hrest _ rfl).1
    · rfl

/-- A digit is no sign. -/
private theorem not_sign_of_isDigit {c : Char} (h : isDigit c = true) : c ≠ '+' ∧ c ≠ '-' :=
  ⟨ne_of_isDigit h (by decide), ne_of_isDigit h (by decide)⟩

/-- The first character of at least one digit. -/
private theorem isDigit_of_head? {ds : List Char} (h : AllDigits ds) {c : Char}
    (hc : ds.head? = some c) : isDigit c = true :=
  h c (List.mem_of_mem_head? hc)

/-! ### Decimals -/

/-- Digits are read up to where they end. -/
theorem takeWhile_isDigit_append {ds rest : List Char} (h : AllDigits ds)
    (hrest : ∀ c, rest.head? = some c → isDigit c = false) :
    (ds ++ rest).takeWhile isDigit = ds ∧ (ds ++ rest).dropWhile isDigit = rest := by
  rw [List.takeWhile_append_of_pos h, List.dropWhile_append_of_pos h]
  cases rest with
  | nil => simp
  | cons c rest => simp [hrest c rfl]

theorem allDigits_takeWhile (text : List Char) : AllDigits (text.takeWhile isDigit) :=
  fun _ hc => List.mem_takeWhile_imp hc

/-- **Exponents.** What is read as an exponent is the text of one, and each is read. -/
theorem exponent?_eq_some_iff {text : List Char} {e : Int} :
    Literal.exponent? text = some e ↔ ExponentText e text := by
  constructor
  · intro h
    unfold Literal.exponent? at h
    split at h
    · obtain rfl := Option.some.inj h
      exact .none
    · next c rest =>
      split at h
      · next hc =>
        obtain ⟨σ, hσ, hrest⟩ := exists_signText rest
        generalize Literal.sign rest = read at h hσ hrest
        subst hrest
        dsimp only at h
        split at h
        · exact absurd h (by simp)
        · next hds =>
          obtain rfl := Option.some.inj h
          simp only [Bool.or_eq_true, not_or, List.isEmpty_iff, Bool.not_eq_true',
            Bool.not_eq_false, List.all_eq_true] at hds
          exact .some hc hσ hds.1 hds.2
      · exact absurd h (by simp)
  · intro h
    cases h with
    | none => rfl
    | @some c s σ ds hc hσ hne hall =>
      have hsign := sign_append hσ fun d hd => not_sign_of_isDigit (isDigit_of_head? hall hd)
      have hdigits : (ds.isEmpty || !ds.all isDigit) = false := by
        simpa [hne, AllDigits] using hall
      rw [Literal.exponent?, if_pos hc, hsign]
      dsimp only
      rw [hdigits]
      rfl

/-- An exponent does not start with a digit or a point. -/
private theorem head?_exponentText {e : Int} {x : List Char} (h : ExponentText e x) :
    ∀ c, x.head? = some c → isDigit c = false ∧ c ≠ '.' := by
  cases h with
  | none => simp
  | some hc =>
    intro d hd
    obtain rfl := Option.some.inj hd
    rcases hc with rfl | rfl <;> exact ⟨by decide, by decide⟩

/-- Whether there is a digit before or after a point. -/
private theorem isEmpty_and_isEmpty_eq_false_iff {w f : List Char} :
    (w.isEmpty && f.isEmpty) = false ↔ w ++ f ≠ [] := by
  cases w <;> simp

/-- What is read as a decimal without a sign is the text of one. -/
private theorem exists_texts_of_unsigned? {s : Sign} {text : List Char} {l : Literal}
    (h : Literal.unsigned? s text = some l) :
    ∃ w f m e x, MantissaText w f m ∧ ExponentText e x ∧
      text = m ++ x ∧ l = .decimal s (digitsValue (w ++ f)) (e - f.length) := by
  have htext := List.takeWhile_append_dropWhile (p := isDigit) (l := text)
  have hw := allDigits_takeWhile text
  unfold Literal.unsigned? at h
  generalize text.takeWhile isDigit = w at h htext hw
  generalize text.dropWhile isDigit = rest at h htext
  subst htext
  dsimp only at h
  split at h
  · next rest =>
    have hf := allDigits_takeWhile rest
    have hrest := List.takeWhile_append_dropWhile (p := isDigit) (l := rest)
    dsimp only at h
    split at h
    · exact absurd h (by simp)
    · next hne =>
      obtain ⟨e, he, rfl⟩ := Option.map_eq_some_iff.mp h
      have hne := isEmpty_and_isEmpty_eq_false_iff.mp (Bool.eq_false_iff.mpr hne)
      refine ⟨w, rest.takeWhile isDigit, _, e, _, .point hne hw hf, exponent?_eq_some_iff.mp he,
        ?_, rfl⟩
      rw [List.append_assoc, List.cons_append, hrest]
  · dsimp only at h
    split at h
    · exact absurd h (by simp)
    · next hne =>
      obtain ⟨e, he, rfl⟩ := Option.map_eq_some_iff.mp h
      have hne := isEmpty_and_isEmpty_eq_false_iff.mp (Bool.eq_false_iff.mpr hne)
      rw [List.append_nil] at hne
      exact ⟨w, [], w, e, rest, .whole hne hw, exponent?_eq_some_iff.mp he, rfl, rfl⟩

/-- The text of a decimal without a sign is read. -/
private theorem unsigned?_of_texts (s : Sign) {w f m x : List Char} {e : Int}
    (hm : MantissaText w f m) (hx : ExponentText e x) :
    Literal.unsigned? s (m ++ x) = some (.decimal s (digitsValue (w ++ f)) (e - f.length)) := by
  have hexponent := exponent?_eq_some_iff.mpr hx
  have hhead := head?_exponentText hx
  cases hm with
  | whole hne hw =>
    obtain ⟨htake, hdrop⟩ := takeWhile_isDigit_append hw fun c hc => (hhead c hc).1
    have hsome : (w.isEmpty && ([] : List Char).isEmpty) = false := by simpa using hne
    unfold Literal.unsigned?
    rw [htake, hdrop]
    dsimp only
    split
    · exact absurd rfl (hhead _ rfl).2
    · dsimp only
      rw [hsome, hexponent]
      rfl
  | point hne hw hf =>
    have hdot : ∀ c, ('.' :: (f ++ x)).head? = some c → isDigit c = false := by
      intro c hc
      obtain rfl := Option.some.inj hc
      decide
    obtain ⟨htake, hdrop⟩ := takeWhile_isDigit_append hw hdot
    obtain ⟨htake', hdrop'⟩ := takeWhile_isDigit_append hf fun c hc => (hhead c hc).1
    unfold Literal.unsigned?
    rw [List.append_assoc, List.cons_append, htake, hdrop]
    simp only [htake', hdrop', isEmpty_and_isEmpty_eq_false_iff.mpr hne, hexponent]
    rfl

/-- **Decimals without a sign.** What is read as one is the text of one, and each is read. -/
theorem unsigned?_eq_some_iff {s : Sign} {text : List Char} {l : Literal} :
    Literal.unsigned? s text = some l ↔ ∃ w f m e x, MantissaText w f m ∧ ExponentText e x ∧
      text = m ++ x ∧ l = .decimal s (digitsValue (w ++ f)) (e - f.length) := by
  constructor
  · exact exists_texts_of_unsigned?
  · rintro ⟨w, f, m, e, x, hm, hx, rfl, rfl⟩
    exact unsigned?_of_texts s hm hx

/-- A decimal without a sign starts with a digit or a point. -/
private theorem head?_mantissaText {w f m : List Char} (h : MantissaText w f m) (x : List Char) :
    ∃ c rest, m ++ x = c :: rest ∧ (isDigit c = true ∨ c = '.') := by
  cases h with
  | whole hne hw =>
    obtain ⟨c, rest, rfl⟩ := List.exists_cons_of_ne_nil hne
    exact ⟨c, rest ++ x, rfl, .inl (hw c List.mem_cons_self)⟩
  | point hne hw hf =>
    cases w with
    | nil => exact ⟨'.', f ++ x, rfl, .inr rfl⟩
    | cons c rest => exact ⟨c, _, rfl, .inl (hw c List.mem_cons_self)⟩

/-- A digit or a point is no letter and no sign. -/
private theorem toLower_of_isDigit_or {c : Char} (h : isDigit c = true ∨ c = '.') :
    c.toLower ≠ 'i' ∧ c.toLower ≠ 'n' ∧ c ≠ '+' ∧ c ≠ '-' := by
  rcases h with h | rfl
  · rw [toLower_of_isDigit h]
    exact ⟨ne_of_isDigit h (by decide), ne_of_isDigit h (by decide), not_sign_of_isDigit h⟩
  · decide

/-- A word does not start with a sign. -/
private theorem not_sign_of_map_toLower {word : List Char} {c : Char} {rest : List Char}
    (h : word.map Char.toLower = c :: rest) (hc : c ≠ '+' ∧ c ≠ '-') :
    ∀ d, word.head? = some d → d ≠ '+' ∧ d ≠ '-' := by
  intro d hd
  have hfirst : (word.map Char.toLower).head? = some d.toLower := by rw [List.head?_map, hd]; rfl
  rw [h] at hfirst
  obtain rfl := Option.some.inj hfirst
  constructor
  · rintro rfl
    exact hc.1 (by decide)
  · rintro rfl
    exact hc.2 (by decide)

/-- The text of a decimal is read. -/
private theorem Literal.read?_decimal {s : Sign} {σ w f m x : List Char} {e : Int}
    (hσ : SignText s σ) (hm : MantissaText w f m) (hx : ExponentText e x) :
    Literal.read? (σ ++ (m ++ x)) = some (.decimal s (digitsValue (w ++ f)) (e - f.length)) := by
  obtain ⟨c, rest, hbody, hc⟩ := head?_mantissaText hm x
  obtain ⟨hi, hn, hsign⟩ := toLower_of_isDigit_or hc
  have hread : Literal.sign (σ ++ (m ++ x)) = (s, m ++ x) := by
    refine sign_append hσ fun d hd => ?_
    rw [hbody] at hd
    exact Option.some.inj hd ▸ hsign
  rw [Literal.read?, hread]
  dsimp only
  -- It is none of the words.
  rw [if_neg, if_neg]
  · exact unsigned?_of_texts s hm hx
  · rw [hbody]
    exact fun heq => hn (List.cons.inj heq).1
  · rw [hbody]
    rintro (heq | heq)
    · exact hi (List.cons.inj heq).1
    · exact hi (List.cons.inj heq).1

/-- **Numbers.** What is read as a number is the text of one, and each is read. -/
theorem Literal.read?_eq_some_iff {text : List Char} {l : Literal} :
    Literal.read? text = some l ↔ LiteralText l text := by
  constructor
  · intro h
    obtain ⟨σ, hσ, htext⟩ := exists_signText text
    unfold Literal.read? at h
    generalize Literal.sign text = read at h hσ htext
    subst htext
    dsimp only at h
    split at h
    · next hword =>
      obtain rfl := Option.some.inj h
      exact .infinity hσ hword
    · split at h
      · next hword =>
        obtain rfl := Option.some.inj h
        exact .notANumber hσ hword
      · obtain ⟨w, f, m, e, x, hm, hx, hbody, rfl⟩ := unsigned?_eq_some_iff.mp h
        rw [hbody]
        exact .decimal hσ hm hx
  · intro h
    cases h with
    | decimal hσ hm hx => exact Literal.read?_decimal hσ hm hx
    | infinity hσ hword =>
      have hread := sign_append hσ (hword.elim
        (fun h => not_sign_of_map_toLower h (by decide))
        fun h => not_sign_of_map_toLower h (by decide))
      rw [Literal.read?, hread]
      exact if_pos hword
    | notANumber hσ hword =>
      have hread := sign_append hσ (not_sign_of_map_toLower hword (by decide))
      rw [Literal.read?, hread]
      dsimp only
      rw [if_neg, if_pos hword]
      rw [hword]
      decide

/-! ### Finite numbers -/

/-- The texts of decimals that are not too large for a double. -/
def FiniteText (text : List Char) : Prop :=
  ∃ s m e, LiteralText (.decimal s m e) text ∧ (m : ℚ) * 10 ^ e < overflow

/-- The double that a text stands for: the one nearest to the decimal, with its sign. -/
def Denotes (text : List Char) (x : Float) : Prop :=
  ∃ s m e, LiteralText (.decimal s m e) text ∧ isFinite x = true ∧
    IsNearest (withSign s (m * 10 ^ e)) x ∧ sign? (parts x) = some s

/-- How a finite number is read. -/
private theorem finite?_eq_some_iff {text : List Char} {x : Float} :
    finite? text = some x ↔
      ∃ l, LiteralText l text ∧ Literal.toFloat l = x ∧ isFinite x = true := by
  rw [finite?, real?, Option.filter_eq_some_iff, Option.map_eq_some_iff]
  constructor
  · rintro ⟨⟨l, hl, heq⟩, hfinite⟩
    exact ⟨l, Literal.read?_eq_some_iff.mp hl, heq, hfinite⟩
  · rintro ⟨l, hl, heq, hfinite⟩
    exact ⟨⟨l, Literal.read?_eq_some_iff.mpr hl, heq⟩, hfinite⟩

/-- What is no decimal is not read as a finite number. -/
private theorem exists_decimal_of_isFinite {l : Literal} (h : isFinite l.toFloat = true) :
    ∃ s m e, l = .decimal s m e := by
  cases l with
  | decimal s m e => exact ⟨s, m, e, rfl⟩
  | infinity s =>
    rw [isFinite, Literal.toFloat, parts_ofModel_pack (u := .infinity s) trivial] at h
    exact absurd h (by simp)
  | notANumber s =>
    rw [isFinite, Literal.toFloat, parts_ofModel_pack (u := .notANumber) trivial] at h
    exact absurd h (by simp)

/-- **Finite numbers.** The texts that are read as finite numbers are those of decimals that are
    not too large. -/
theorem exists_finite?_iff {text : List Char} : (∃ x, finite? text = some x) ↔ FiniteText text := by
  constructor
  · rintro ⟨x, hx⟩
    obtain ⟨l, hl, rfl, hfinite⟩ := finite?_eq_some_iff.mp hx
    obtain ⟨s, m, e, rfl⟩ := exists_decimal_of_isFinite hfinite
    exact ⟨s, m, e, hl, (Literal.correct_toFloat s m e).isFinite_iff.mp hfinite⟩
  · rintro ⟨s, m, e, hl, hsmall⟩
    exact ⟨_, finite?_eq_some_iff.mpr
      ⟨_, hl, rfl, (Literal.correct_toFloat s m e).isFinite_iff.mpr hsmall⟩⟩

/-- The double that is read is the one that the text stands for. -/
theorem denotes_of_finite? {text : List Char} {x : Float} (h : finite? text = some x) :
    Denotes text x := by
  obtain ⟨l, hl, rfl, hfinite⟩ := finite?_eq_some_iff.mp h
  obtain ⟨s, m, e, rfl⟩ := exists_decimal_of_isFinite hfinite
  have hcorrect := Literal.correct_toFloat s m e
  exact ⟨s, m, e, hl, hfinite, hcorrect.isNearest hfinite, hcorrect.sign⟩

/-! ### Bytes -/

/-- The texts of a natural number: a plus sign or none, then at least one digit. -/
inductive NaturalText (n : Nat) : List Char → Prop where
  | bare {ds : List Char} : ds ≠ [] → AllDigits ds → digitsValue ds = n → NaturalText n ds
  | plus {ds : List Char} : ds ≠ [] → AllDigits ds → digitsValue ds = n → NaturalText n ('+' :: ds)

/-- The texts of a byte. -/
def ByteText (b : UInt8) : List Char → Prop :=
  NaturalText b.toNat

/-- The texts of a word of 32 bits. -/
def WordText (w : UInt32) : List Char → Prop :=
  NaturalText w.toNat

/-- **Natural numbers.** What is read as one is the text of one, and each is read. -/
theorem natural?_eq_some_iff {text : List Char} {n : Nat} :
    natural? text = some n ↔ NaturalText n text := by
  have hread : ∀ ds : List Char,
      (if ds.isEmpty || !ds.all isDigit then none else some (digitsValue ds)) = some n ↔
        ds ≠ [] ∧ AllDigits ds ∧ digitsValue ds = n := by
    intro ds
    simp [AllDigits, and_assoc]
  constructor
  · intro h
    unfold natural? at h
    split at h
    · obtain ⟨hne, hall, hvalue⟩ := (hread _).mp h
      exact .plus hne hall hvalue
    · obtain ⟨hne, hall, hvalue⟩ := (hread _).mp h
      exact .bare hne hall hvalue
  · rintro (⟨hne, hall, hvalue⟩ | ⟨hne, hall, hvalue⟩)
    · unfold natural?
      split
      · next rest => exact absurd (hall '+' List.mem_cons_self) (by decide)
      · exact (hread text).mpr ⟨hne, hall, hvalue⟩
    · exact (hread _).mpr ⟨hne, hall, hvalue⟩

theorem naturalUpTo?_eq_some_iff {bound : Nat} {text : List Char} {n : Nat} :
    naturalUpTo? bound text = some n ↔ NaturalText n text ∧ n ≤ bound := by
  rw [naturalUpTo?, Option.filter_eq_some_iff, natural?_eq_some_iff, decide_eq_true_eq]

/-- **Bytes.** What is read as a byte is the text of one, and each is read. -/
theorem byte?_eq_some_iff {text : List Char} {b : UInt8} :
    byte? text = some b ↔ ByteText b text := by
  simp only [byte?, Option.map_eq_some_iff, naturalUpTo?_eq_some_iff]
  constructor
  · rintro ⟨n, ⟨htext, hle⟩, rfl⟩
    rwa [ByteText, UInt8.toNat_ofNat_of_lt' (Nat.lt_succ_of_le hle)]
  · intro htext
    exact ⟨b.toNat, ⟨htext, Nat.le_of_lt_succ b.toNat_lt⟩, UInt8.ofNat_toNat⟩

/-- **Words.** What is read as a word of 32 bits is the text of one, and each is read. -/
theorem word?_eq_some_iff {text : List Char} {w : UInt32} :
    word? text = some w ↔ WordText w text := by
  simp only [word?, Option.map_eq_some_iff, naturalUpTo?_eq_some_iff]
  constructor
  · rintro ⟨n, ⟨htext, hle⟩, rfl⟩
    rwa [WordText, UInt32.toNat_ofNat_of_lt' (Nat.lt_succ_of_le hle)]
  · intro htext
    exact ⟨w.toNat, ⟨htext, Nat.le_of_lt_succ w.toNat_lt⟩, UInt32.ofNat_toNat⟩

end CollisionMesh.Number
