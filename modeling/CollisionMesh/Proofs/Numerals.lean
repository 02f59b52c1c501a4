import CollisionMesh.Number.Decimal
import CollisionMesh.Proofs.Binary64

namespace CollisionMesh.Number

open Float.Model (UnpackedFloat)
open Float.Model.UnpackedFloat (Sign)

/-!
# Written numbers read back

* `digitsValue_digits` — digits stand for the number that they were made of;
* `byte?_digits` — a byte that is written is read again;
* `read?_integerText` — an integer that is written says what it is;
* `finite?_integerText_toInteger` — what a double is rounded to is written as a finite number.
-/

/-! ### Digits -/

private theorem digitValue_digitChar : ∀ d < 10, digitValue (digitChar d) = d := by decide

private theorem isDigit_digitChar : ∀ d < 10, isDigit (digitChar d) = true := by decide

theorem isDigit_of_mem_digits (n : Nat) : ∀ c ∈ digits n, isDigit c = true := by
  induction n using digits.induct with
  | case1 n h =>
    rw [digits, if_pos h]
    intro c hc
    rw [List.mem_singleton.mp hc]
    exact isDigit_digitChar n h
  | case2 n h ih =>
    rw [digits, if_neg h]
    intro c hc
    rcases List.mem_append.mp hc with hc | hc
    · exact ih c hc
    · rw [List.mem_singleton.mp hc]
      exact isDigit_digitChar _ (Nat.mod_lt n (by decide))

theorem digits_ne_nil (n : Nat) : digits n ≠ [] := by
  rw [digits]
  split <;> simp

/-- **Digits.** The digits of a number stand for it. -/
@[simp] theorem digitsValue_digits (n : Nat) : digitsValue (digits n) = n := by
  induction n using digits.induct with
  | case1 n h =>
    rw [digits, if_pos h]
    show 10 * 0 + digitValue (digitChar n) = n
    rw [digitValue_digitChar n h, Nat.mul_zero, Nat.zero_add]
  | case2 n h ih =>
    rw [digits, if_neg h, digitsValue, List.foldl_append]
    show 10 * digitsValue (digits (n / 10)) + digitValue (digitChar (n % 10)) = n
    rw [ih, digitValue_digitChar _ (Nat.mod_lt n (by decide))]
    exact Nat.div_add_mod n 10

/-- The first digit of a number. -/
theorem exists_digits_eq_cons (n : Nat) :
    ∃ d ds, digits n = d :: ds ∧ isDigit d = true ∧ ∀ c ∈ ds, isDigit c = true := by
  obtain ⟨d, ds, h⟩ := List.exists_cons_of_ne_nil (digits_ne_nil n)
  have hall := isDigit_of_mem_digits n
  rw [h] at hall
  exact ⟨d, ds, h, hall d List.mem_cons_self, fun c hc => hall c (List.mem_cons_of_mem d hc)⟩

/-- A character that is a digit is none of the others that a number can start with. -/
theorem ne_of_isDigit {c d : Char} (h : isDigit c = true) (hd : isDigit d = false) :
    c ≠ d := by
  rintro rfl
  rw [h] at hd
  exact absurd hd (by simp)

/-- A natural number that is written is read again. -/
@[simp] theorem natural?_digits (n : Nat) : natural? (digits n) = some n := by
  obtain ⟨d, ds, h, hd, hds⟩ := exists_digits_eq_cons n
  have hplus : d ≠ '+' := ne_of_isDigit hd (by decide)
  have hall : (d :: ds).all isDigit = true := by
    simpa [hd] using hds
  have hvalue := digitsValue_digits n
  rw [h] at hvalue ⊢
  unfold natural?
  split
  · next rest heq => exact absurd (List.cons.inj heq).1 hplus
  · dsimp only
    rw [hall, hvalue]
    rfl

/-- **Bytes.** A byte that is written is read again. -/
@[simp] theorem byte?_digits (b : UInt8) : byte? (digits b.toNat) = some b := by
  have hb : b.toNat ≤ 255 := Nat.le_of_lt_succ b.toNat_lt
  rw [byte?, naturalUpTo?, natural?_digits]
  simp [hb]

/-! ### Integers -/

/-- The sign of an integer. -/
def signOf (n : Int) : Sign :=
  if n < 0 then .negative else .positive

/-- A digit stays as it is in lower case. -/
theorem toLower_of_isDigit {c : Char} (h : isDigit c = true) : c.toLower = c := by
  have hc : c.toNat ≤ 57 := by
    simp only [isDigit, Bool.and_eq_true, decide_eq_true_eq] at h
    exact h.2
  refine dif_neg fun hupper => ?_
  have : 65 ≤ c.toNat := UInt32.le_iff_toNat_le.mp hupper.1
  omega

/-- Digits alone say a decimal without a fraction and without an exponent. -/
private theorem unsigned?_digits (s : Sign) (n : Nat) :
    Literal.unsigned? s (digits n) = some (.decimal s n 0) := by
  have hall := isDigit_of_mem_digits n
  have htake : (digits n).takeWhile isDigit = digits n := List.takeWhile_eq_self_iff.mpr hall
  have hdrop : (digits n).dropWhile isDigit = [] := List.dropWhile_eq_nil_iff.mpr hall
  have hne : (digits n).isEmpty = false := by simpa using digits_ne_nil n
  simp [Literal.unsigned?, htake, hdrop, hne, Literal.exponent?]

/-- Digits after a sign are no word. -/
private theorem read?_of_sign_eq {text : List Char} {s : Sign} {n : Nat}
    (h : Literal.sign text = (s, digits n)) : Literal.read? text = some (.decimal s n 0) := by
  obtain ⟨d, ds, hdigits, hd, -⟩ := exists_digits_eq_cons n
  have hword : ∀ c rest, isDigit c = false → (digits n).map Char.toLower ≠ c :: rest := by
    intro c rest hc heq
    rw [hdigits, List.map_cons, toLower_of_isDigit hd] at heq
    exact ne_of_isDigit hd hc (List.cons.inj heq).1
  rw [Literal.read?, h]
  dsimp only
  rw [if_neg, if_neg, unsigned?_digits]
  · exact hword 'n' ['a', 'n'] (by decide)
  · rintro (heq | heq)
    · exact hword 'i' ['n', 'f'] (by decide) heq
    · exact hword 'i' ['n', 'f', 'i', 'n', 'i', 't', 'y'] (by decide) heq

/-- **Integers.** An integer that is written says its sign and its magnitude. -/
theorem read?_integerText (n : Int) :
    Literal.read? (integerText n) = some (.decimal (signOf n) n.natAbs 0) := by
  cases n with
  | ofNat n =>
    apply read?_of_sign_eq
    obtain ⟨d, ds, hdigits, hd, -⟩ := exists_digits_eq_cons n
    show Literal.sign (digits n) = (signOf (n : Int), digits n)
    rw [hdigits]
    have hminus : d ≠ '-' := ne_of_isDigit hd (by decide)
    have hplus : d ≠ '+' := ne_of_isDigit hd (by decide)
    have hsign : signOf (n : Int) = .positive := if_neg (by omega)
    unfold Literal.sign
    split
    · next heq => exact absurd (List.cons.inj heq).1 hminus
    · next heq => exact absurd (List.cons.inj heq).1 hplus
    · rw [hsign]
  | negSucc n =>
    apply read?_of_sign_eq
    show (Sign.negative, digits (n + 1)) = _
    rw [signOf, if_pos (Int.negSucc_lt_zero n)]
    rfl

/-- An integer that is written reads as the double nearest to it. -/
theorem real?_integerText (n : Int) :
    real? (integerText n) = some (nearest (signOf n) n.natAbs 0) := by
  rw [real?, read?_integerText, Option.map_some]
  congr 1
  show (if n.natAbs ≠ 0 ∧ Literal.largestPower < 0 then _ else _) = _
  rw [if_neg (by simp)]
  have hpow : Nat.pow 10 (if n.natAbs = 0 then 0 else 0) = 1 := by split <;> rfl
  rw [hpow, Nat.mul_one]

/-! ### Doubles that were rounded -/

/-- A short magnitude is a finite double. -/
theorem isFinite_nearest (s : Sign) {n : Nat} (h : Short n) : isFinite (nearest s n 0) = true := by
  rcases Nat.eq_zero_or_pos n with rfl | hpos
  · rw [isFinite, parts_nearest_zero]
  · obtain ⟨m, e, hm, hparts, -⟩ := exists_parts_nearest s hpos h
    rw [isFinite, hparts]

/-- The greatest integer is the only one that a double is rounded to without being a double. -/
theorem short_natAbs_toInteger (x : Float) :
    Short (toInteger x).natAbs ∨ toInteger x = greatestInteger := by
  have hleast : Short leastInteger.natAbs :=
    .inr ⟨2 ^ 52, 11, Nat.le_refl _, by decide, by decide, by decide⟩
  have hzero : Short (0 : Int).natAbs := .inl (by decide)
  cases hx : parts x with
  | notANumber => exact .inl (by rw [toInteger, hx]; exact hzero)
  | zero s => exact .inl (by rw [toInteger, hx]; exact hzero)
  | infinity s =>
    cases s with
    | positive => exact .inr (by rw [toInteger, hx])
    | negative => exact .inl (by rw [toInteger, hx]; exact hleast)
  | finite s m e h =>
    have hvalue : toInteger x = max leastInteger (min greatestInteger (signed s (roundScaled m e))) := by
      rw [toInteger, hx]
    -- Either the rounded magnitude is kept, or it is too large and one of the ends is taken.
    rcases le_or_gt leastInteger (signed s (roundScaled m e)) with hlow | hlow
    · rcases le_or_gt (signed s (roundScaled m e)) greatestInteger with hhigh | hhigh
      · rw [min_eq_right hhigh, max_eq_right hlow] at hvalue
        have habs : (signed s (roundScaled m e)).natAbs = roundScaled m e := by
          cases s <;> simp [signed]
        exact .inl (by rw [hvalue, habs]; exact short_roundScaled hx)
      · rw [min_eq_left (le_of_lt hhigh)] at hvalue
        exact .inr (hvalue.trans (max_eq_right (by decide)))
    · rw [max_eq_left ((min_le_right _ _).trans (le_of_lt hlow))] at hvalue
      exact .inl (by rw [hvalue]; exact hleast)

/-- **Coordinates.** What a double is rounded to is written as a finite number. -/
theorem finite?_integerText_toInteger (x : Float) : finite? (integerText (toInteger x))
    = some (nearest (signOf (toInteger x)) (toInteger x).natAbs 0) := by
  have hfinite : isFinite (nearest (signOf (toInteger x)) (toInteger x).natAbs 0) = true := by
    rcases short_natAbs_toInteger x with h | h
    · exact isFinite_nearest _ h
    · rw [h]
      decide +kernel
  rw [finite?, real?_integerText, Option.filter_some, if_pos hfinite]

end CollisionMesh.Number
