import CollisionMesh.Number.Decimal
import CollisionMesh.Proofs.Rounding

namespace CollisionMesh.Number

open Float.Model (Format UnpackedFloat)
open Float.Model.UnpackedFloat

/-!
# Decimals are read as the nearest double

A written decimal is a quotient of integers. The double that it is read as is nearest to it, of
two the one with the even mantissa, and infinite iff the decimal is too large by half a unit in
the last place.

* `IsNearest`, `Correct` — what a correctly rounded double is;
* `correct_pack_partsOf` — rounding to the last bit is correct;
* `Literal.correct_toFloat` — what is written is rounded correctly.
-/

/-! ### The nearest double -/

/-- Half a unit in the last place above the greatest finite double. -/
def overflow : ℚ := 2 ^ 1024 - 2 ^ 970

theorem overflow_eq : overflow = (2 ^ 53 - 1 / 2) * 2 ^ (971 : Int) := by
  have hupper : (2 : ℚ) ^ 1024 = 2 ^ 53 * 2 ^ 971 := by rw [← pow_add]
  have hlower : (2 : ℚ) ^ 971 = 2 * 2 ^ 970 := by rw [← pow_succ']
  have hcast : (2 : ℚ) ^ (971 : Int) = 2 ^ 971 := zpow_natCast 2 971
  rw [overflow, hcast, hupper, hlower]
  generalize (2 : ℚ) ^ 970 = unit
  ring

/-- The sign of a number, also of zero. -/
def sign? : UnpackedFloat → Option Sign
  | .notANumber => none
  | .infinity s | .zero s | .finite s _ _ _ => some s

/-- The last bit of a mantissa is not set. -/
def EvenMantissa : UnpackedFloat → Prop
  | .finite _ m _ _ => Even m
  | _ => True

/-- The double nearest to a number, of two the one with the even mantissa. -/
structure IsNearest (q : ℚ) (x : Float) : Prop where
  near : ∀ y, isFinite y = true → |value (parts x) - q| ≤ |value (parts y) - q|
  even : ∀ y, isFinite y = true → |value (parts y) - q| = |value (parts x) - q| →
    value (parts y) ≠ value (parts x) → EvenMantissa (parts x)

/-- A magnitude with a sign. -/
def withSign : Sign → ℚ → ℚ
  | .positive, q => q
  | .negative, q => -q

/-- **Correct rounding** of a magnitude with a sign: the double is finite iff the magnitude is not
    too large, it is the nearest one then, and it has the sign in any case. -/
structure Correct (s : Sign) (q : ℚ) (x : Float) : Prop where
  isFinite_iff : isFinite x = true ↔ q < overflow
  isNearest : isFinite x = true → IsNearest (withSign s q) x
  sign : sign? (parts x) = some s

@[simp] theorem sign?_partsOf (s : Sign) (r : Nat) (t : Int) : sign? (partsOf s r t) = some s := by
  unfold partsOf
  split_ifs <;> rfl

theorem value_partsOf (s : Sign) (r : Nat) (t : Int) :
    value (partsOf s r t) = withSign s (r * 2 ^ t) := by
  unfold partsOf
  split_ifs with hzero htop
  · subst hzero
    cases s <;> simp [value, withSign]
  · subst htop
    have hpow : ((2 : ℚ) ^ 53) * 2 ^ t = 2 ^ 52 * 2 ^ (t + 1) := by
      rw [zpow_add_one₀ two_ne_zero]
      ring
    have hmagnitude : ((2 ^ 52 : Nat) : ℚ) * 2 ^ (t + 1) = ((2 ^ 53 : Nat) : ℚ) * 2 ^ t := by
      push_cast
      exact hpow.symm
    cases s with
    | positive => exact hmagnitude
    | negative =>
      show ((-(2 ^ 52 : Nat) : Int) : ℚ) * 2 ^ (t + 1) = -(((2 ^ 53 : Nat) : ℚ) * 2 ^ t)
      rw [← hmagnitude, Int.cast_neg, Int.cast_natCast, neg_mul]
  · cases s <;> simp [value, withSign, signed]

theorem evenMantissa_partsOf {s : Sign} {r : Nat} {t : Int} (h : Even r) :
    EvenMantissa (partsOf s r t) := by
  unfold partsOf
  split_ifs
  · trivial
  · exact ⟨2 ^ 51, by norm_num⟩
  · exact h

/-- What is too large is infinite. -/
theorem correct_infinity {s : Sign} {q : ℚ} {x : Float} (hx : parts x = .infinity s)
    (hq : overflow ≤ q) : Correct s q x := by
  have hinfinite : isFinite x = false := by rw [isFinite, hx]
  refine ⟨iff_of_false (by simp [hinfinite]) (not_lt.mpr hq), fun h => ?_, by rw [hx]; rfl⟩
  rw [hinfinite] at h
  exact absurd h (by simp)

/-- Magnitudes whose last bit is beyond that of the greatest double become infinite. -/
private theorem parts_pack_beyond (s : Sign) (m : Nat) {e : Int} (h : 0 < m) (he : 972 ≤ e) :
    parts (.ofModel (.pack (.finite s m e h))) = .infinity s := by
  show UnpackedFloat.unpack Format.binary64 (UnpackedFloat.pack Format.binary64 _) = _
  have hbias : Format.binary64.exponentBias = 1023 := rfl
  have hlarge : 2 ^ Format.binary64.exponentBits ≤ (e + Format.binary64.exponentBias
      + Format.binary64.mantissaBitsWithoutImplicit).toNat + 1 := by
    rw [hbias]
    show 2 ^ 11 ≤ (e + (1023 : Nat) + (52 : Nat)).toNat + 1
    omega
  simp only [UnpackedFloat.pack]
  rw [if_pos hlarge, unpack_packedInfinity]

section Nearest

variable {q : ℚ} {t : Int} {r : Nat}

/-- Its first bit is set, unless its last bit is the least one. -/
private theorem le_magnitude (hlast : LastBit q t) (hnear : NearestEven (q / 2 ^ t) r) :
    2 ^ 52 ≤ r ∨ t = -1074 := by
  refine hlast.le.imp_left fun hle => ?_
  have hquotient : ((2 ^ 52 : Nat) : Int) ≤ q / 2 ^ t := by
    rw [le_div_iff₀ (by positivity)]
    refine le_trans (le_of_eq ?_) hle
    rw [zpow_add₀ two_ne_zero]
    norm_num
    ring
  exact_mod_cast hnear.ge_of_ge hquotient

/-- What is not too large is packed as it is. -/
private theorem canonical_partsOf (s : Sign) (hlast : LastBit q t)
    (hnear : NearestEven (q / 2 ^ t) r) (hq : q < overflow) : Canonical (partsOf s r t) := by
  have hr := magnitude_le hlast hnear
  have hform := le_magnitude hlast hnear
  have hleast := hlast.least
  -- The last bit is at most that of the greatest double.
  have ht : t ≤ 971 := by
    by_contra hgt
    have hpow : (2 : ℚ) ^ (53 + 971 : Int) ≤ 2 ^ (t + 52) :=
      zpow_le_zpow_right₀ (by norm_num) (by omega)
    have hle := hlast.le.resolve_right (by omega)
    have hbelow : (2 ^ 53 - 1 / 2 : ℚ) * 2 ^ (971 : Int) < 2 ^ (53 + 971 : Int) := by
      rw [zpow_add₀ two_ne_zero]
      gcongr
      norm_num
    exact lt_irrefl _ (((hle.trans_lt hq).trans_eq overflow_eq).trans (hbelow.trans_le hpow))
  -- There a magnitude does not reach the next power of two.
  have htop : r = 2 ^ 53 → t ≠ 971 := by
    rintro rfl rfl
    have hlow := (abs_le.mp hnear.near).1
    have hquotient : q / 2 ^ (971 : Int) < 2 ^ 53 - 1 / 2 := by
      rwa [div_lt_iff₀ (by positivity), ← overflow_eq]
    generalize q / 2 ^ (971 : Int) = x at hlow hquotient
    push_cast at hlow
    linarith
  unfold partsOf
  split_ifs with hzero hpow
  · trivial
  · have := htop hpow
    exact ⟨by norm_num, by omega, by omega, .inl le_rfl⟩
  · exact ⟨by omega, hleast, ht, hform⟩

/-- What is too large becomes infinite. -/
private theorem parts_pack_overflow (s : Sign) (hlast : LastBit q t)
    (hnear : NearestEven (q / 2 ^ t) r) (hq : overflow ≤ q) :
    parts (.ofModel (.pack (partsOf s r t))) = .infinity s := by
  have hr := magnitude_le hlast hnear
  have ht : 971 ≤ t := by
    by_contra hlt
    have hpow : (2 : ℚ) ^ (t + 53) ≤ 2 ^ (52 + 971 : Int) :=
      zpow_le_zpow_right₀ (by norm_num) (by omega)
    have habove : (2 : ℚ) ^ (52 + 971 : Int) ≤ overflow := by
      rw [overflow_eq, zpow_add₀ two_ne_zero]
      gcongr
      norm_num
    linarith [hlast.lt]
  have hlow := (le_magnitude hlast hnear).resolve_right (by omega)
  -- At the last bit of the greatest double a magnitude is the next power of two: half a unit below
  -- it the neighbour is odd.
  have htop : t = 971 → r = 2 ^ 53 := by
    rintro rfl
    have hquotient : 2 ^ 53 - 1 / 2 ≤ q / 2 ^ (971 : Int) := by
      rwa [le_div_iff₀ (by positivity), ← overflow_eq]
    have hhigh := (abs_le.mp hnear.near).2
    generalize q / 2 ^ (971 : Int) = x at hquotient hhigh hnear
    rw [Int.cast_natCast] at hhigh
    have hge : (2 : ℚ) ^ 53 ≤ r + 1 := by linarith
    have hge : 2 ^ 53 ≤ r + 1 := by exact_mod_cast hge
    by_contra hne
    obtain rfl : r = 2 ^ 53 - 1 := by omega
    have hhalf : |x - (((2 ^ 53 - 1 : Nat) : Int) : ℚ)| = 1 / 2 := by
      refine le_antisymm hnear.near (le_trans ?_ (le_abs_self _))
      norm_num at hquotient ⊢
      linarith
    exact absurd (hnear.even hhalf) (by decide)
  unfold partsOf
  rw [dif_neg (by omega)]
  split_ifs with hpow
  · exact parts_pack_beyond s _ _ (by omega)
  · have : t ≠ 971 := fun h => hpow (htop h)
    exact parts_pack_beyond s _ _ (by omega)

/-- A finite double is a multiple of a power of two, with 53 bits. -/
theorem exists_value_eq {y : Float} (hy : isFinite y = true) :
    ∃ k e : Int, |k| < 2 ^ 53 ∧ -1074 ≤ e ∧ value (parts y) = k * 2 ^ e := by
  have hcanonical := canonical_parts y
  unfold isFinite at hy
  cases hparts : parts y with
  | notANumber => simp [hparts] at hy
  | infinity s => simp [hparts] at hy
  | zero s => exact ⟨0, 0, by norm_num, by norm_num, by simp [value]⟩
  | finite s m e h =>
    rw [hparts] at hcanonical
    obtain ⟨hm, he, -, -⟩ := hcanonical
    refine ⟨signed s m, e, ?_, he, rfl⟩
    cases s <;> simp only [signed, abs_neg, Nat.abs_cast] <;> exact_mod_cast hm

/-- No multiple of the last bit is nearer, and if one is as near the magnitude is even. -/
private theorem nearest_multiple (hnear : NearestEven (q / 2 ^ t) r) {j : Int} (hj : j ≠ r) :
    |(r : ℚ) * 2 ^ t - q| ≤ |j * 2 ^ t - q| ∧
      (|j * 2 ^ t - q| = |(r : ℚ) * 2 ^ t - q| → Even r) := by
  have hscale : (0 : ℚ) < 2 ^ t := by positivity
  have hdist : ∀ k : ℚ, |k * 2 ^ t - q| = |q / 2 ^ t - k| * 2 ^ t := by
    intro k
    rw [← abs_of_pos hscale, ← abs_mul, abs_of_pos hscale, abs_sub_comm]
    congr 1
    field_simp
  have hhalf : (1 : ℚ) / 2 ≤ |q / 2 ^ t - j| := by
    -- The two multiples are a unit apart.
    have hunit : (1 : ℚ) ≤ |(r : ℚ) - j| := by
      have : (1 : Int) ≤ |(r : Int) - j| := Int.one_le_abs (sub_ne_zero.mpr hj.symm)
      exact_mod_cast this
    have htriangle := abs_sub_le (r : ℚ) (q / 2 ^ t) j
    have hr := hnear.near
    rw [abs_sub_comm, Int.cast_natCast] at hr
    linarith
  have hr := hnear.near
  rw [Int.cast_natCast] at hr
  rw [hdist, hdist]
  refine ⟨mul_le_mul_of_nonneg_right (hr.trans hhalf) hscale.le, fun heq => ?_⟩
  have heq := mul_right_cancel₀ hscale.ne' heq
  have := hnear.even (le_antisymm (by exact_mod_cast hr) (by push_cast; linarith))
  exact_mod_cast this

/-- No double is nearer to a magnitude than the multiple of its last bit that it is rounded to, and
    if another is as near that multiple is even. -/
private theorem nearest_double (hlast : LastBit q t) (hnear : NearestEven (q / 2 ^ t) r)
    {k e : Int} (hk : |k| < 2 ^ 53) (he : -1074 ≤ e) :
    |(r : ℚ) * 2 ^ t - q| ≤ |k * 2 ^ e - q| ∧
      (|k * 2 ^ e - q| = |(r : ℚ) * 2 ^ t - q| → (k * 2 ^ e : ℚ) ≠ r * 2 ^ t → Even r) := by
  rcases le_or_gt t e with hte | hlt
  · -- A double with the same or a later last bit is a multiple itself.
    obtain ⟨i, rfl⟩ : ∃ i : Nat, e = t + i := ⟨(e - t).toNat, by omega⟩
    have hmultiple : (k * 2 ^ (t + i) : ℚ) = ((k * 2 ^ i : Int) : ℚ) * 2 ^ t := by
      rw [zpow_add₀ two_ne_zero, zpow_natCast]
      push_cast
      ring
    rw [hmultiple]
    rcases eq_or_ne (k * 2 ^ i) (r : Int) with heq | hne
    · rw [heq]
      exact ⟨le_rfl, fun _ h => absurd rfl (by exact_mod_cast h)⟩
    · obtain ⟨hle, heven⟩ := nearest_multiple hnear hne
      exact ⟨hle, fun heq _ => heven heq⟩
  · -- A double with an earlier last bit is below the power of two that the magnitude has reached.
    have hq := hlast.le.resolve_right (by omega)
    have hbelow : (k * 2 ^ e : ℚ) < 2 ^ (t + 52) := by
      have hk' : (k : ℚ) < 2 ^ 53 := by exact_mod_cast (le_abs_self k).trans_lt hk
      calc (k * 2 ^ e : ℚ) < 2 ^ 53 * 2 ^ e := by gcongr
        _ = 2 ^ (e + 53) := by rw [zpow_add₀ two_ne_zero]; norm_num; ring
        _ ≤ 2 ^ (t + 52) := zpow_le_zpow_right₀ (by norm_num) (by omega)
    have hpow : ((2 ^ 52 : Int) : ℚ) * 2 ^ t = 2 ^ (t + 52) := by
      rw [zpow_add₀ two_ne_zero]
      norm_num
      ring
    have hpower : |(r : ℚ) * 2 ^ t - q| ≤ |2 ^ (t + 52) - q| := by
      rw [← hpow]
      rcases eq_or_ne (2 ^ 52 : Int) r with heq | hne
      · rw [heq, Int.cast_natCast]
      · exact (nearest_multiple hnear hne).1
    have hfar : |(2 : ℚ) ^ (t + 52) - q| < |k * 2 ^ e - q| := by
      rw [abs_of_nonpos (by linarith), abs_of_neg (by linarith)]
      linarith
    exact ⟨hpower.trans hfar.le, fun heq => absurd heq (hpower.trans_lt hfar).ne'⟩

/-- Parts that are rounded make a double that is rounded correctly. -/
theorem correct_pack_partsOf (s : Sign) (hlast : LastBit q t) (hnear : NearestEven (q / 2 ^ t) r) :
    Correct s q (.ofModel (.pack (partsOf s r t))) := by
  rcases lt_or_ge q overflow with hq | hq
  · have hparts := parts_ofModel_pack (canonical_partsOf s hlast hnear hq)
    refine ⟨iff_of_true ?_ hq, fun _ => ?_, by rw [hparts, sign?_partsOf]⟩
    · rw [isFinite, hparts]
      unfold partsOf
      split_ifs <;> rfl
    -- Changing both signs does not change how far doubles are.
    have hdouble : ∀ y, isFinite y = true →
        |value (parts (.ofModel (.pack (partsOf s r t)))) - withSign s q|
            ≤ |value (parts y) - withSign s q| ∧
          (|value (parts y) - withSign s q|
              = |value (parts (.ofModel (.pack (partsOf s r t)))) - withSign s q| →
            value (parts y) ≠ value (parts (.ofModel (.pack (partsOf s r t)))) → Even r) := by
      intro y hy
      obtain ⟨k, e, hk, he, hvalue⟩ := exists_value_eq hy
      rw [hparts, value_partsOf, hvalue]
      cases s with
      | positive => exact nearest_double hlast hnear hk he
      | negative =>
        have hdist : ∀ v : ℚ, |v - -q| = |-v - q| := fun v => by rw [← abs_neg]; ring_nf
        have hneg := nearest_double hlast hnear (k := -k) (by rwa [abs_neg]) he
        simp only [withSign, hdist, neg_neg]
        push_cast at hneg
        rw [neg_mul] at hneg
        exact ⟨hneg.1, fun heq hne => hneg.2 heq fun h => hne (by rw [← h, neg_neg])⟩
    exact ⟨fun y hy => (hdouble y hy).1, fun y hy heq hne => by
      rw [hparts]
      exact evenMantissa_partsOf ((hdouble y hy).2 heq hne)⟩
  · exact correct_infinity (parts_pack_overflow s hlast hnear hq) hq

end Nearest

/-! ### Decimals -/

/-- A zero is rounded correctly. -/
private theorem correct_zero {s : Sign} {x : Float} (hx : parts x = .zero s) : Correct s 0 x := by
  have hvalue : value (parts x) = 0 := by rw [hx]; rfl
  have hzero : withSign s 0 = 0 := by cases s <;> simp [withSign]
  refine ⟨iff_of_true (by rw [isFinite, hx]) ?_, fun _ => ⟨fun y _ => ?_, fun y _ _ _ => ?_⟩, by
    rw [hx]; rfl⟩
  · rw [overflow_eq]
    exact mul_pos (by norm_num) (by positivity)
  · rw [hvalue, hzero, sub_zero, abs_zero]
    exact abs_nonneg _
  · rw [hx]
    trivial

/-- What is below half of the least double is rounded to zero. -/
private theorem nearestEven_zero {q : ℚ} (hq : 0 ≤ q) (hsmall : q < 2 ^ (-1075 : Int)) :
    LastBit q (-1074) ∧ NearestEven (q / 2 ^ (-1074 : Int)) (0 : Nat) := by
  have hhalf : q / 2 ^ (-1074 : Int) < 1 / 2 := by
    rw [div_lt_iff₀ (by positivity)]
    refine hsmall.trans_eq ?_
    rw [show (-1075 : Int) = -1 + -1074 by norm_num, zpow_add₀ two_ne_zero]
    norm_num
  have habs : |q / 2 ^ (-1074 : Int) - ((0 : Nat) : Int)| = q / 2 ^ (-1074 : Int) := by
    rw [Nat.cast_zero, Int.cast_zero, sub_zero, abs_of_nonneg (by positivity)]
  refine ⟨⟨le_rfl, hsmall.trans ?_, .inr rfl⟩, by rw [habs]; exact hhalf.le, fun heq => ?_⟩
  · exact zpow_lt_zpow_right₀ (by norm_num) (by norm_num)
  · exact absurd (habs ▸ heq) hhalf.ne

theorem neg_partsOf (r : Nat) (t : Int) : (partsOf .positive r t).neg = partsOf .negative r t := by
  unfold partsOf
  split_ifs <;> rfl

/-- A quotient by a power of ten is rounded to the nearest multiple of its last bit. -/
theorem ofScientific_negSucc {m : Nat} (hm : 0 < m) (e : Nat) :
    ∃ (t : Int) (r : Nat), LastBit ((m : ℚ) * 10 ^ (Int.negSucc e)) t ∧
      NearestEven ((m : ℚ) * 10 ^ (Int.negSucc e) / 2 ^ t) r ∧
      ofScientific .binary64 m (.negSucc e) = partsOf .positive r t := by
  have hquotient : (m : ℚ) * 10 ^ (Int.negSucc e) = m / (10 ^ (e + 1) : Nat) := by
    rw [zpow_negSucc]
    push_cast
    rw [div_eq_mul_inv]
  rw [hquotient]
  unfold ofScientific
  rw [dif_neg hm.ne', if_neg (by
    show ¬ Int.negSucc e > 2 ^ 11
    omega)]
  split
  · next hlow =>
    have hlow : Int.negSucc e < -(2 ^ 11 + (m.log2 : Int)) := hlow
    obtain ⟨hlast, hnear⟩ : LastBit ((m : ℚ) / (10 ^ (e + 1) : Nat)) (-1074)
        ∧ NearestEven ((m : ℚ) / (10 ^ (e + 1) : Nat) / 2 ^ (-1074 : Int)) (0 : Nat) := by
      refine nearestEven_zero (by positivity) ?_
      have hm' : (m : ℚ) < 2 ^ (m.log2 + 1) := by exact_mod_cast (Nat.lt_log2_self : m < _)
      have hten : (2 : ℚ) ^ (e + 1) ≤ ((10 ^ (e + 1) : Nat) : ℚ) := by
        push_cast
        gcongr
        norm_num
      calc (m : ℚ) / (10 ^ (e + 1) : Nat) ≤ m / 2 ^ (e + 1) := by gcongr
        _ < 2 ^ (m.log2 + 1) / 2 ^ (e + 1) := by gcongr
        _ = 2 ^ ((m.log2 + 1 : Int) - (e + 1)) := by
          rw [zpow_sub₀ two_ne_zero]
          norm_cast
        _ ≤ 2 ^ (-1075 : Int) := zpow_le_zpow_right₀ (by norm_num) (by omega)
    exact ⟨-1074, 0, hlast, hnear, rfl⟩
  · rw [if_neg (by omega)]
    obtain ⟨t, r, hlast, hnear, hdiv⟩ := div_natCast hm (d := 10 ^ (e + 1)) (by positivity)
    exact ⟨t, r, hlast, hnear, hdiv⟩

/-- A zero with any exponent is read as a zero. -/
private theorem parts_toFloat_zero (s : Sign) (e : Int) :
    parts (Literal.toFloat (.decimal s 0 e)) = .zero s := by
  cases e with
  | ofNat e => simp [Literal.toFloat, parts_nearest_zero]
  | negSucc e =>
    cases s with
    | positive => exact parts_ofModel_pack (u := .zero .positive) trivial
    | negative => exact parts_ofModel_pack (u := .zero .negative) trivial

/-- Powers of ten that are not evaluated are too large. -/
private theorem overflow_le_of_largestPower_lt {m e : Nat} (hm : 0 < m)
    (he : Literal.largestPower < e) : overflow ≤ m * 10 ^ e := by
  have hm' : (1 : ℚ) ≤ m := by exact_mod_cast hm
  have hten : (10 : ℚ) ^ 401 ≤ 10 ^ e := pow_le_pow_right₀ (by norm_num) he
  have htwo : (2 : ℚ) ^ 1024 ≤ 10 ^ 401 := by
    calc (2 : ℚ) ^ 1024 ≤ 2 ^ (3 * 401) := pow_le_pow_right₀ (by norm_num) (by norm_num)
      _ = 8 ^ 401 := by rw [pow_mul]; norm_num
      _ ≤ 10 ^ 401 := by gcongr; norm_num
  calc overflow ≤ 2 ^ 1024 := sub_le_self _ (by positivity)
    _ ≤ 10 ^ e := htwo.trans hten
    _ ≤ m * 10 ^ e := le_mul_of_one_le_left (by positivity) hm'

/-- **Decimals.** The double that a decimal is read as is rounded correctly. -/
theorem Literal.correct_toFloat (s : Sign) (m : Nat) (e : Int) :
    Correct s (m * 10 ^ e) (Literal.toFloat (.decimal s m e)) := by
  rcases Nat.eq_zero_or_pos m with rfl | hm
  · rw [Nat.cast_zero, zero_mul]
    exact correct_zero (parts_toFloat_zero s e)
  cases e with
  | ofNat e =>
    rw [Int.ofNat_eq_natCast, zpow_natCast]
    by_cases hlarge : Literal.largestPower < e
    · have htoFloat : Literal.toFloat (.decimal s m e) = .ofModel (.pack (.infinity s)) :=
        if_pos ⟨hm.ne', hlarge⟩
      have hparts := parts_ofModel_pack (u := .infinity s) trivial
      rw [htoFloat]
      exact correct_infinity hparts (overflow_le_of_largestPower_lt hm hlarge)
    · have htoFloat : Literal.toFloat (.decimal s m e) = nearest s (m * 10 ^ e) 0 := by
        refine (if_neg fun h => hlarge h.2).trans ?_
        rw [if_neg hm.ne']
        rfl
      obtain ⟨t, r, hlast, hnear, hround⟩ := round_natCast s (n := m * 10 ^ e) (by positivity)
      push_cast at hlast hnear
      rw [htoFloat, nearest, hround]
      exact correct_pack_partsOf s hlast hnear
  | negSucc e =>
    obtain ⟨t, r, hlast, hnear, hparts⟩ := ofScientific_negSucc hm e
    cases s with
    | positive =>
      rw [Literal.toFloat, hparts]
      exact correct_pack_partsOf .positive hlast hnear
    | negative =>
      rw [Literal.toFloat, hparts, neg_partsOf]
      exact correct_pack_partsOf .negative hlast hnear

end CollisionMesh.Number
