import CollisionMesh.Proofs.Values

namespace CollisionMesh.Number

open Float.Model (Format UnpackedFloat totalExponent)
open Float.Model.UnpackedFloat

/-!
# Quotients rounded to 53 bits

What rounding keeps of a quotient of integers is its whole part and two bits about what is left
over. That is enough to round it to the nearest multiple of a power of two.

* `WholePart`, `WholePart.roundedMantissa` — a quotient with its two bits, and its rounding;
* `LastBit` — the exponent of the last bit of the doubles of a size;
* `roundWithAccuracy_quotient` — a quotient is rounded to a multiple of its last bit;
* `round_natCast`, `div_natCast` — so are integers and quotients of integers.
-/

/-! ### Quotients and their whole parts -/

/-- A mantissa that is the whole part of a quotient. Its first bit says whether what is left over
    is at least a half, its second whether it is anything else than nothing or a half. -/
structure WholePart (n d : Nat) (em : ExtendedMantissa) : Prop where
  mantissa : em.mantissa = n / d
  roundBit : em.roundBit = true ↔ d ≤ 2 * (n % d)
  stickyBit : em.stickyBit = true ↔ 2 * (n % d) ≠ 0 ∧ 2 * (n % d) ≠ d

theorem wholePart_ofMantissaAndAccuracy (n : Nat) {d : Nat} (hd : 0 < d) :
    WholePart n d (.ofMantissaAndAccuracy (n / d) (accuracyOfFraction (n % d) d)) := by
  unfold accuracyOfFraction
  split
  · next hzero => exact ⟨rfl, by simp [ExtendedMantissa.ofMantissaAndAccuracy, hzero, hd.ne'],
      by simp [ExtendedMantissa.ofMantissaAndAccuracy, hzero]⟩
  · next hzero =>
    rcases lt_trichotomy (2 * (n % d)) d with h | h | h
    · rw [Nat.compare_eq_lt.mpr h]
      exact ⟨rfl, by simp [ExtendedMantissa.ofMantissaAndAccuracy, h],
        by simp [ExtendedMantissa.ofMantissaAndAccuracy, hzero, h.ne]⟩
    · rw [Nat.compare_eq_eq.mpr h]
      exact ⟨rfl, by simp [ExtendedMantissa.ofMantissaAndAccuracy, h],
        by simp [ExtendedMantissa.ofMantissaAndAccuracy, h]⟩
    · rw [Nat.compare_eq_gt.mpr h]
      exact ⟨rfl, by simp [ExtendedMantissa.ofMantissaAndAccuracy, h.le],
        by simp [ExtendedMantissa.ofMantissaAndAccuracy, hzero, h.ne']⟩

/-- A shift by one halves the quotient. -/
theorem WholePart.shiftRightOne {n d : Nat} {em : ExtendedMantissa} (h : WholePart n d em)
    (hd : 0 < d) : WholePart n (d * 2) em.shiftRightOne := by
  -- What is left over of the half: what was left over, and the last bit of the whole part.
  have hmod : n % (d * 2) = n % d + d * (n / d % 2) := Nat.mod_mul
  have hless := Nat.mod_lt n hd
  have hbit := Nat.mod_two_eq_zero_or_one (n / d)
  refine ⟨?_, ?_, ?_⟩
  · show em.mantissa / 2 = _
    rw [h.mantissa, Nat.div_div_eq_div_mul]
  · show (em.mantissa % 2 != 0) = true ↔ _
    rw [h.mantissa, bne_iff_ne, hmod]
    rcases hbit with hbit | hbit <;> rw [hbit] <;> simp <;> omega
  · show (em.roundBit || em.stickyBit) = true ↔ _
    rw [Bool.or_eq_true, h.roundBit, h.stickyBit, hmod]
    rcases hbit with hbit | hbit <;> rw [hbit] <;> simp <;> omega

theorem WholePart.shiftRight {n d : Nat} {em : ExtendedMantissa} (h : WholePart n d em)
    (hd : 0 < d) (k : Nat) : WholePart n (d * 2 ^ k) (em >>> k) := by
  show WholePart n (d * 2 ^ k) (Nat.repeat ExtendedMantissa.shiftRightOne k em)
  induction k with
  | zero => simpa [Nat.repeat] using h
  | succ k ih =>
    rw [pow_succ, ← mul_assoc]
    exact ih.shiftRightOne (by positivity)

/-- The two bits are enough to round a quotient. -/
theorem WholePart.roundedMantissa {n d : Nat} {em : ExtendedMantissa} (h : WholePart n d em) :
    em.roundedMantissa = roundQuotient n d := by
  obtain ⟨m, r, s⟩ := em
  obtain ⟨rfl, hround, hsticky⟩ := h
  dsimp only at hround hsticky
  rcases lt_trichotomy (2 * (n % d)) d with hlt | heq | hgt
  · obtain rfl : r = false := by simpa [not_le.mpr hlt] using hround
    simp only [roundQuotient, Nat.compare_eq_lt.mpr hlt]
    cases s <;> rfl
  · obtain rfl : r = true := hround.mpr heq.ge
    obtain rfl : s = false := by simpa [heq] using hsticky
    simp only [roundQuotient, Nat.compare_eq_eq.mpr heq]
    rfl
  · obtain rfl : r = true := hround.mpr hgt.le
    obtain rfl : s = true := hsticky.mpr ⟨by omega, hgt.ne'⟩
    simp only [roundQuotient, Nat.compare_eq_gt.mpr hgt]
    rfl

/-! ### Rounding to 53 bits -/

/-- The exponent of the last bit of the doubles of a size: 53 bits reach up to the first one, or
    it is the least exponent. -/
structure LastBit (q : ℚ) (t : Int) : Prop where
  least : -1074 ≤ t
  lt : q < 2 ^ (t + 53)
  le : 2 ^ (t + 52) ≤ q ∨ t = -1074

/-- A magnitude has at most 53 bits or is the next power of two. -/
theorem magnitude_le {q : ℚ} {t : Int} {r : Nat} (hlast : LastBit q t)
    (hnear : NearestEven (q / 2 ^ t) r) : r ≤ 2 ^ 53 := by
  have hquotient : q / 2 ^ t ≤ ((2 ^ 53 : Nat) : Int) := by
    rw [div_le_iff₀ (by positivity)]
    refine hlast.lt.le.trans (le_of_eq ?_)
    rw [zpow_add₀ two_ne_zero]
    norm_num
    ring
  exact_mod_cast hnear.le_of_le hquotient

/-- Parts made of a magnitude that has at most 53 bits or is the next power of two. -/
def partsOf (s : Sign) (r : Nat) (t : Int) : UnpackedFloat :=
  if h : r = 0 then .zero s
  else if r = 2 ^ 53 then .finite s (2 ^ 52) (t + 1) (by decide)
  else .finite s r t (Nat.pos_of_ne_zero h)

private theorem targetExponent_totalExponent (m : Nat) (e : Int) :
    Format.binary64.targetExponent (totalExponent m e) = max (m.log2 + e - 52) (-1074) := by
  have hbits : Format.binary64.mantissaBits = 53 := rfl
  have hmin : Format.binary64.minExponent = -1074 := by decide
  rw [Format.targetExponent, totalExponent, hbits, hmin]
  push_cast
  omega

/-- Nothing is shifted out of a magnitude of 53 bits, and one bit of the next power of two. -/
private theorem shiftToTargetExponent_magnitude {r : Nat} {t : Int} (hr : r ≤ 2 ^ 53)
    (ht : -1074 ≤ t) : shiftToTargetExponent .binary64 r t .exact
      = if r = 2 ^ 53 then (⟨2 ^ 52, false, false⟩, t + 1) else (⟨r, false, false⟩, t) := by
  rw [shiftToTargetExponent, targetExponent_totalExponent, shiftToExponent]
  split
  · next heq =>
    have hlog : (2 ^ 53 : Nat).log2 = 53 := Nat.log2_two_pow
    rw [heq, hlog, show (max ((53 : Nat) + t - 52) (-1074) - t).toNat = 1 by omega]
    rfl
  · next hne =>
    have hlog : r.log2 ≤ 52 := by
      rcases Nat.eq_zero_or_pos r with rfl | hpos
      · decide
      · exact Nat.lt_succ_iff.mp ((Nat.log2_lt hpos.ne').mpr (by omega))
    rw [show (max ((r.log2 : Int) + t - 52) (-1074) - t).toNat = 0 by omega]
    simp only [Nat.cast_zero, add_zero]
    rfl

/-- The exponent that rounding aims at is that of the last bit. -/
private theorem lastBit_target {x : ℚ} {m : Nat} {e : Int} (hm : m ≤ x) (hx : x < m + 1)
    (h : 2 ^ 52 ≤ m ∨ e = -1074) :
    e ≤ max ((m.log2 : Int) + e - 52) (-1074)
      ∧ LastBit (x * 2 ^ e) (max ((m.log2 : Int) + e - 52) (-1074)) := by
  have hscale : (0 : ℚ) < 2 ^ e := by positivity
  have hupper : x * 2 ^ e < 2 ^ ((m.log2 : Int) + e + 1) := by
    have hlog : (m : ℚ) + 1 ≤ 2 ^ (m.log2 + 1) := by exact_mod_cast (Nat.lt_log2_self : m < _)
    calc x * 2 ^ e < (m + 1) * 2 ^ e := by gcongr
      _ ≤ 2 ^ (m.log2 + 1) * 2 ^ e := by gcongr
      _ = 2 ^ ((m.log2 : Int) + e + 1) := by
        rw [← zpow_natCast, ← zpow_add₀ two_ne_zero]
        congr 1
        push_cast
        ring
  have hlt : x * 2 ^ e < 2 ^ (max ((m.log2 : Int) + e - 52) (-1074) + 53) :=
    hupper.trans_le (zpow_le_zpow_right₀ (by norm_num) (by omega))
  have hle : e ≤ max ((m.log2 : Int) + e - 52) (-1074) := by
    rcases h with hbits | rfl
    · have hlog : 52 ≤ m.log2 := (Nat.le_log2 (by omega)).mpr hbits
      omega
    · omega
  refine ⟨hle, by omega, hlt, ?_⟩
  rcases le_or_gt ((m.log2 : Int) + e - 52) (-1074) with hmin | hmin
  · exact .inr (max_eq_right hmin)
  have hne : m ≠ 0 := by
    rintro rfl
    simp only [Nat.log2_zero, Nat.cast_zero] at hmin
    omega
  have hlow : (2 : ℚ) ^ m.log2 ≤ x := by
    refine le_trans ?_ hm
    exact_mod_cast Nat.log2_self_le hne
  left
  rw [max_eq_left hmin.le]
  calc (2 : ℚ) ^ ((m.log2 : Int) + e - 52 + 52) = 2 ^ m.log2 * 2 ^ e := by
        rw [← zpow_natCast, ← zpow_add₀ two_ne_zero]
        congr 1
        ring
    _ ≤ x * 2 ^ e := by gcongr

/-- **Rounding a quotient.** With enough bits in its whole part a quotient is rounded to the
    nearest multiple of its last bit. -/
theorem roundWithAccuracy_quotient (s : Sign) (n : Nat) {d : Nat} (hd : 0 < d) {e : Int}
    (h : 2 ^ 52 ≤ n / d ∨ e = -1074) :
    ∃ (t : Int) (r : Nat), LastBit ((n : ℚ) / d * 2 ^ e) t ∧
      NearestEven ((n : ℚ) / d * 2 ^ e / 2 ^ t) r ∧
      roundWithAccuracy .binary64 s (n / d) e (accuracyOfFraction (n % d) d) = partsOf s r t := by
  have hd' : (0 : ℚ) < d := by exact_mod_cast hd
  have hwhole : ((n / d : Nat) : ℚ) ≤ (n : ℚ) / d := Nat.cast_div_le
  have hnext : (n : ℚ) / d < (n / d : Nat) + 1 := by
    rw [div_lt_iff₀ hd', mul_comm]
    exact_mod_cast Nat.lt_mul_div_succ n hd
  obtain ⟨hle, hlast⟩ := lastBit_target hwhole hnext h
  set t := max (((n / d).log2 : Int) + e - 52) (-1074)
  -- Shifting to the last bit divides by a power of two more.
  obtain ⟨k, hk⟩ : ∃ k : Nat, t = e + k := ⟨(t - e).toNat, by omega⟩
  have hscaled : (n : ℚ) / d * 2 ^ e / 2 ^ t = (n : ℚ) / (d * 2 ^ k : Nat) := by
    rw [hk, zpow_add₀ two_ne_zero, zpow_natCast]
    push_cast
    field_simp
  have hnear : NearestEven ((n : ℚ) / d * 2 ^ e / 2 ^ t) (roundQuotient n (d * 2 ^ k)) := by
    rw [hscaled]
    exact nearestEven_roundQuotient n (by positivity)
  have hsmall := magnitude_le hlast hnear
  have hem := ((wholePart_ofMantissaAndAccuracy n hd).shiftRight hd k).roundedMantissa
  refine ⟨t, roundQuotient n (d * 2 ^ k), hlast, hnear, ?_⟩
  have hfirst : shiftToTargetExponent .binary64 (n / d) e (accuracyOfFraction (n % d) d)
      = (ExtendedMantissa.ofMantissaAndAccuracy (n / d) (accuracyOfFraction (n % d) d) >>> k, t) := by
    rw [shiftToTargetExponent, targetExponent_totalExponent, shiftToExponent,
      show (max (((n / d).log2 : Int) + e - 52) (-1074) - e).toNat = k by omega, hk]
  unfold roundWithAccuracy
  simp only [hfirst, hem, shiftToTargetExponent_magnitude hsmall hlast.least]
  unfold partsOf
  by_cases htop : roundQuotient n (d * 2 ^ k) = 2 ^ 53
  · simp [htop]
  · simp only [if_neg htop]

/-- Zeros at the end are bits more. -/
private theorem two_pow_le_mul_two_pow {n k j : Nat} (hn : 0 < n) (h : j ≤ n.log2 + k) :
    2 ^ j ≤ n * 2 ^ k := by
  calc 2 ^ j ≤ 2 ^ (n.log2 + k) := Nat.pow_le_pow_right (by norm_num) h
    _ = 2 ^ n.log2 * 2 ^ k := Nat.pow_add ..
    _ ≤ n * 2 ^ k := Nat.mul_le_mul_right _ (Nat.log2_self_le hn.ne')

/-- A smaller exponent takes zeros at the end back. -/
private theorem mul_two_pow_div_mul_zpow_neg (n d k : Nat) :
    ((n * 2 ^ k : Nat) : ℚ) / d * 2 ^ (-k : Int) = n / d := by
  rw [zpow_neg, zpow_natCast]
  push_cast
  field_simp

/-- An integer is rounded to the nearest multiple of its last bit. -/
theorem round_natCast (s : Sign) {n : Nat} (hn : 0 < n) :
    ∃ (t : Int) (r : Nat), LastBit n t ∧ NearestEven ((n : ℚ) / 2 ^ t) r ∧
      UnpackedFloat.round .binary64 s n 0 = partsOf s r t := by
  -- Zeros are put at the end until there are 53 bits.
  obtain ⟨k, hk⟩ : ∃ k : Nat, (0 - max ((n.log2 : Int) + 0 - 52) (-1074)).toNat = k := ⟨_, rfl⟩
  have hbits : 2 ^ 52 ≤ n * 2 ^ k := two_pow_le_mul_two_pow hn (by omega)
  obtain ⟨t, r, hlast, hnear, hround⟩ := roundWithAccuracy_quotient s (n * 2 ^ k) one_pos
    (e := -k) (.inl (by rwa [Nat.div_one]))
  rw [mul_two_pow_div_mul_zpow_neg, Nat.cast_one, div_one] at hlast hnear
  refine ⟨t, r, hlast, hnear, ?_⟩
  rw [Nat.div_one, Nat.mod_one] at hround
  rw [UnpackedFloat.round, targetExponent_totalExponent, decreaseExponent, hk, Nat.shiftLeft_eq,
    zero_sub]
  exact hround

/-- A quotient of integers is rounded to the nearest multiple of its last bit. -/
theorem div_natCast {n d : Nat} (hn : 0 < n) (hd : 0 < d) :
    ∃ (t : Int) (r : Nat), LastBit ((n : ℚ) / d) t ∧ NearestEven ((n : ℚ) / d / 2 ^ t) r ∧
      div .binary64 (.finite .positive n 0 hn) (.finite .positive d 0 hd)
        = partsOf .positive r t := by
  obtain ⟨e, he⟩ : ∃ e : Int, min (0 - 0) (Format.binary64.targetExponent
      (totalExponent n 0 - totalExponent d 0)) = e := ⟨_, rfl⟩
  obtain ⟨k, hk⟩ : ∃ k : Nat, (0 - 0 - e).toNat = k := ⟨_, rfl⟩
  have heq : e = min 0 (max ((n.log2 : Int) - d.log2 - 53) (-1074)) := by
    have hbits : Format.binary64.mantissaBits = 53 := rfl
    have hmin : Format.binary64.minExponent = -1074 := by decide
    rw [← he, Format.targetExponent, totalExponent, totalExponent, hbits, hmin]
    push_cast
    omega
  have hek : e = -k := by omega
  -- The exponent is so small that there are 53 bits, unless it is the least one.
  have hbits : 2 ^ 52 ≤ n * 2 ^ k / d ∨ e = -1074 := by
    rcases eq_or_ne e (-1074) with hleast | hleast
    · exact .inr hleast
    · left
      rw [Nat.le_div_iff_mul_le hd]
      calc 2 ^ 52 * d ≤ 2 ^ 52 * 2 ^ (d.log2 + 1) := Nat.mul_le_mul_left _ Nat.lt_log2_self.le
        _ = 2 ^ (52 + (d.log2 + 1)) := (Nat.pow_add ..).symm
        _ ≤ n * 2 ^ k := two_pow_le_mul_two_pow hn (by omega)
  obtain ⟨t, r, hlast, hnear, hround⟩ :=
    roundWithAccuracy_quotient .positive (n * 2 ^ k) hd hbits
  rw [hek, mul_two_pow_div_mul_zpow_neg] at hlast hnear
  refine ⟨t, r, hlast, hnear, ?_⟩
  rw [← hround]
  simp only [div, divCore, he, hk, Nat.shiftLeft_eq]
  rfl

end CollisionMesh.Number
