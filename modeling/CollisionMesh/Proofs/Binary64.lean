import Mathlib
import CollisionMesh.Number.Binary64

namespace CollisionMesh.Number

open Float.Model (Format UnpackedFloat totalExponent)
open Float.Model.UnpackedFloat

/-!
# Rounding to integers is exact

Parts in the form that doubles have come back from a double unchanged. An integer that
needs no more than 53 bits, apart from zeros at the end, is a double itself. So a double
that was rounded to an integral one is rounded to the same integer as before.

* `Canonical` — the form of the parts of a double; `canonical_parts`;
* `parts_ofModel_pack` — doubles made of parts have those parts;
* `roundWithAccuracy_mul_two_pow` — nothing is lost where only zeros are shifted out;
* `Short`, `exists_parts_nearest`, `toInteger_nearest` — integers that are doubles;
* `toInteger_roundEven` — rounding twice is rounding once.
-/

/-! ### The parts of a double -/

/-- The form that the parts of a double have: at most 53 bits, all of them in use unless
    the exponent is the least one. -/
def Canonical : UnpackedFloat → Prop
  | .finite _ m e _ => m < 2 ^ 53 ∧ -1074 ≤ e ∧ e ≤ 971 ∧ (2 ^ 52 ≤ m ∨ e = -1074)
  | _ => True

/-- The implicit leading bit of a mantissa. -/
private theorem toNat_one_append (v : BitVec 52) : (1#1 ++ v).toNat = 2 ^ 52 + v.toNat := by
  rw [BitVec.toNat_append]
  show 1 <<< 52 ||| v.toNat = _
  rw [Nat.shiftLeft_eq, Nat.or_comm, Nat.one_mul, Nat.or_two_pow_eq_add_of_lt v.isLt, Nat.add_comm]

theorem canonical_parts (x : Float) : Canonical (parts x) := by
  obtain ⟨⟨bits, valid⟩⟩ := x
  show Canonical (UnpackedFloat.unpack Format.binary64 bits.toBitVec)
  have hm : (@unpackMantissa Format.binary64 bits.toBitVec).toNat < 2 ^ 52 := BitVec.isLt _
  have he : (@unpackExponent Format.binary64 bits.toBitVec).toNat < 2 ^ 11 := BitVec.isLt _
  have hbias : Format.binary64.exponentBias = 1023 := rfl
  unfold UnpackedFloat.unpack
  dsimp only
  split
  · split <;> trivial
  · next hmax =>
    have hmax : (@unpackExponent Format.binary64 bits.toBitVec).toNat ≠ 2047 :=
      fun h => hmax (BitVec.eq_of_toNat_eq h)
    split
    · split
      · trivial
      · next hzero _ =>
        have hzero : (@unpackExponent Format.binary64 bits.toBitVec).toNat = 0 :=
          congrArg BitVec.toNat hzero
        refine ⟨by omega, ?_, ?_, .inr ?_⟩ <;> rw [hbias, hzero] <;> norm_num
    · next hzero =>
      have hzero : (@unpackExponent Format.binary64 bits.toBitVec).toNat ≠ 0 :=
        fun h => hzero (BitVec.eq_of_toNat_eq h)
      have happend := toNat_one_append (@unpackMantissa Format.binary64 bits.toBitVec)
      refine ⟨?_, ?_, ?_, .inl ?_⟩
      · exact happend.trans_lt (by omega)
      · rw [hbias]; push_cast; omega
      · rw [hbias]; push_cast; omega
      · exact happend.symm.le.trans' (by omega)

/-- Parts with a bit that is implied come back from the bits of a double. -/
private theorem unpack_pack_normal (s : Sign) {m : Nat} {e : Int} (hpos : 0 < m) (hm : m < 2 ^ 53)
    (he : -1074 ≤ e) (he' : e ≤ 971) (hnormal : 2 ^ 52 ≤ m) :
    UnpackedFloat.unpack Format.binary64 (UnpackedFloat.pack Format.binary64 (.finite s m e hpos))
      = .finite s m e hpos := by
  have hlog : m.log2 = 52 := (Nat.log2_eq_iff hpos.ne').mpr ⟨hnormal, hm⟩
  have hbias : Format.binary64.exponentBias = 1023 := rfl
  obtain ⟨biased, hbiased⟩ : ∃ b, (e + Format.binary64.exponentBias
      + Format.binary64.mantissaBitsWithoutImplicit).toNat = b := ⟨_, rfl⟩
  have hb : (biased : Int) = e + 1075 := by
    rw [← hbiased, hbias, Int.toNat_of_nonneg] <;> push_cast <;> omega
  have hbits : (BitVec.ofNat 11 biased).toNat = biased := by
    rw [BitVec.toNat_ofNat, Nat.mod_eq_of_lt (by omega)]
  have hmax : BitVec.ofNat 11 biased ≠ -1#11 := by
    intro h
    have := congrArg BitVec.toNat h
    rw [hbits] at this
    have : biased = 2047 := this
    omega
  have hzero : BitVec.ofNat 11 biased ≠ 0#11 := by
    intro h
    have := congrArg BitVec.toNat h
    rw [hbits] at this
    have : biased = 0 := this
    omega
  have hmantissa : (1#1 ++ BitVec.ofNat 52 m).toNat = m := by
    rw [toNat_one_append, BitVec.toNat_ofNat]
    omega
  have hpack : UnpackedFloat.pack Format.binary64 (.finite s m e hpos)
      = packComponents Format.binary64 s (BitVec.ofNat 11 biased) (BitVec.ofNat 52 m) := by
    -- Not infinite, as the biased exponent is below 2047, and with all 53 bits in use.
    simp only [UnpackedFloat.pack, hbiased]
    rw [if_neg (by show ¬ 2 ^ 11 ≤ biased + 1; omega), if_pos (by rw [hlog]; rfl)]
  rw [hpack]
  unfold UnpackedFloat.unpack
  simp only [unpackMantissa_packComponents, unpackExponent_packComponents,
    unpackSign_packComponents, Sign.ofBitVec_toBitVec, hbits, hbias]
  -- An exponent between the two special ones: the implied bit is put back in front.
  rw [if_neg hmax, if_neg hzero]
  congr 1
  push_cast
  omega

/-- Parts with the least exponent come back from the bits of a double. -/
private theorem unpack_pack_subnormal (s : Sign) {m : Nat} (hpos : 0 < m) (hm : m < 2 ^ 52) :
    UnpackedFloat.unpack Format.binary64
        (UnpackedFloat.pack Format.binary64 (.finite s m (-1074) hpos))
      = .finite s m (-1074) hpos := by
  have hlog : m.log2 < 52 := (Nat.log2_lt hpos.ne').mpr hm
  have hbits : (BitVec.ofNat 52 m).toNat = m := by
    rw [BitVec.toNat_ofNat, Nat.mod_eq_of_lt hm]
  have hzero : BitVec.ofNat 52 m ≠ 0#52 := by
    intro h
    have := congrArg BitVec.toNat h
    rw [hbits] at this
    have : m = 0 := this
    omega
  have hpack : UnpackedFloat.pack Format.binary64 (.finite s m (-1074) hpos)
      = packComponents Format.binary64 s 0#11 (BitVec.ofNat 52 m) := by
    simp only [UnpackedFloat.pack]
    rw [if_neg (by decide), if_neg (by show ¬ m.log2 + 1 = 53; omega)]
  rw [hpack]
  unfold UnpackedFloat.unpack
  simp only [unpackMantissa_packComponents, unpackExponent_packComponents,
    unpackSign_packComponents, Sign.ofBitVec_toBitVec]
  -- The exponent is the special one for small numbers: no bit is implied.
  rw [if_neg (by decide), if_pos trivial, dif_neg hzero]
  simp only [hbits]
  rfl

@[simp] theorem unpack_packedInfinity (s : Sign) :
    UnpackedFloat.unpack Format.binary64 (packedInfinity Format.binary64 s) = .infinity s := by
  simp [packedInfinity, UnpackedFloat.unpack]

/-- Parts in the form of a double come back from the double. -/
theorem parts_ofModel_pack {u : UnpackedFloat} (h : Canonical u) :
    parts (.ofModel (.pack u)) = u := by
  show UnpackedFloat.unpack Format.binary64 (UnpackedFloat.pack Format.binary64 u) = u
  cases u with
  | notANumber => exact unpack_packedNaN
  | zero s => exact unpack_packedZero
  | infinity s => exact unpack_packedInfinity s
  | finite s m e hpos =>
    obtain ⟨hm, he, he', hform⟩ := h
    -- Below `2 ^ 52` the exponent is the least one.
    by_cases hnormal : 2 ^ 52 ≤ m
    · exact unpack_pack_normal s hpos hm he he' hnormal
    · obtain rfl := hform.resolve_left hnormal
      exact unpack_pack_subnormal s hpos (by omega)

/-! ### Exact rounding -/

/-- The exponent at which a mantissa has all its 53 bits in use. -/
private theorem targetExponent_eq {m : Nat} {e t : Int} (ht : (m.log2 : Int) + e = 52 + t)
    (hmin : -1074 ≤ t) : Format.binary64.targetExponent (totalExponent m e) = t := by
  have hbits : Format.binary64.mantissaBits = 53 := rfl
  have hmin' : Format.binary64.minExponent = -1074 := by decide
  rw [Format.targetExponent, totalExponent, hbits, hmin']
  push_cast
  omega

private theorem log2_mul_two_pow {m : Nat} (hnormal : 2 ^ 52 ≤ m) (hm : m < 2 ^ 53) (j : Nat) :
    (m * 2 ^ j).log2 = 52 + j := by
  rw [Nat.log2_eq_iff (by positivity)]
  have hlow : 2 ^ 52 * 2 ^ j ≤ m * 2 ^ j := Nat.mul_le_mul_right _ hnormal
  have hhigh : m * 2 ^ j < 2 ^ 53 * 2 ^ j := Nat.mul_lt_mul_of_pos_right hm (by positivity)
  rw [← Nat.pow_add] at hlow hhigh
  exact ⟨hlow, by rwa [show 52 + j + 1 = 53 + j by omega]⟩

/-- Zeros at the end of a mantissa are shifted out without a trace. -/
private theorem mk_mul_two_pow_shiftRight (m j : Nat) :
    (⟨m * 2 ^ j, false, false⟩ : ExtendedMantissa) >>> j = ⟨m, false, false⟩ := by
  show Nat.repeat ExtendedMantissa.shiftRightOne j _ = _
  -- Stated with some zeros more, so that each step of the shift can take one off.
  suffices h : ∀ k, Nat.repeat ExtendedMantissa.shiftRightOne j ⟨m * 2 ^ (k + j), false, false⟩
      = ⟨m * 2 ^ k, false, false⟩ by simpa using h 0
  induction j with
  | zero => intro k; rfl
  | succ j ih =>
    intro k
    rw [show k + (j + 1) = (k + 1) + j by omega, Nat.repeat, ih (k + 1)]
    have heven : m * 2 ^ (k + 1) = 2 * (m * 2 ^ k) := by ring
    simp [ExtendedMantissa.shiftRightOne, heven]

private theorem shiftToTargetExponent_mul_two_pow {m : Nat} (hnormal : 2 ^ 52 ≤ m)
    (hm : m < 2 ^ 53) {t : Int} (hmin : -1074 ≤ t) (j : Nat) :
    shiftToTargetExponent Format.binary64 (m * 2 ^ j) (t - j) .exact = (⟨m, false, false⟩, t) := by
  have htarget : Format.binary64.targetExponent (totalExponent (m * 2 ^ j) (t - j)) = t := by
    refine targetExponent_eq ?_ hmin
    rw [log2_mul_two_pow hnormal hm]
    push_cast
    ring
  rw [shiftToTargetExponent, htarget, shiftToExponent, show (t - (t - (j : Int))).toNat = j by omega]
  show ((⟨m * 2 ^ j, false, false⟩ : ExtendedMantissa) >>> j, t - j + j) = _
  rw [mk_mul_two_pow_shiftRight, Int.sub_add_cancel]

/-- **Exact rounding.** Where only zeros are shifted out, rounding loses nothing. -/
theorem roundWithAccuracy_mul_two_pow (s : Sign) {m : Nat} (hpos : 0 < m) (hnormal : 2 ^ 52 ≤ m)
    (hm : m < 2 ^ 53) {t : Int} (hmin : -1074 ≤ t) (j : Nat) :
    roundWithAccuracy Format.binary64 s (m * 2 ^ j) (t - j) .exact = .finite s m t hpos := by
  -- Rounding shifts twice, and the second time there is nothing left to shift.
  have hfirst := shiftToTargetExponent_mul_two_pow hnormal hm hmin j
  have hsecond := shiftToTargetExponent_mul_two_pow hnormal hm hmin 0
  rw [pow_zero, Nat.mul_one, Nat.cast_zero, sub_zero] at hsecond
  have hround : (⟨m, false, false⟩ : ExtendedMantissa).roundedMantissa = m := rfl
  unfold roundWithAccuracy
  simp only [hfirst, hround, hsecond]
  exact dif_neg hpos.ne'

/-- An integer below `2 ^ 53` is a double. -/
theorem round_small (s : Sign) {n : Nat} (hpos : 0 < n) (hn : n < 2 ^ 53) :
    ∃ k : Nat, ∃ h, UnpackedFloat.round Format.binary64 s n 0 = .finite s (n * 2 ^ k) (-k) h ∧
      n * 2 ^ k < 2 ^ 53 ∧ 2 ^ 52 ≤ n * 2 ^ k ∧ k ≤ 52 := by
  have hlog : n.log2 ≤ 52 := Nat.lt_succ_iff.mp ((Nat.log2_lt hpos.ne').mpr hn)
  have hlow : 2 ^ n.log2 ≤ n := Nat.log2_self_le hpos.ne'
  have hhigh : n < 2 ^ (n.log2 + 1) := Nat.lt_log2_self
  -- `k` zeros fill the mantissa up to 53 bits.
  obtain ⟨k, hk⟩ : ∃ k, n.log2 + k = 52 := ⟨52 - n.log2, by omega⟩
  have hm : n * 2 ^ k < 2 ^ 53 := by
    calc n * 2 ^ k < 2 ^ (n.log2 + 1) * 2 ^ k := Nat.mul_lt_mul_of_pos_right hhigh (by positivity)
      _ = 2 ^ 53 := by rw [← Nat.pow_add]; congr 1; omega
  have hnormal : 2 ^ 52 ≤ n * 2 ^ k := by
    calc 2 ^ 52 = 2 ^ n.log2 * 2 ^ k := by rw [← Nat.pow_add, hk]
      _ ≤ n * 2 ^ k := Nat.mul_le_mul_right _ hlow
  refine ⟨k, by positivity, ?_, hm, hnormal, by omega⟩
  have htarget : Format.binary64.targetExponent (totalExponent n 0) = -k :=
    targetExponent_eq (by omega) (by omega)
  rw [UnpackedFloat.round, htarget, decreaseExponent, show (0 - -(k : Int)).toNat = k by omega, Nat.shiftLeft_eq]
  have := roundWithAccuracy_mul_two_pow s (m := n * 2 ^ k) (by positivity) hnormal hm
    (show (-1074 : Int) ≤ -k by omega) 0
  simpa using this

/-- An integer of 53 bits with zeros after them is a double. -/
theorem round_mul_two_pow (s : Sign) {m : Nat} (hpos : 0 < m) (hnormal : 2 ^ 52 ≤ m)
    (hm : m < 2 ^ 53) (j : Nat) :
    UnpackedFloat.round Format.binary64 s (m * 2 ^ j) 0 = .finite s m j hpos := by
  have htarget : Format.binary64.targetExponent (totalExponent (m * 2 ^ j) 0) = j := by
    refine targetExponent_eq ?_ (by omega)
    rw [log2_mul_two_pow hnormal hm]
    push_cast
    ring
  rw [UnpackedFloat.round, htarget, decreaseExponent, show (0 - (j : Int)).toNat = 0 by omega]
  have := roundWithAccuracy_mul_two_pow s hpos hnormal hm (show (-1074 : Int) ≤ j by omega) j
  simpa using this

/-! ### Integers that are doubles -/

/-- A magnitude that needs no more than 53 bits, apart from zeros at the end. -/
def Short (n : Nat) : Prop :=
  n < 2 ^ 53 ∨ ∃ m j, 2 ^ 52 ≤ m ∧ m < 2 ^ 53 ∧ j ≤ 971 ∧ n = m * 2 ^ j

/-- A quotient without a remainder is rounded to itself. -/
private theorem roundQuotient_mul (n : Nat) {d : Nat} (hd : 0 < d) :
    roundQuotient (n * d) d = n := by
  have hlt : compare (2 * (n * d % d)) d = .lt := by
    rw [Nat.mul_mod_left, Nat.mul_zero]
    exact Nat.compare_eq_lt.mpr hd
  simp only [roundQuotient, hlt]
  exact Nat.mul_div_cancel n hd

private theorem roundScaled_neg (n k : Nat) : roundScaled (n * 2 ^ k) (-k) = n := by
  cases k with
  | zero =>
    show n * 2 ^ 0 * 2 ^ 0 = n
    ring
  | succ k => exact roundQuotient_mul n (by positivity)

/-- The quotient of a short magnitude, rounded, is short. -/
private theorem roundQuotient_lt {m : Nat} (hm : m < 2 ^ 53) (k : Nat) :
    roundQuotient m (2 ^ (k + 1)) < 2 ^ 53 := by
  have hhalf : m / 2 ^ (k + 1) ≤ m / 2 :=
    Nat.div_le_div_left (by rw [pow_succ]; exact Nat.le_mul_of_pos_left 2 (by positivity)) (by omega)
  have hle : roundQuotient m (2 ^ (k + 1)) ≤ m / 2 ^ (k + 1) + 1 := by
    unfold roundQuotient
    dsimp only
    split <;> omega
  omega

/-- **Rounding a magnitude.** What a double is rounded to is short. -/
theorem short_roundScaled {x : Float} {s : Sign} {m : Nat} {e : Int} {h : 0 < m}
    (hx : parts x = .finite s m e h) : Short (roundScaled m e) := by
  have hcanonical := canonical_parts x
  rw [hx] at hcanonical
  obtain ⟨hm, -, he, hform⟩ := hcanonical
  -- With an exponent that is not negative the double is an integer already. Else its
  -- magnitude is the quotient of a short one.
  cases e with
  | ofNat j =>
    rw [Int.ofNat_eq_natCast] at he hform
    have hnormal : 2 ^ 52 ≤ m := hform.resolve_right (by omega)
    exact .inr ⟨m, j, hnormal, hm, by omega, rfl⟩
  | negSucc j => exact .inl (roundQuotient_lt hm j)

/-- **Exact integers.** A double made of a short magnitude has it for a mantissa, with zeros put
    after it or taken off its end. -/
theorem exists_parts_nearest (s : Sign) {n : Nat} (hpos : 0 < n) (h : Short n) :
    ∃ m e hm, parts (nearest s n 0) = .finite s m e hm ∧
      ((∃ k : Nat, m = n * 2 ^ k ∧ e = -k) ∨ ∃ j : Nat, n = m * 2 ^ j ∧ e = j) := by
  -- An integer below `2 ^ 53` and one with zeros at its end are packed differently.
  rcases h with hsmall | ⟨m, j, hnormal, hm, hj, rfl⟩
  · obtain ⟨k, hk, hround, hm, hnormal, hle⟩ := round_small s hpos hsmall
    refine ⟨n * 2 ^ k, -k, hk, ?_, .inl ⟨k, rfl, rfl⟩⟩
    rw [nearest, hround]
    exact parts_ofModel_pack ⟨hm, by omega, by omega, .inl hnormal⟩
  · have hm' : 0 < m := Nat.lt_of_lt_of_le (by positivity) hnormal
    refine ⟨m, j, hm', ?_, .inr ⟨j, rfl, rfl⟩⟩
    rw [nearest, round_mul_two_pow s hm' hnormal hm]
    exact parts_ofModel_pack ⟨hm, by omega, by omega, .inl hnormal⟩

theorem parts_nearest_zero (s : Sign) : parts (nearest s 0 0) = .zero s :=
  parts_ofModel_pack (u := .zero s) trivial

/-- A double made of a short magnitude is that integer. -/
theorem toInteger_nearest (s : Sign) {n : Nat} (h : Short n) :
    toInteger (nearest s n 0) = max leastInteger (min greatestInteger (signed s n)) := by
  rcases Nat.eq_zero_or_pos n with rfl | hpos
  · rw [toInteger, parts_nearest_zero]
    cases s <;> rfl
  · obtain ⟨m, e, hm, hparts, hzeros⟩ := exists_parts_nearest s hpos h
    have hscaled : roundScaled m e = n := by
      rcases hzeros with ⟨k, rfl, rfl⟩ | ⟨j, rfl, rfl⟩
      · exact roundScaled_neg n k
      · rfl
    simp only [toInteger, hparts, hscaled]

/-- **Rounding twice.** A double that was rounded to an integral one is rounded to the same
    integer. -/
@[simp] theorem toInteger_roundEven (x : Float) : toInteger (roundEven x) = toInteger x := by
  unfold roundEven
  split
  · next s m e h hx =>
    rw [toInteger_nearest s (short_roundScaled hx)]
    simp only [toInteger, hx]
  · rfl

end CollisionMesh.Number
