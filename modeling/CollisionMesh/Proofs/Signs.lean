import CollisionMesh.Proofs.Binary64

namespace CollisionMesh.Number

open Float.Model (Format UnpackedFloat)
open Float.Model.UnpackedFloat

/-!
# Order and signs of doubles

What rounding does to a result depends on its size, not on its sign. So sums, products
and quotients have the signs that they have without rounding, and operands that only
differ in sign have results that only differ in sign.

* `level`, `le_iff`, `lt_iff` — the order of doubles by their parts;
* `Signed` — numbers of a sign, zero being of both; `signed_pack`, `signed_add`,
  `signed_mul_self` — rounded sums and squares of a sign;
* `Opposite` — numbers that differ in sign only; `opposite_pack`, `opposite_sub`,
  `opposite_div` — rounded differences the other way round, and rounded quotients;
* `mul_self_opposite`, `mul_opposite` — squares and products of opposites.
-/

/-! ### The order -/

/-- Where a number stands in the order: its sign, then the exponent, then the mantissa. -/
def level : UnpackedFloat → ℤ ×ₗ ℤ ×ₗ ℤ
  | .notANumber => toLex (0, toLex (0, 0))
  | .zero _ => toLex (0, toLex (0, 0))
  | .infinity .positive => toLex (2, toLex (0, 0))
  | .infinity .negative => toLex (-2, toLex (0, 0))
  | .finite .positive m e _ => toLex (1, toLex (e, m))
  | .finite .negative m e _ => toLex (-1, toLex (-e, -m))

private theorem then_eq_lt_iff (e₁ e₂ : ℤ) (m₁ m₂ : Nat) :
    (compare e₁ e₂).then (compare m₁ m₂) = .lt ↔ e₁ < e₂ ∨ e₁ = e₂ ∧ m₁ < m₂ := by
  rw [Ordering.then_eq_lt, Int.compare_eq_lt, Nat.compare_eq_lt, Int.compare_eq_eq]

private theorem then_eq_gt_iff (e₁ e₂ : ℤ) (m₁ m₂ : Nat) :
    (compare e₁ e₂).then (compare m₁ m₂) = .gt ↔ e₂ < e₁ ∨ e₁ = e₂ ∧ m₂ < m₁ := by
  rw [Ordering.then_eq_gt, Int.compare_eq_gt, Nat.compare_eq_gt, Int.compare_eq_eq]

theorem compare_eq_lt_iff (u v : UnpackedFloat) :
    u.compare v = some .lt ↔ u ≠ .notANumber ∧ v ≠ .notANumber ∧ level u < level v := by
  rcases u with s₁ | _ | s₁ | ⟨s₁, m₁, e₁, h₁⟩ <;> rcases v with s₂ | _ | s₂ | ⟨s₂, m₂, e₂, h₂⟩ <;>
    (try cases s₁) <;> (try cases s₂) <;>
    -- All pairs of signs and kinds. Negative numbers compare by exponent and mantissa the other
    -- way round, and so do their levels.
    simp [level, UnpackedFloat.compare, Prod.Lex.toLex_lt_toLex, then_eq_lt_iff, then_eq_gt_iff,
      Ordering.swap_eq_lt]
  rfl

theorem compare_isLE_iff (u v : UnpackedFloat) :
    (u.compare v).any (·.isLE) = true ↔
      u ≠ .notANumber ∧ v ≠ .notANumber ∧ level u ≤ level v := by
  rcases u with s₁ | _ | s₁ | ⟨s₁, m₁, e₁, h₁⟩ <;> rcases v with s₂ | _ | s₂ | ⟨s₂, m₂, e₂, h₂⟩ <;>
    (try cases s₁) <;> (try cases s₂) <;>
    simp [level, UnpackedFloat.compare, Prod.Lex.toLex_le_toLex, Ordering.isLE_iff_ne_gt,
      then_eq_gt_iff]
  case infinity.infinity.positive.negative => rfl
  case finite.finite.negative.negative =>
    rw [Ordering.isGE_iff_ne_lt, then_eq_lt_iff]
    omega
  case finite.finite.positive.positive => omega

theorem le_iff {x y : Float} :
    x ≤ y ↔ parts x ≠ .notANumber ∧ parts y ≠ .notANumber ∧ level (parts x) ≤ level (parts y) :=
  decide_eq_true_iff.trans (compare_isLE_iff _ _)

theorem lt_iff {x y : Float} :
    x < y ↔ parts x ≠ .notANumber ∧ parts y ≠ .notANumber ∧ level (parts x) < level (parts y) :=
  decide_eq_true_iff.trans (beq_iff_eq.trans (compare_eq_lt_iff _ _))

theorem not_lt_of_le_of_le {x y z : Float} (hxy : x ≤ y) (hyz : y ≤ z) : ¬ z < x := by
  rw [le_iff] at hxy hyz
  rw [lt_iff]
  exact fun h => absurd (hxy.2.2.trans hyz.2.2) (not_le_of_gt h.2.2)

/-! ### Packing and signs -/

/-- The bits of a finite number but the sign do not depend on the sign. -/
private theorem pack_finite_cases {m : Nat} {e : Int} (h : 0 < m) :
    (∀ s, UnpackedFloat.pack Format.binary64 (.finite s m e h) = packedInfinity Format.binary64 s) ∨
      ∃ (exponent : BitVec 11) (mantissa : BitVec 52), exponent ≠ -1#11 ∧
        ∀ s, UnpackedFloat.pack Format.binary64 (.finite s m e h)
          = packComponents Format.binary64 s exponent mantissa := by
  obtain ⟨biased, hbiased⟩ : ∃ b, (e + Format.binary64.exponentBias
      + Format.binary64.mantissaBitsWithoutImplicit).toNat = b := ⟨_, rfl⟩
  -- Too big an exponent packs as infinity, a mantissa of 53 bits without its first bit, and a
  -- shorter one as it is.
  by_cases hbig : 2 ^ 11 ≤ biased + 1
  · refine .inl fun s => ?_
    simp only [UnpackedFloat.pack, hbiased]
    exact if_pos hbig
  · by_cases hnormal : m.log2 + 1 = 53
    · refine .inr ⟨BitVec.ofNat 11 biased, BitVec.ofNat 52 m, ?_, fun s => ?_⟩
      · intro heq
        have := congrArg BitVec.toNat heq
        rw [BitVec.toNat_ofNat, Nat.mod_eq_of_lt (by omega)] at this
        have : biased = 2047 := this
        omega
      · simp only [UnpackedFloat.pack, hbiased]
        rw [if_neg hbig, if_pos (show m.log2 + 1 = Format.binary64.mantissaBits from hnormal)]
    -- The exponent is the special one for small numbers.
    · refine .inr ⟨0#11, BitVec.ofNat 52 m, by decide, fun s => ?_⟩
      simp only [UnpackedFloat.pack, hbiased]
      rw [if_neg hbig, if_neg (show ¬ m.log2 + 1 = Format.binary64.mantissaBits from hnormal)]

/-- Numbers of a sign; zero is of both signs. -/
def Signed (s : Sign) : UnpackedFloat → Prop
  | .notANumber => False
  | .zero _ => True
  | .infinity s' => s' = s
  | .finite s' _ _ _ => s' = s

/-- Numbers that differ in sign only; zeros are opposite to each other. -/
inductive Opposite : UnpackedFloat → UnpackedFloat → Prop where
  | notANumber : Opposite .notANumber .notANumber
  | zero (s s' : Sign) : Opposite (.zero s) (.zero s')
  | infinity (s : Sign) : Opposite (.infinity s) (.infinity (-s))
  | finite (s : Sign) (m : Nat) (e : Int) (h : 0 < m) : Opposite (.finite s m e h) (.finite (-s) m e h)

private theorem signed_unpack_packComponents (s : Sign) {exponent : BitVec 11}
    (he : exponent ≠ -1#11) (mantissa : BitVec 52) :
    Signed s (UnpackedFloat.unpack Format.binary64
      (packComponents Format.binary64 s exponent mantissa)) := by
  unfold UnpackedFloat.unpack
  simp only [unpackMantissa_packComponents, unpackExponent_packComponents,
    unpackSign_packComponents, Sign.ofBitVec_toBitVec]
  rw [if_neg he]
  split
  · split <;> trivial
  · rfl

private theorem opposite_unpack_packComponents (s : Sign) {exponent : BitVec 11}
    (he : exponent ≠ -1#11) (mantissa : BitVec 52) :
    Opposite
      (UnpackedFloat.unpack Format.binary64 (packComponents Format.binary64 s exponent mantissa))
      (UnpackedFloat.unpack Format.binary64
        (packComponents Format.binary64 (-s) exponent mantissa)) := by
  unfold UnpackedFloat.unpack
  simp only [unpackMantissa_packComponents, unpackExponent_packComponents,
    unpackSign_packComponents, Sign.ofBitVec_toBitVec]
  rw [if_neg he, if_neg he]
  split
  · split
    · exact .zero _ _
    · exact .finite _ _ _ _
  · exact .finite _ _ _ _

/-- **Packing keeps signs.** A double made of parts of a sign is of that sign. -/
theorem signed_pack {s : Sign} {u : UnpackedFloat} (h : Signed s u) :
    Signed s (parts (.ofModel (.pack u))) := by
  cases u with
  | notANumber => exact h.elim
  | zero s' => rw [parts_ofModel_pack (u := .zero s') trivial]; trivial
  | infinity s' => rw [parts_ofModel_pack (u := .infinity s') trivial]; exact h
  | finite s' m e hpos =>
    obtain rfl : s' = s := h
    show Signed s' (UnpackedFloat.unpack Format.binary64
      (UnpackedFloat.pack Format.binary64 (.finite s' m e hpos)))
    rcases pack_finite_cases hpos with hpack | ⟨exponent, mantissa, he, hpack⟩
    · rw [hpack, unpack_packedInfinity]
      rfl
    · rw [hpack]
      exact signed_unpack_packComponents s' he mantissa

/-- **Packing keeps opposites.** Doubles made of opposites are opposites. -/
theorem opposite_pack {u v : UnpackedFloat} (h : Opposite u v) :
    Opposite (parts (.ofModel (.pack u))) (parts (.ofModel (.pack v))) := by
  cases h with
  | notANumber => rw [parts_ofModel_pack (u := .notANumber) trivial]; exact .notANumber
  | zero s s' =>
    rw [parts_ofModel_pack (u := .zero s) trivial, parts_ofModel_pack (u := .zero s') trivial]
    exact .zero s s'
  | infinity s =>
    rw [parts_ofModel_pack (u := .infinity s) trivial,
      parts_ofModel_pack (u := .infinity (-s)) trivial]
    exact .infinity s
  | finite s m e hpos =>
    show Opposite
      (UnpackedFloat.unpack Format.binary64 (UnpackedFloat.pack Format.binary64 (.finite s m e hpos)))
      (UnpackedFloat.unpack Format.binary64
        (UnpackedFloat.pack Format.binary64 (.finite (-s) m e hpos)))
    rcases pack_finite_cases hpos with hpack | ⟨exponent, mantissa, he, hpack⟩
    · rw [hpack, hpack, unpack_packedInfinity, unpack_packedInfinity]
      exact .infinity s
    · rw [hpack, hpack]
      exact opposite_unpack_packComponents s he mantissa

/-! ### Rounding and signs -/

private theorem neg_neg_sign (s : Sign) : - -s = s := by cases s <;> rfl

private theorem neg_div_sign (s s' : Sign) : -s / s' = -(s / s') := by cases s <;> cases s' <;> rfl

private theorem mul_self_sign (s : Sign) : s * s = .positive := by cases s <;> rfl

theorem signed_roundWithAccuracy (s : Sign) (m : Nat) (e : Int) (accuracy : Accuracy) :
    Signed s (roundWithAccuracy Format.binary64 s m e accuracy) := by
  unfold roundWithAccuracy
  dsimp only
  split
  · trivial
  · rfl

theorem opposite_roundWithAccuracy (s : Sign) (m : Nat) (e : Int) (accuracy : Accuracy) :
    Opposite (roundWithAccuracy Format.binary64 s m e accuracy)
      (roundWithAccuracy Format.binary64 (-s) m e accuracy) := by
  unfold roundWithAccuracy
  dsimp only
  split
  · exact .zero _ _
  · exact .finite _ _ _ _

theorem signed_round (s : Sign) (m : Nat) (e : Int) :
    Signed s (UnpackedFloat.round Format.binary64 s m e) :=
  signed_roundWithAccuracy s _ _ _

theorem opposite_round (s : Sign) (m : Nat) (e : Int) :
    Opposite (UnpackedFloat.round Format.binary64 s m e)
      (UnpackedFloat.round Format.binary64 (-s) m e) :=
  opposite_roundWithAccuracy s _ _ _

theorem signed_normalize {s : Sign} {k : Int} (h : 0 ≤ s.apply k) (e : Int) :
    Signed s (UnpackedFloat.normalize Format.binary64 k e .positive) := by
  unfold UnpackedFloat.normalize
  split
  · next hlt =>
    have hlt := Int.compare_eq_lt.mp hlt
    cases s with
    | positive => exact absurd h (by simpa [Sign.apply] using hlt)
    | negative => exact signed_round _ _ _
  · trivial
  · next hgt =>
    have hgt := Int.compare_eq_gt.mp hgt
    cases s with
    | positive => exact signed_round _ _ _
    | negative => exact absurd h (by simpa [Sign.apply] using hgt)

theorem opposite_normalize (k e : Int) :
    Opposite (UnpackedFloat.normalize Format.binary64 k e .positive)
      (UnpackedFloat.normalize Format.binary64 (-k) e .positive) := by
  rcases lt_trichotomy k 0 with h | rfl | h
  · have h' : compare (-k) 0 = .gt := Int.compare_eq_gt.mpr (by omega)
    simp only [UnpackedFloat.normalize, Int.compare_eq_lt.mpr h, h']
    exact opposite_round .negative _ _
  · exact .zero _ _
  · have h' : compare (-k) 0 = .lt := Int.compare_eq_lt.mpr (by omega)
    simp only [UnpackedFloat.normalize, Int.compare_eq_gt.mpr h, h', neg_neg]
    exact opposite_round .positive _ _

/-! ### Sums, products, differences and quotients -/

private theorem apply_add_nonneg (s : Sign) (m₁ m₂ : Nat) :
    0 ≤ s.apply (s.apply m₁ + s.apply m₂) := by
  cases s <;> simp only [Sign.apply] <;> omega

/-- **Sums.** The rounded sum of numbers of a sign is of that sign. -/
theorem signed_add {s : Sign} {u v : UnpackedFloat} (hu : Signed s u) (hv : Signed s v) :
    Signed s (UnpackedFloat.add Format.binary64 u v) := by
  rcases u with s₁ | _ | s₁ | ⟨s₁, m₁, e₁, h₁⟩
  · obtain rfl : s₁ = s := hu
    rcases v with s₂ | _ | s₂ | ⟨s₂, m₂, e₂, h₂⟩
    · obtain rfl : s₂ = s₁ := hv
      simp [UnpackedFloat.add, Signed]
    · exact hv.elim
    · rfl
    · rfl
  · exact hu.elim
  · rcases v with s₂ | _ | s₂ | ⟨s₂, m₂, e₂, h₂⟩
    · exact hv
    · exact hv.elim
    -- Two infinities of one sign.
    · simp only [UnpackedFloat.add]
      split <;> trivial
    · exact hv
  · obtain rfl : s₁ = s := hu
    rcases v with s₂ | _ | s₂ | ⟨s₂, m₂, e₂, h₂⟩
    · exact hv
    · exact hv.elim
    · rfl
    -- The exact sum of two magnitudes with one sign is rounded in that sign.
    · obtain rfl : s₂ = s₁ := hv
      exact signed_normalize (apply_add_nonneg s₂ _ _) _

/-- **Squares.** The rounded square of a number is not negative. -/
theorem signed_mul_self {u : UnpackedFloat} (hu : u ≠ .notANumber) :
    Signed .positive (UnpackedFloat.mul Format.binary64 u u) := by
  rcases u with s | _ | s | ⟨s, m, e, h⟩
  · exact mul_self_sign s
  · exact absurd rfl hu
  · trivial
  · have := signed_roundWithAccuracy (s * s) (m * m) (e + e) .exact
    simpa only [UnpackedFloat.mul, mul_self_sign] using this

/-- **Squares of opposites.** They are the same. -/
theorem mul_self_opposite {u v : UnpackedFloat} (h : Opposite u v) :
    UnpackedFloat.mul Format.binary64 u u = UnpackedFloat.mul Format.binary64 v v := by
  cases h with
  | notANumber => rfl
  | zero s s' => simp only [UnpackedFloat.mul, mul_self_sign]
  | infinity s => simp only [UnpackedFloat.mul, mul_self_sign]
  | finite s m e h => simp only [UnpackedFloat.mul, mul_self_sign]

/-- **Products of opposites.** They are not positive, unless one cannot be said. -/
theorem mul_opposite {u v : UnpackedFloat} (h : Opposite u v) :
    UnpackedFloat.mul Format.binary64 u v = .notANumber ∨
      Signed .negative (UnpackedFloat.mul Format.binary64 u v) := by
  have hsign : ∀ s : Sign, s * -s = .negative := fun s => by cases s <;> rfl
  cases h with
  | notANumber => exact .inl rfl
  | zero s s' => exact .inr trivial
  | infinity s => exact .inr (hsign s)
  | finite s m e h =>
    have := signed_roundWithAccuracy (s * -s) (m * m) (e + e) .exact
    rw [hsign] at this
    refine .inr ?_
    simpa only [UnpackedFloat.mul, hsign] using this

private theorem sub_apply (s₁ s₂ : Sign) (m₁ m₂ : Int) :
    s₂.apply m₂ - s₁.apply m₁ = -(s₁.apply m₁ - s₂.apply m₂) := by
  omega

/-- **Differences.** The other way round they are opposite. -/
theorem opposite_sub (u v : UnpackedFloat) :
    Opposite (UnpackedFloat.sub Format.binary64 u v) (UnpackedFloat.sub Format.binary64 v u) := by
  rcases u with s₁ | _ | s₁ | ⟨s₁, m₁, e₁, h₁⟩ <;> rcases v with s₂ | _ | s₂ | ⟨s₂, m₂, e₂, h₂⟩ <;>
    try exact .notANumber
  case infinity.infinity =>
    cases s₁ <;> cases s₂
    · exact .notANumber
    · exact .infinity _
    · exact .infinity _
    · exact .notANumber
  case zero.zero => cases s₁ <;> cases s₂ <;> exact .zero _ _
  case finite.finite =>
    -- Both differences are taken at the smaller exponent, where they are exact opposites.
    simp only [UnpackedFloat.sub]
    rw [min_comm e₂ e₁, sub_apply s₁ s₂]
    exact opposite_normalize _ _
  -- What is left is the larger operand itself, with its sign or the other one.
  all_goals simp only [UnpackedFloat.sub]
  case infinity.zero => exact .infinity s₁
  case infinity.finite => exact .infinity s₁
  case zero.infinity =>
    have := Opposite.infinity (-s₂)
    rwa [neg_neg_sign] at this
  case finite.infinity =>
    have := Opposite.infinity (-s₂)
    rwa [neg_neg_sign] at this
  case zero.finite =>
    have := Opposite.finite (-s₂) m₂ e₂ h₂
    rwa [neg_neg_sign] at this
  case finite.zero => exact .finite s₁ m₁ e₁ h₁

/-- **Quotients.** Opposites divided by the same number are opposites. -/
theorem opposite_div {u v : UnpackedFloat} (h : Opposite u v) (w : UnpackedFloat) :
    Opposite (UnpackedFloat.div Format.binary64 u w) (UnpackedFloat.div Format.binary64 v w) := by
  cases h with
  | notANumber => exact .notANumber
  | zero s s' =>
    rcases w with s₂ | _ | s₂ | ⟨s₂, m₂, e₂, h₂⟩
    · exact .zero _ _
    · exact .notANumber
    · exact .notANumber
    · exact .zero _ _
  | infinity s =>
    rcases w with s₂ | _ | s₂ | ⟨s₂, m₂, e₂, h₂⟩ <;> simp only [UnpackedFloat.div, neg_div_sign]
    · exact .notANumber
    · exact .notANumber
    · exact .infinity _
    · exact .infinity _
  | finite s m e h =>
    rcases w with s₂ | _ | s₂ | ⟨s₂, m₂, e₂, h₂⟩ <;> simp only [UnpackedFloat.div, neg_div_sign]
    · exact .zero _ _
    · exact .notANumber
    · exact .infinity _
    · exact opposite_roundWithAccuracy _ _ _ _

end CollisionMesh.Number
