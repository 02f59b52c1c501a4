import CollisionMesh.Proofs.Numerals
import CollisionMesh.Proofs.Signs

namespace CollisionMesh.Number

open Float.Model (UnpackedFloat)
open Float.Model.UnpackedFloat (Sign)

/-!
# The values of doubles

A finite double stands for a rational number. Doubles are in the order of their values, and a
double is rounded to an integer that is nearest to its value, to the even one of two.

* `value`, `integral?_eq_some_iff` — the value of a double, and when it is an integer;
* `le_iff_value_le`, `beq_iff_value_eq` — the order and the equality of finite doubles;
* `value_nearest` — the value of an integer that is a double;
* `NearestEven`, `nearestEven_roundScaled` — what rounding to an integer means; it does not pass
  an integer (`NearestEven.le_of_le`).
-/

/-- The number that some parts stand for, zero if they stand for none. -/
def value : UnpackedFloat → ℚ
  | .finite s m e _ => signed s m * 2 ^ e
  | _ => 0

/-! ### Order -/

/-- A magnitude with the greater exponent is the greater one, since it has all its bits in use. -/
private theorem mul_two_pow_lt {m₁ m₂ : Nat} {e₁ e₂ : Int} (h₁ : m₁ < 2 ^ 53) (h₂ : 2 ^ 52 ≤ m₂)
    (he : e₁ < e₂) : (m₁ : ℚ) * 2 ^ e₁ < m₂ * 2 ^ e₂ := by
  have hm₁ : (m₁ : ℚ) < 2 ^ 53 := by exact_mod_cast h₁
  have hm₂ : (2 : ℚ) ^ 52 ≤ m₂ := by exact_mod_cast h₂
  have he' : (2 : ℚ) ^ (e₁ + 1) ≤ 2 ^ e₂ := zpow_le_zpow_right₀ (by norm_num) (by omega)
  calc (m₁ : ℚ) * 2 ^ e₁ < 2 ^ 53 * 2 ^ e₁ := by gcongr
    _ = 2 ^ 52 * 2 ^ (e₁ + 1) := by rw [zpow_add_one₀ two_ne_zero]; ring
    _ ≤ m₂ * 2 ^ e₂ := by gcongr

/-- Magnitudes in the form of doubles are in the order of their exponents and mantissas. -/
private theorem mul_two_pow_lt_iff {m₁ m₂ : Nat} {e₁ e₂ : Int} {s₁ s₂ : Sign} {h₁ : 0 < m₁}
    {h₂ : 0 < m₂} (hc₁ : Canonical (.finite s₁ m₁ e₁ h₁)) (hc₂ : Canonical (.finite s₂ m₂ e₂ h₂)) :
    (m₁ : ℚ) * 2 ^ e₁ < m₂ * 2 ^ e₂ ↔ e₁ < e₂ ∨ e₁ = e₂ ∧ m₁ < m₂ := by
  obtain ⟨hm₁, he₁, -, hform₁⟩ := hc₁
  obtain ⟨hm₂, he₂, -, hform₂⟩ := hc₂
  rcases lt_trichotomy e₁ e₂ with he | rfl | he
  · exact iff_of_true (mul_two_pow_lt hm₁ (hform₂.resolve_right (by omega)) he) (.inl he)
  · rw [mul_lt_mul_iff_left₀ (by positivity)]
    simp
  · refine iff_of_false (not_lt_of_gt ?_) (by omega)
    exact mul_two_pow_lt hm₂ (hform₁.resolve_right (by omega)) he

/-- Parts of finite doubles stand in the order of their values. -/
private theorem level_lt_iff {x y : Float} (hx : isFinite x = true) (hy : isFinite y = true) :
    level (parts x) < level (parts y) ↔ value (parts x) < value (parts y) := by
  have hcx := canonical_parts x
  have hcy := canonical_parts y
  have hpos : ∀ {m : Nat} {e : Int}, 0 < m → 0 < (m : ℚ) * 2 ^ e := by
    intro m e hm
    positivity
  unfold isFinite at hx hy
  cases hpx : parts x with
  | notANumber => simp [hpx] at hx
  | infinity s => simp [hpx] at hx
  | zero s =>
    cases hpy : parts y with
    | notANumber => simp [hpy] at hy
    | infinity s => simp [hpy] at hy
    | zero s' => simp [level, value]
    | finite s' m' e' h' =>
      have := hpos (e := e') h'
      cases s' <;> simp [level, value, signed, Prod.Lex.toLex_lt_toLex, h', this, this.le]
  | finite s m e h =>
    cases hpy : parts y with
    | notANumber => simp [hpy] at hy
    | infinity s => simp [hpy] at hy
    | zero s' =>
      have := hpos (e := e) h
      cases s <;> simp [level, value, signed, Prod.Lex.toLex_lt_toLex, h, this, this.le]
    | finite s' m' e' h' =>
      rw [hpx] at hcx
      rw [hpy] at hcy
      have hlt := mul_two_pow_lt_iff hcx hcy
      have hgt := mul_two_pow_lt_iff hcy hcx
      have := hpos (e := e) h
      have := hpos (e := e') h'
      cases s <;> cases s' <;> simp [level, value, signed, Prod.Lex.toLex_lt_toLex, hlt, hgt]
      all_goals first | linarith | omega

/-- A finite double is a number. -/
theorem ne_notANumber {x : Float} (h : isFinite x = true) : parts x ≠ .notANumber := by
  intro heq
  simp [isFinite, heq] at h

/-- **Order.** Finite doubles are in the order of their values. -/
theorem lt_iff_value_lt {x y : Float} (hx : isFinite x = true) (hy : isFinite y = true) :
    x < y ↔ value (parts x) < value (parts y) := by
  rw [lt_iff, level_lt_iff hx hy]
  simp [ne_notANumber hx, ne_notANumber hy]

theorem le_iff_value_le {x y : Float} (hx : isFinite x = true) (hy : isFinite y = true) :
    x ≤ y ↔ value (parts x) ≤ value (parts y) := by
  rw [le_iff, ← not_lt, ← not_lt, level_lt_iff hy hx]
  simp [ne_notANumber hx, ne_notANumber hy]

/-- Doubles are equal iff one is at most the other and not less. -/
theorem beq_iff {x y : Float} : (x == y) = true ↔ x ≤ y ∧ ¬ x < y := by
  have hbeq : (x == y) = ((parts x).compare (parts y) == some .eq) := rfl
  have hle : x ≤ y ↔ ((parts x).compare (parts y)).any (·.isLE) = true := decide_eq_true_iff
  have hlt : x < y ↔ ((parts x).compare (parts y) == some .lt) = true := decide_eq_true_iff
  rw [hbeq, hle, hlt]
  rcases (parts x).compare (parts y) with _ | o
  · simp
  · cases o <;> simp

/-- **Equality.** Finite doubles are equal iff their values are, whatever the sign of a zero. -/
theorem beq_iff_value_eq {x y : Float} (hx : isFinite x = true) (hy : isFinite y = true) :
    (x == y) = true ↔ value (parts x) = value (parts y) := by
  rw [beq_iff, le_iff_value_le hx hy, lt_iff_value_lt hx hy, not_lt, ← le_antisymm_iff]

/-- Finite doubles stand between the infinite ones. -/
theorem level_mem {x : Float} (h : isFinite x = true) :
    level (.infinity .negative) < level (parts x) ∧
      level (parts x) < level (.infinity .positive) := by
  unfold isFinite at h
  split at h
  · next s hx => simp [hx, level, Prod.Lex.toLex_lt_toLex]
  · next s m e hm hx => cases s <;> simp [hx, level, Prod.Lex.toLex_lt_toLex]
  · exact absurd h (by simp)

/-- A double between finite ones is finite. -/
theorem isFinite_of_le_of_le {x y z : Float} (hx : isFinite x = true) (hz : isFinite z = true)
    (hxy : x ≤ y) (hyz : y ≤ z) : isFinite y = true := by
  obtain ⟨-, hnan, hlow⟩ := le_iff.mp hxy
  obtain ⟨-, -, hhigh⟩ := le_iff.mp hyz
  unfold isFinite
  cases hy : parts y with
  | zero s => rfl
  | finite s m e h => rfl
  | notANumber => exact absurd hy hnan
  | infinity s =>
    rw [hy] at hlow hhigh
    cases s with
    | positive => exact absurd (hhigh.trans_lt (level_mem hz).2) (lt_irrefl _)
    | negative => exact absurd ((level_mem hx).1.trans_le hlow) (lt_irrefl _)

/-! ### Integers -/

/-- The value of a double made of a short magnitude. -/
theorem value_nearest (s : Sign) {n : Nat} (h : Short n) :
    value (parts (nearest s n 0)) = signed s n := by
  rcases Nat.eq_zero_or_pos n with rfl | hpos
  · rw [parts_nearest_zero]
    cases s <;> simp [value, signed]
  -- The zeros of the mantissa are taken back by the exponent.
  obtain ⟨m, e, hm, hparts, hzeros⟩ := exists_parts_nearest s hpos h
  rw [hparts, value]
  rcases hzeros with ⟨k, rfl, rfl⟩ | ⟨j, rfl, rfl⟩ <;> cases s <;> simp [signed]

theorem value_ofNat_exponent (s : Sign) (m e : Nat) (h : 0 < m) :
    value (.finite s m (.ofNat e) h) = signed s (m * 2 ^ e) := by
  cases s <;> simp [value, signed]

theorem value_negSucc_exponent (s : Sign) (m e : Nat) (h : 0 < m) :
    value (.finite s m (.negSucc e) h) = signed s m / 2 ^ (e + 1) := by
  rw [value, zpow_negSucc, div_eq_mul_inv]

/-- A signed magnitude is a multiple iff the magnitude is. -/
private theorem signed_eq_mul_iff (s : Sign) (m : Nat) {d : Nat} (hd : 0 < d) (n : Int) :
    signed s m = n * d ↔ m % d = 0 ∧ signed s (m / d) = n := by
  have hmul : ∀ k : Nat, signed s (d * k) = signed s k * d := by
    intro k
    cases s <;> simp [signed, mul_comm]
  constructor
  · intro h
    have hdvd : (d : Int) ∣ signed s m := ⟨n, by rw [h, mul_comm]⟩
    have hdvd : (d : Int) ∣ m := by cases s <;> simpa [signed] using hdvd
    obtain ⟨k, rfl⟩ := Int.natCast_dvd_natCast.mp hdvd
    rw [hmul] at h
    refine ⟨Nat.mul_mod_right d k, ?_⟩
    rw [Nat.mul_div_cancel_left k hd]
    exact mul_right_cancel₀ (by exact_mod_cast hd.ne') h
  · rintro ⟨hmod, rfl⟩
    obtain ⟨k, rfl⟩ := Nat.dvd_of_mod_eq_zero hmod
    rw [Nat.mul_div_cancel_left k hd, hmul]

/-- **Integral doubles.** A double is an integer iff it is finite and its value is that integer. -/
theorem integral?_eq_some_iff {x : Float} {n : Int} :
    integral? x = some n ↔ isFinite x = true ∧ value (parts x) = n := by
  unfold integral? isFinite
  cases hx : parts x with
  | notANumber => simp
  | infinity s => simp
  | zero s =>
    simp [value, eq_comm]
  | finite s m e h =>
    cases e with
    | ofNat e =>
      rw [value_ofNat_exponent]
      simp
    | negSucc e =>
      rw [value_negSucc_exponent]
      have hmul := signed_eq_mul_iff s m (d := 2 ^ (e + 1)) (by positivity) n
      have hcast : (signed s m : ℚ) = n * 2 ^ (e + 1) ↔ signed s m = n * (2 ^ (e + 1) : Nat) := by
        rw [← Int.cast_inj (α := ℚ)]
        push_cast
        rfl
      rw [div_eq_iff (by positivity), hcast, hmul]
      simp

/-! ### Rounding -/

/-- An integer nearest to a number, the even one if two are. -/
structure NearestEven (q : ℚ) (n : Int) : Prop where
  near : |q - n| ≤ 1 / 2
  even : |q - n| = 1 / 2 → Even n

theorem nearestEven_intCast (n : Int) : NearestEven n n :=
  ⟨by simp, by simp⟩

theorem NearestEven.neg {q : ℚ} {n : Int} (h : NearestEven q n) : NearestEven (-q) (-n) := by
  have habs : |-q - ((-n : Int) : ℚ)| = |q - n| := by
    rw [← abs_neg]
    push_cast
    ring_nf
  refine ⟨habs ▸ h.near, fun hhalf => ?_⟩
  exact (h.even (habs ▸ hhalf)).neg

/-- Rounding does not pass an integer. -/
theorem NearestEven.le_of_le {q : ℚ} {n k : Int} (h : NearestEven q n) (hk : q ≤ k) : n ≤ k := by
  have hnear := (abs_le.mp h.near).1
  by_contra hlt
  have hlt : (k : ℚ) + 1 ≤ n := by exact_mod_cast not_le.mp hlt
  linarith

theorem NearestEven.ge_of_ge {q : ℚ} {n k : Int} (h : NearestEven q n) (hk : k ≤ q) : k ≤ n := by
  have hneg := h.neg.le_of_le (k := -k) (by push_cast; linarith)
  omega

/-- The same for a quotient, in integers. -/
private theorem nearestEven_div_iff (n : Nat) {d : Nat} (hd : 0 < d) (k : Int) :
    NearestEven ((n : ℚ) / d) k ↔
      |2 * (n : Int) - 2 * (d * k)| ≤ d ∧ (|2 * (n : Int) - 2 * (d * k)| = d → Even k) := by
  have hd' : (0 : ℚ) < d := by exact_mod_cast hd
  have habs : |(n : ℚ) / d - k| = ((|2 * (n : Int) - 2 * (d * k)| : Int) : ℚ) / (2 * d) := by
    have hdiff : (n : ℚ) / d - k = (2 * n - 2 * (d * k)) / (2 * d) := by field_simp
    rw [hdiff, abs_div, abs_of_pos (by positivity : (0 : ℚ) < 2 * d)]
    push_cast
    rfl
  have hle : |(n : ℚ) / d - k| ≤ 1 / 2 ↔ |2 * (n : Int) - 2 * (d * k)| ≤ d := by
    rw [habs, div_le_iff₀ (by positivity), one_div, inv_mul_cancel_left₀ two_ne_zero]
    exact_mod_cast Iff.rfl
  have heq : |(n : ℚ) / d - k| = 1 / 2 ↔ |2 * (n : Int) - 2 * (d * k)| = d := by
    rw [habs, div_eq_iff (by positivity), one_div, inv_mul_cancel_left₀ two_ne_zero]
    exact_mod_cast Iff.rfl
  rw [← hle, ← heq]
  exact ⟨fun h => ⟨h.near, h.even⟩, fun h => ⟨h.1, h.2⟩⟩

/-- A quotient is rounded to the nearest integer. -/
theorem nearestEven_roundQuotient (n : Nat) {d : Nat} (hd : 0 < d) :
    NearestEven ((n : ℚ) / d) (roundQuotient n d) := by
  rw [nearestEven_div_iff n hd]
  -- The whole part times the divisor, and what is left over.
  have hn : (n : Int) = d * (n / d : Nat) + (n % d : Nat) := by
    exact_mod_cast (Nat.div_add_mod n d).symm
  have hnext : (d : Int) * ((n / d + 1 : Nat) : Int) = d * (n / d : Nat) + d := by
    push_cast
    ring
  -- What is left over is less than half the divisor, half of it, or more.
  rcases lt_trichotomy (2 * (n % d)) d with h | h | h
  · have hround : roundQuotient n d = n / d := by simp only [roundQuotient, Nat.compare_eq_lt.mpr h]
    rw [hround, abs_le, abs_eq (by omega)]
    exact ⟨by omega, by omega⟩
  · rcases Nat.mod_two_eq_zero_or_one (n / d) with heven | hodd
    · have hround : roundQuotient n d = n / d := by
        simp only [roundQuotient, Nat.compare_eq_eq.mpr h, heven, Nat.add_zero]
      rw [hround, abs_le]
      exact ⟨by omega, fun _ => by exact_mod_cast Nat.even_iff.mpr heven⟩
    · have hround : roundQuotient n d = n / d + 1 := by
        simp only [roundQuotient, Nat.compare_eq_eq.mpr h, hodd]
      rw [hround, hnext, abs_le]
      exact ⟨by omega, fun _ => by exact_mod_cast (Nat.odd_iff.mpr hodd).add_one⟩
  · have hround : roundQuotient n d = n / d + 1 := by
      simp only [roundQuotient, Nat.compare_eq_gt.mpr h]
    have hless := Nat.mod_lt n hd
    rw [hround, hnext, abs_le, abs_eq (by omega)]
    exact ⟨by omega, by omega⟩

/-- **Rounding.** A finite double is rounded to the nearest integer. -/
theorem nearestEven_roundScaled {s : Sign} {m : Nat} {e : Int} (h : 0 < m) :
    NearestEven (value (.finite s m e h)) (signed s (roundScaled m e)) := by
  cases e with
  | ofNat e =>
    rw [value_ofNat_exponent]
    exact nearestEven_intCast _
  | negSucc e =>
    have hround := nearestEven_roundQuotient m (d := 2 ^ (e + 1)) (by positivity)
    rw [value_negSucc_exponent]
    push_cast at hround
    cases s with
    | positive => exact hround
    | negative =>
      have hneg := hround.neg
      rw [← neg_div] at hneg
      rw [signed, signed]
      push_cast
      exact hneg

end CollisionMesh.Number
