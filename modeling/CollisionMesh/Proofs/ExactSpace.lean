import CollisionMesh.Mesh.Pass
import CollisionMesh.Proofs.Values
import CollisionMesh.Proofs.Weld
import Mathlib.Analysis.Real.Pi.Bounds
import Mathlib.Analysis.SpecialFunctions.Trigonometric.Inverse

namespace CollisionMesh

/-!
# Space without rounding

Over the real numbers directions and angles are what they should be: a vector along a direction has
that direction, a direction is at no angle to itself, and directions at right angles are a quarter
turn apart.

* `Scalar.real` — the reals as scalars;
* `Vec.IsDirection`, `Vec.unit?_along` — directions, and vectors along them;
* `angleBetween_self`, `angleBetween_of_dot_eq_zero` — no turn and a quarter turn;
* `Mesh.isStraight_of_along`, `Mesh.not_isStraight_of_along` — ways that go straight on or bend;
* `Mesh.close` — every place is near itself;
* `exactly`, `Tolerances.exactly` — doubles and tolerances taken as real numbers;
  `fine_standard` — the standard ones are fine enough for a lattice.
-/

/-- Real numbers as scalars. -/
noncomputable instance Scalar.real : Scalar ℝ where
  decLt := Classical.decRel _
  decLe := Classical.decRel _
  sqrt := Real.sqrt
  arccos := Real.arccos

namespace Vec

theorem dot_real (u v : Vec ℝ) : u.dot v = u.x * v.x + u.y * v.y + u.z * v.z := rfl

theorem cross_real (u v : Vec ℝ) : u.cross v =
    ⟨u.y * v.z - u.z * v.y, u.z * v.x - u.x * v.z, u.x * v.y - u.y * v.x⟩ := rfl

/-- A vector of length one. -/
def IsDirection (d : Vec ℝ) : Prop :=
  d.x * d.x + d.y * d.y + d.z * d.z = 1

/-- The vector of a length along a direction. -/
def along (t : ℝ) (d : Vec ℝ) : Vec ℝ :=
  ⟨t * d.x, t * d.y, t * d.z⟩

/-- The opposite of a direction. -/
def reverse (d : Vec ℝ) : Vec ℝ :=
  ⟨-d.x, -d.y, -d.z⟩

theorem IsDirection.reverse {d : Vec ℝ} (hd : d.IsDirection) : d.reverse.IsDirection := by
  show -d.x * -d.x + -d.y * -d.y + -d.z * -d.z = 1
  rw [neg_mul_neg, neg_mul_neg, neg_mul_neg]
  exact hd

/-- The way back has the opposite direction. -/
theorem sub_eq_along_reverse {p q : Point ℝ} {t : ℝ} {d : Vec ℝ} (h : q - p = along t d) :
    p - q = along t d.reverse := by
  obtain ⟨hx, hy, hz⟩ : q.x - p.x = t * d.x ∧ q.y - p.y = t * d.y ∧ q.z - p.z = t * d.z :=
    Vec.mk.inj h
  show (⟨p.x - q.x, p.y - q.y, p.z - q.z⟩ : Vec ℝ) = ⟨t * -d.x, t * -d.y, t * -d.z⟩
  congr 1 <;> linarith

/-- A vector along a direction has that length. -/
theorem norm_along {d : Vec ℝ} (hd : d.IsDirection) {t : ℝ} (ht : 0 ≤ t) : (along t d).norm = t := by
  have hsq : (along t d).dot (along t d) = t ^ 2 := by
    rw [dot_real]
    show t * d.x * (t * d.x) + t * d.y * (t * d.y) + t * d.z * (t * d.z) = t ^ 2
    calc _ = t ^ 2 * (d.x * d.x + d.y * d.y + d.z * d.z) := by ring
      _ = t ^ 2 := by rw [hd, mul_one]
  show Real.sqrt ((along t d).dot (along t d)) = t
  rw [hsq, Real.sqrt_sq ht]

theorem unit_along {d : Vec ℝ} (hd : d.IsDirection) {t : ℝ} (ht : 0 < t) : (along t d).unit = d := by
  have hcancel : ∀ a : ℝ, t * a / t = a := fun a => mul_div_cancel_left₀ a ht.ne'
  rw [unit, norm_along hd ht.le]
  show (⟨t * d.x / t, t * d.y / t, t * d.z / t⟩ : Vec ℝ) = d
  rw [hcancel, hcancel, hcancel]

theorem unit_eq_self {d : Vec ℝ} (hd : d.IsDirection) : d.unit = d := by
  have hone : along 1 d = d := by
    rw [along, one_mul, one_mul, one_mul]
  rw [← hone, unit_along hd zero_lt_one, hone]

theorem shortest_lt_one : (shortest : ℝ) < 1 := by
  show (1e-12 : ℝ) < 1
  norm_num

/-- **Directions.** A vector along a direction, of length one at least, has that direction. -/
theorem unit?_along {d : Vec ℝ} (hd : d.IsDirection) {t : ℝ} (ht : 1 ≤ t) :
    (along t d).unit? = some d := by
  have hpos : 0 < t := zero_lt_one.trans_le ht
  rw [unit?, norm_along hd hpos.le, if_neg (not_le_of_gt (shortest_lt_one.trans_le ht)),
    unit_along hd hpos]

end Vec

/-! ### Angles -/

theorem clampUnit_of_mem {a : ℝ} (h₁ : -1 ≤ a) (h₂ : a ≤ 1) : Scalar.clampUnit a = a := by
  have hlow : ¬ a < -(1.0 : ℝ) := by
    norm_num
    exact h₁
  have hhigh : ¬ (1.0 : ℝ) < a := by
    norm_num
    exact h₂
  unfold Scalar.clampUnit
  rw [if_neg hlow, if_neg hhigh]

/-- A direction is at no angle to itself. -/
theorem angleBetween_self {d : Vec ℝ} (hd : d.IsDirection) : angleBetween d d = 0 := by
  have hdot : d.dot d = 1 := hd
  show Real.arccos (Scalar.clampUnit (d.dot d)) = 0
  rw [hdot, clampUnit_of_mem (by norm_num) le_rfl, Real.arccos_one]

/-- Directions at right angles are a quarter turn apart: twice their angle is a half turn. -/
theorem angleBetween_of_dot_eq_zero {u v : Vec ℝ} (h : u.x * v.x + u.y * v.y + u.z * v.z = 0) :
    2 * angleBetween u v = Real.pi := by
  have hdot : u.dot v = 0 := h
  show 2 * Real.arccos (Scalar.clampUnit (u.dot v)) = Real.pi
  rw [hdot, clampUnit_of_mem (by norm_num) zero_le_one, Real.arccos_zero]
  exact mul_div_cancel₀ Real.pi two_ne_zero

namespace Mesh

variable {m : Mesh ℝ} {angle : ℝ} {a v b : Nat} {s t : ℝ}

/-- A way on in the same direction is straight. -/
theorem isStraight_of_along {d : Vec ℝ} (hd : d.IsDirection) (hs : 1 ≤ s) (ht : 1 ≤ t)
    (hto : m.position v - m.position a = Vec.along s d)
    (hfrom : m.position b - m.position v = Vec.along t d) (hangle : 0 ≤ angle) :
    m.isStraight angle a v b = true := by
  rw [isStraight, hto, hfrom, Vec.unit?_along hd hs, Vec.unit?_along hd ht]
  refine decide_eq_true ?_
  rwa [angleBetween_self hd]

/-- A way on at a right angle is not straight. -/
theorem not_isStraight_of_along {d d' : Vec ℝ} (hd : d.IsDirection) (hd' : d'.IsDirection)
    (hs : 1 ≤ s) (ht : 1 ≤ t) (hto : m.position v - m.position a = Vec.along s d)
    (hfrom : m.position b - m.position v = Vec.along t d')
    (hright : d.x * d'.x + d.y * d'.y + d.z * d'.z = 0) (hangle : 2 * angle < Real.pi) :
    m.isStraight angle a v b = false := by
  rw [isStraight, hto, hfrom, Vec.unit?_along hd hs, Vec.unit?_along hd' ht]
  refine decide_eq_false (not_le_of_gt ?_)
  rw [← angleBetween_of_dot_eq_zero hright] at hangle
  exact lt_of_mul_lt_mul_left hangle zero_le_two

/-! ### Distances -/

/-- Every place is near itself. -/
theorem close (d : ℝ) (m : Mesh ℝ) : m.Close d := by
  intro p _
  have hself : p.distanceSq p = 0 := by
    show (p.x - p.x) * (p.x - p.x) + (p.y - p.y) * (p.y - p.y) + (p.z - p.z) * (p.z - p.z) = 0
    ring
  rw [hself]
  exact mul_self_nonneg (_ : ℝ)

end Mesh

/-! ### Tolerances as real numbers -/

/-- The real number that a double stands for. -/
noncomputable def exactly (x : Float) : ℝ :=
  (Number.value (Number.parts x) : ℚ)

/-- The tolerances as real numbers. -/
noncomputable def Tolerances.exactly (t : Tolerances Float) : Tolerances ℝ :=
  ⟨CollisionMesh.exactly t.weldDistance, CollisionMesh.exactly t.splitAngle,
    CollisionMesh.exactly t.dissolveAngle⟩

/-- Tolerances under which points ten apart are not welded, faces of one plane are not parted, and
    straight corners are removed but no right angles. -/
structure Tolerances.Fine (t : Tolerances ℝ) : Prop where
  weldDistance_lt : t.weldDistance < 10
  splitAngle_nonneg : 0 ≤ t.splitAngle
  dissolveAngle_nonneg : 0 ≤ t.dissolveAngle
  dissolveAngle_lt : 2 * t.dissolveAngle < Real.pi

/-- A double between two integers stands for a real number between them. -/
private theorem exactly_mem {x : Float} {a b : Nat} (ha : a < 2 ^ 53) (hb : b < 2 ^ 53)
    (hlow : Number.nearest .positive a 0 ≤ x) (hhigh : x ≤ Number.nearest .positive b 0) :
    (a : ℝ) ≤ exactly x ∧ exactly x ≤ b := by
  have hfa := Number.isFinite_nearest .positive (.inl ha)
  have hfb := Number.isFinite_nearest .positive (.inl hb)
  have hfx := Number.isFinite_of_le_of_le hfa hfb hlow hhigh
  rw [Number.le_iff_value_le hfa hfx, Number.value_nearest .positive (.inl ha)] at hlow
  rw [Number.le_iff_value_le hfx hfb, Number.value_nearest .positive (.inl hb)] at hhigh
  have hlow : (a : ℚ) ≤ Number.value (Number.parts x) := hlow
  have hhigh : Number.value (Number.parts x) ≤ (b : ℚ) := hhigh
  rw [exactly]
  exact ⟨by exact_mod_cast hlow, by exact_mod_cast hhigh⟩

/-- **The standard tolerances are fine.** Two and a half units are less than ten, and two degrees are
    less than one radian, which is less than a quarter turn. -/
theorem fine_standard : Tolerances.standard.exactly.Fine := by
  obtain ⟨-, hweld⟩ := exactly_mem (x := Tolerances.standard.weldDistance) (a := 0) (b := 3)
    (by decide) (by decide) (by decide +kernel) (by decide +kernel)
  obtain ⟨hsplit, -⟩ := exactly_mem (x := Tolerances.standard.splitAngle) (a := 0) (b := 1)
    (by decide) (by decide) (by decide +kernel) (by decide +kernel)
  obtain ⟨hlow, hhigh⟩ := exactly_mem (x := Tolerances.standard.dissolveAngle) (a := 0) (b := 1)
    (by decide) (by decide) (by decide +kernel) (by decide +kernel)
  rw [Nat.cast_zero] at hsplit hlow
  rw [Nat.cast_one] at hhigh
  have hpi := Real.pi_gt_three
  refine ⟨?_, hsplit, hlow, ?_⟩
  · exact hweld.trans_lt (by norm_num)
  · show 2 * CollisionMesh.exactly Tolerances.standard.dissolveAngle < Real.pi
    linarith

end CollisionMesh
