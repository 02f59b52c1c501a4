import CollisionMesh.Mesh.Weld
import CollisionMesh.Proofs.Signs

namespace CollisionMesh

open Float.Model (Format UnpackedFloat)
open Number Scalar

/-!
# Distances and half turns in double precision

Rounding does not disturb a few facts of geometry. A finite point is at no distance from
itself, a distance is the same both ways, and the way to a point and the way back are
directions whose inner product is not positive. So a half turn passes for no angle below
a right one, whatever the rounding.

* `LawfulArccos` — what an arc cosine is relied on for;
* `Point.Finite`, `distanceSq_self_le` — finite points are near themselves;
* `distanceSq_comm` — distances both ways;
* `NeverBack` — an angle that no half turn passes for; `neverBack_of_lt` — those below a
  right angle are such.
-/

/-- An angle that no half turn passes for: the way from one point to another and the way
    back are further apart. -/
def NeverBack {α : Type} [Scalar α] (angle : α) : Prop :=
  ∀ (p q : Point α) (there back : Vec α), (q - p).unit? = some there →
    (p - q).unit? = some back → ¬ angleBetween there back ≤ angle

/-- The double nearest to half a half turn. -/
def rightAngle : Float := 1.5707963267948966

/-- What an arc cosine is relied on for: it is at least a right angle where the cosine is
    not positive, and not a number where the cosine is none. The program takes that of the
    platform, `Float.acos`. -/
structure LawfulArccos (arccos : Float → Float) : Prop where
  obtuse : ∀ c : Float, -1.0 ≤ c → c ≤ 0.0 → rightAngle ≤ arccos c
  notANumber : ∀ c : Float, parts c = .notANumber → parts (arccos c) = .notANumber

/-! ### Signs of doubles -/

private theorem parts_notANumber : parts (.ofModel (.pack .notANumber)) = .notANumber :=
  parts_ofModel_pack (u := .notANumber) trivial

/-- A sum of numbers of a sign is of that sign, unless it is not a number. -/
theorem signed_or_add {s : UnpackedFloat.Sign} {x y : Float}
    (hx : parts x = .notANumber ∨ Signed s (parts x))
    (hy : parts y = .notANumber ∨ Signed s (parts y)) :
    parts (x + y) = .notANumber ∨ Signed s (parts (x + y)) := by
  have hsum : parts (x + y)
      = parts (.ofModel (.pack (UnpackedFloat.add Format.binary64 (parts x) (parts y)))) := rfl
  rw [hsum]
  -- What is not a number makes every sum not a number.
  rcases hx with hx | hx
  · left
    rw [hx]
    exact parts_notANumber
  · rcases hy with hy | hy
    · left
      have hnan : ∀ u, UnpackedFloat.add Format.binary64 u .notANumber = .notANumber := by
        intro u
        cases u <;> rfl
      rw [hy, hnan]
      exact parts_notANumber
    · exact .inr (signed_pack (signed_add hx hy))

/-- The square of a number is not negative. -/
theorem signed_sq {x : Float} (hx : parts x ≠ .notANumber) : Signed .positive (parts (x * x)) :=
  signed_pack (signed_mul_self hx)

/-- The product of opposites is not positive, unless it is not a number. -/
theorem signed_or_mul_opposite {x y : Float} (h : Opposite (parts x) (parts y)) :
    parts (x * y) = .notANumber ∨ Signed .negative (parts (x * y)) := by
  have hproduct : parts (x * y)
      = parts (.ofModel (.pack (UnpackedFloat.mul Format.binary64 (parts x) (parts y)))) := rfl
  rw [hproduct]
  rcases mul_opposite h with hnan | hneg
  · left
    rw [hnan]
    exact parts_notANumber
  · exact .inr (signed_pack hneg)

/-- Opposites have the same square. -/
theorem sq_eq_of_opposite {x y : Float} (h : Opposite (parts x) (parts y)) : x * x = y * y :=
  congrArg (fun u => Float.ofModel (.pack u)) (mul_self_opposite h)

/-- Differences both ways are opposites. -/
theorem opposite_differences (x y : Float) : Opposite (parts (x - y)) (parts (y - x)) :=
  opposite_pack (opposite_sub (parts x) (parts y))

/-- Opposites divided by a number are opposites. -/
theorem opposite_quotients {x y : Float} (h : Opposite (parts x) (parts y)) (z : Float) :
    Opposite (parts (x / z)) (parts (y / z)) :=
  opposite_pack (opposite_div h (parts z))

/-- Zero is at most every number that is not negative. -/
theorem zero_le_of_signed {x y : Float} {s : UnpackedFloat.Sign} (hx : parts x = .zero s)
    (hy : Signed .positive (parts y)) : x ≤ y := by
  rw [le_iff, hx]
  generalize parts y = u at hy ⊢
  cases u with
  | notANumber => exact hy.elim
  | zero s' => exact ⟨by simp, by simp, le_of_eq rfl⟩
  | infinity s' =>
    obtain rfl : s' = .positive := hy
    exact ⟨by simp, by simp, Prod.Lex.toLex_le_toLex.mpr (.inl (by decide))⟩
  | finite s' m e h =>
    obtain rfl : s' = .positive := hy
    exact ⟨by simp, by simp, Prod.Lex.toLex_le_toLex.mpr (.inl Int.zero_lt_one)⟩

/-- A number that is not positive is at most zero. -/
theorem le_zero_of_signed {x : Float} (hx : Signed .negative (parts x)) : x ≤ 0.0 := by
  have hzero : parts 0.0 = .zero .positive := rfl
  rw [le_iff, hzero]
  generalize parts x = u at hx ⊢
  cases u with
  | notANumber => exact hx.elim
  | zero s' => exact ⟨by simp, by simp, le_of_eq rfl⟩
  | infinity s' =>
    obtain rfl : s' = .negative := hx
    exact ⟨by simp, by simp, Prod.Lex.toLex_le_toLex.mpr (.inl (by decide))⟩
  | finite s' m e h =>
    obtain rfl : s' = .negative := hx
    exact ⟨by simp, by simp, Prod.Lex.toLex_le_toLex.mpr (.inl (Int.negSucc_lt_zero 0))⟩

/-! ### Distances -/

/-- A point with finite coordinates. -/
def Point.Finite (p : Point Float) : Prop :=
  isFinite p.x = true ∧ isFinite p.y = true ∧ isFinite p.z = true

instance (p : Point Float) : Decidable p.Finite :=
  inferInstanceAs (Decidable (_ ∧ _ ∧ _))

/-- A finite number differs from itself by zero. -/
theorem parts_sub_self {x : Float} (h : isFinite x = true) : parts (x - x) = .zero .positive := by
  have hdiff : parts (x - x)
      = parts (.ofModel (.pack (UnpackedFloat.sub Format.binary64 (parts x) (parts x)))) := rfl
  -- The difference of equal mantissas is zero, and zero is rounded to the positive one.
  have hzero : UnpackedFloat.sub Format.binary64 (parts x) (parts x) = .zero .positive := by
    unfold isFinite at h
    generalize parts x = u at h ⊢
    cases u with
    | notANumber => exact absurd h (by simp)
    | infinity s => exact absurd h (by simp)
    | zero s => cases s <;> rfl
    | finite s m e hm =>
      simp only [UnpackedFloat.sub, Int.sub_self]
      rfl
  rw [hdiff, hzero]
  exact parts_ofModel_pack (u := .zero .positive) trivial

/-- The square of nothing, and the sum of two nothings, is nothing. -/
private theorem parts_zero_ops {x y : Float} (hx : parts x = .zero .positive)
    (hy : parts y = .zero .positive) :
    parts (x * y) = .zero .positive ∧ parts (x + y) = .zero .positive := by
  have hproduct : parts (x * y)
      = parts (.ofModel (.pack (UnpackedFloat.mul Format.binary64 (parts x) (parts y)))) := rfl
  have hsum : parts (x + y)
      = parts (.ofModel (.pack (UnpackedFloat.add Format.binary64 (parts x) (parts y)))) := rfl
  rw [hproduct, hsum, hx, hy]
  exact ⟨parts_ofModel_pack (u := .zero .positive) trivial,
    parts_ofModel_pack (u := .zero .positive) trivial⟩

/-- The squared reach is not negative. -/
theorem signed_reachSq (arccos : Float → Float) (d : Float) :
    letI := double arccos
    Signed .positive (parts (Mesh.reachSq d)) := by
  unfold Mesh.reachSq
  dsimp only
  -- A threshold above zero is a number, and any other is replaced by zero.
  split
  · next h => exact signed_sq (lt_iff.mp h).2.1
  · exact signed_sq (x := 0.0) (by rw [show parts 0.0 = .zero .positive from rfl]; simp)

/-- **Near itself.** A finite point is within every distance of itself. -/
theorem distanceSq_self_le (arccos : Float → Float) {p : Point Float} (hp : p.Finite) (d : Float) :
    letI := double arccos
    p.distanceSq p ≤ Mesh.reachSq d := by
  obtain ⟨hx, hy, hz⟩ := hp
  have hx := parts_zero_ops (parts_sub_self hx) (parts_sub_self hx)
  have hy := parts_zero_ops (parts_sub_self hy) (parts_sub_self hy)
  have hz := parts_zero_ops (parts_sub_self hz) (parts_sub_self hz)
  exact zero_le_of_signed (parts_zero_ops (parts_zero_ops hx.1 hy.1).2 hz.1).2
    (signed_reachSq arccos d)

/-- **Both ways.** The distance of two points is the same from either. -/
theorem distanceSq_comm (arccos : Float → Float) (p q : Point Float) :
    letI := double arccos
    p.distanceSq q = q.distanceSq p := by
  have hx := sq_eq_of_opposite (opposite_differences p.x q.x)
  have hy := sq_eq_of_opposite (opposite_differences p.y q.y)
  have hz := sq_eq_of_opposite (opposite_differences p.z q.z)
  show (p.x - q.x) * (p.x - q.x) + (p.y - q.y) * (p.y - q.y) + (p.z - q.z) * (p.z - q.z)
    = (q.x - p.x) * (q.x - p.x) + (q.y - p.y) * (q.y - p.y) + (q.z - p.z) * (q.z - p.z)
  rw [hx, hy, hz]

/-! ### Half turns -/

/-- Vectors that are opposite in every coordinate. -/
structure Vec.Opposed (v w : Vec Float) : Prop where
  x : Opposite (parts v.x) (parts w.x)
  y : Opposite (parts v.y) (parts w.y)
  z : Opposite (parts v.z) (parts w.z)

namespace Vec.Opposed

variable {v w : Vec Float} (arccos : Float → Float)

/-- Opposed vectors are of the same length. -/
theorem norm_eq (h : v.Opposed w) :
    letI := double arccos
    v.norm = w.norm := by
  have hx := sq_eq_of_opposite h.x
  have hy := sq_eq_of_opposite h.y
  have hz := sq_eq_of_opposite h.z
  show Float.sqrt (v.x * v.x + v.y * v.y + v.z * v.z)
    = Float.sqrt (w.x * w.x + w.y * w.y + w.z * w.z)
  rw [hx, hy, hz]

/-- Opposed vectors have opposed directions. -/
theorem unit (h : v.Opposed w) :
    letI := double arccos
    v.unit.Opposed w.unit := by
  unfold Vec.unit
  -- Both are divided by the same length.
  rw [h.norm_eq arccos]
  exact ⟨opposite_quotients h.x _, opposite_quotients h.y _, opposite_quotients h.z _⟩

/-- The inner product of opposed vectors is not positive, unless it is not a number. -/
theorem signed_or_dot (h : v.Opposed w) :
    letI := double arccos
    parts (v.dot w) = .notANumber ∨ Signed .negative (parts (v.dot w)) :=
  signed_or_add (signed_or_add (signed_or_mul_opposite h.x) (signed_or_mul_opposite h.y))
    (signed_or_mul_opposite h.z)

end Vec.Opposed

/-- A number that is not positive, moved into the unit interval, is there and is not
    positive. -/
theorem clampUnit_mem_of_signed (arccos : Float → Float) {a : Float}
    (ha : Signed .negative (parts a)) :
    letI := double arccos
    (-1.0 : Float) ≤ clampUnit a ∧ clampUnit a ≤ 0.0 := by
  have hle := le_zero_of_signed ha
  have hone : (0.0 : Float) ≤ 1.0 := by decide +kernel
  have hunit : (-1.0 : Float) ≤ -1.0 ∧ (-1.0 : Float) ≤ 0.0 := by decide +kernel
  unfold clampUnit
  -- Below -1 it is moved to -1; above 1 it is not, as it is not positive.
  split
  · exact hunit
  · next hlow =>
    rw [if_neg (not_lt_of_le_of_le hle hone)]
    refine ⟨?_, hle⟩
    rw [le_iff] at hle ⊢
    refine ⟨(le_iff.mp hunit.1).1, hle.1, ?_⟩
    by_contra hlevel
    exact hlow (lt_iff.mpr ⟨hle.1, (le_iff.mp hunit.1).1, not_le.mp hlevel⟩)

/-- What is not a number stays so in the unit interval. -/
theorem clampUnit_of_notANumber (arccos : Float → Float) {a : Float}
    (ha : parts a = .notANumber) :
    letI := double arccos
    clampUnit a = a := by
  unfold clampUnit
  rw [if_neg fun h => (lt_iff.mp h).1 ha, if_neg fun h => (lt_iff.mp h).2.1 ha]

/-- **No way back.** No half turn passes for an angle below a right one. -/
theorem neverBack_of_lt {arccos : Float → Float} (h : LawfulArccos arccos) {angle : Float}
    (hangle : angle < rightAngle) :
    letI := double arccos
    NeverBack angle := by
  let _ := double arccos
  intro p q there back hthere hback hle
  -- Coordinate by coordinate the way there and the way back are opposites, and so are their
  -- directions, as far as they have any.
  have hopposed : Vec.Opposed (q - p) (p - q) :=
    ⟨opposite_differences q.x p.x, opposite_differences q.y p.y, opposite_differences q.z p.z⟩
  have hunits : there.Opposed back := by
    unfold Vec.unit? at hthere hback
    split at hthere
    · exact absurd hthere (by simp)
    · split at hback
      · exact absurd hback (by simp)
      · rw [← Option.some.inj hthere, ← Option.some.inj hback]
        exact hopposed.unit arccos
  -- So the inner product is not positive, or not a number if a coordinate overflows. In both
  -- cases the angle is not at most one below a right angle.
  rcases hunits.signed_or_dot arccos with hnan | hneg
  · have hangle : angleBetween there back = arccos (there.dot back) :=
      congrArg arccos (clampUnit_of_notANumber arccos hnan)
    rw [hangle] at hle
    exact (le_iff.mp hle).1 (h.notANumber _ hnan)
  · obtain ⟨hlow, hhigh⟩ := clampUnit_mem_of_signed arccos hneg
    exact not_lt_of_le_of_le (h.obtuse _ hlow hhigh) hle hangle

/-- Nothing is at most an angle that is not a number. -/
theorem neverBack_of_notANumber (arccos : Float → Float) {angle : Float}
    (hangle : parts angle = .notANumber) :
    letI := double arccos
    NeverBack angle :=
  fun _ _ _ _ _ _ hle => (le_iff.mp hle).2.1 hangle

end CollisionMesh
