import CollisionMesh.Proofs.Corners
import CollisionMesh.Proofs.ExactSpace

namespace CollisionMesh

/-!
# Loops on a lattice

Points of the plane `z = 0` with both coordinates multiples of ten are named by pairs of natural
numbers. A loop of such points that runs clockwise, seen from above, looks straight down, and along
the sides of a square the way is straight up to the corners.

* `place`, `Mesh.OnLattice.apart` — the points of the lattice, which are far from each other;
* `area`, `newellNormal_place` — the area of a loop;
* `unit?_newellNormal_place` — loops with a negative area look down;
* `Way`, `Side`, `corners` — steps along the sides of a square, and its corners;
* `isRotated_corners` — loops from corner to corner go round the square;
* `Mesh.sides_of_place` — the sides are straight.
-/

/-- The point of the lattice with a name. -/
def place (p : Nat × Nat) : Point ℝ :=
  ⟨10 * p.1, 10 * p.2, 0⟩

theorem place_sub (p q : Nat × Nat) :
    place p - place q = (⟨10 * (p.1 - q.1), 10 * (p.2 - q.2), 0⟩ : Vec ℝ) := by
  show (⟨10 * p.1 - 10 * q.1, 10 * p.2 - 10 * q.2, 0 - 0⟩ : Vec ℝ) = _
  rw [sub_self, mul_sub, mul_sub]

theorem place_injective : Function.Injective place := by
  rintro ⟨i, j⟩ ⟨i', j'⟩ h
  obtain ⟨hx, hy, -⟩ := Point.mk.inj h
  have hi : (i : ℝ) = i' := mul_left_cancel₀ (by norm_num) hx
  have hj : (j : ℝ) = j' := mul_left_cancel₀ (by norm_num) hy
  rw [Nat.cast_inj.mp hi, Nat.cast_inj.mp hj]

/-- Squares of whole numbers that are not zero are at least one. -/
private theorem one_le_sq_sub {i j : Nat} (h : i ≠ j) : 1 ≤ ((i : ℝ) - j) ^ 2 := by
  have hne : (i : Int) - j ≠ 0 := sub_ne_zero.mpr (Nat.cast_injective.ne h)
  have hsq : 1 ≤ ((i : Int) - j) ^ 2 := Int.add_one_le_iff.mpr (sq_pos_of_ne_zero hne)
  exact_mod_cast hsq

/-- Different points of the lattice are ten apart at least. -/
theorem hundred_le_distanceSq {p q : Nat × Nat} (h : p ≠ q) :
    100 ≤ (place p).distanceSq (place q) := by
  have hsq : (place p).distanceSq (place q) =
      100 * ((p.1 : ℝ) - q.1) ^ 2 + 100 * ((p.2 : ℝ) - q.2) ^ 2 := by
    show (10 * (p.1 : ℝ) - 10 * q.1) * (10 * (p.1 : ℝ) - 10 * q.1) +
      (10 * (p.2 : ℝ) - 10 * q.2) * (10 * (p.2 : ℝ) - 10 * q.2) +
        (0 - 0 : ℝ) * (0 - 0 : ℝ) = _
    ring
  have hx := sq_nonneg ((p.1 : ℝ) - q.1)
  have hy := sq_nonneg ((p.2 : ℝ) - q.2)
  rw [hsq]
  by_cases h₁ : p.1 = q.1
  · have := one_le_sq_sub fun h₂ => h (Prod.ext h₁ h₂)
    linarith
  · have := one_le_sq_sub h₁
    linarith

/-- Meshes on the lattice. -/
def Mesh.OnLattice (m : Mesh ℝ) : Prop :=
  ∀ p ∈ m.vertices, ∃ q, place q = p

/-- Points of the lattice are not welded by a distance of less than ten. -/
theorem Mesh.OnLattice.apart {m : Mesh ℝ} (h : m.OnLattice) {d : ℝ} (hd : d < 10) : m.Apart d := by
  intro p hp q hq hnear
  obtain ⟨p, rfl⟩ := h p hp
  obtain ⟨q, rfl⟩ := h q hq
  by_contra hne
  have hfar := hundred_le_distanceSq fun heq => hne (congrArg place heq)
  have hreach : reachSq d < 100 := by
    show (if (0.0 : ℝ) < d then d else 0.0) * (if (0.0 : ℝ) < d then d else 0.0) < 100
    split
    · next hpos =>
      norm_num at hpos
      nlinarith
    · norm_num
  linarith

/-! ### Areas -/

/-- Twice the area of a loop: the sum over its edges, negative where it runs clockwise. -/
def area (loop : List (Nat × Nat)) : Int :=
  ((cyclicPairs loop).map fun e => ((e.1.1 : Int) - e.2.1) * (e.1.2 + e.2.2)).sum

/-- The area does not depend on where a loop starts. -/
theorem area_eq_of_isRotated {l l' : List (Nat × Nat)} (h : l ~r l') : area l = area l' := by
  exact ((perm_cyclicPairs h).map _).sum_eq

theorem area_triangle (a b c : Nat × Nat) :
    area [a, b, c] = ((b.1 : Int) - a.1) * (c.2 - a.2) - (b.2 - a.2) * (c.1 - a.1) := by
  simp only [area, cyclicPairs, List.cons_append, List.nil_append, List.zip_cons_cons,
    List.zip_nil_left, List.map_cons, List.map_nil, List.sum_cons, List.sum_nil]
  ring

/-- Loops with three corners and an area have different corners. -/
theorem nodup_of_area_ne_zero {a b c : Nat × Nat} (h : area [a, b, c] ≠ 0) : [a, b, c].Nodup := by
  rw [area_triangle] at h
  have hab : a ≠ b := by
    rintro rfl
    exact h (by ring)
  have hac : a ≠ c := by
    rintro rfl
    exact h (by ring)
  have hbc : b ≠ c := by
    rintro rfl
    exact h (by ring)
  simp [hab, hac, hbc]

/-- The edges of a loop on the lattice add to the upright part of the area vector only. -/
private theorem foldl_newellTerm (edges : List ((Nat × Nat) × (Nat × Nat))) (z : ℝ) :
    (edges.map (Prod.map place place)).foldl newellTerm ⟨0, 0, z⟩ =
      ⟨0, 0, z + 100 * (edges.map fun e => ((e.1.1 : Int) - e.2.1) * (e.1.2 + e.2.2)).sum⟩ := by
  induction edges generalizing z with
  | nil => simp
  | cons e rest ih =>
    have hterm : newellTerm ⟨0, 0, z⟩ (Prod.map place place e) =
        ⟨0, 0, z + 100 * (((e.1.1 : Int) - e.2.1) * (e.1.2 + e.2.2) : Int)⟩ := by
      show (⟨0 + (10 * (e.1.2 : ℝ) - 10 * e.2.2) * (0 + 0),
        0 + (0 - 0) * (10 * (e.1.1 : ℝ) + 10 * e.2.1),
        z + (10 * (e.1.1 : ℝ) - 10 * e.2.1) * (10 * e.1.2 + 10 * e.2.2)⟩ : Vec ℝ) = _
      congr 1
      · ring
      · ring
      · push_cast
        ring
    rw [List.map_cons, List.foldl_cons, hterm, ih, List.map_cons, List.sum_cons]
    congr 1
    push_cast
    ring

/-- **Areas.** The area vector of a loop on the lattice is upright. -/
theorem newellNormal_place (loop : List (Nat × Nat)) :
    newellNormal (loop.map place) = ⟨0, 0, 100 * area loop⟩ := by
  have horigin : (⟨0.0, 0.0, 0.0⟩ : Vec ℝ) = ⟨0, 0, 0⟩ := by norm_num
  rw [newellNormal, cyclicPairs_map]
  show (_ : List (Point ℝ × Point ℝ)).foldl newellTerm ⟨0.0, 0.0, 0.0⟩ = _
  rw [horigin, foldl_newellTerm, zero_add, area]

/-- The direction straight down. -/
def Vec.down : Vec ℝ :=
  ⟨0, 0, -1⟩

theorem Vec.isDirection_down : down.IsDirection := by
  show (0 : ℝ) * 0 + 0 * 0 + -1 * -1 = 1
  norm_num

/-- **Loops that look down** are those with a negative area. -/
theorem unit?_newellNormal_place {loop : List (Nat × Nat)} (h : area loop < 0) :
    (newellNormal (loop.map place)).unit? = some Vec.down := by
  have hle : (area loop : ℝ) ≤ -1 := by exact_mod_cast Int.le_sub_one_of_lt h
  have halong : newellNormal (loop.map place) = Vec.along (-(100 * area loop)) Vec.down := by
    rw [newellNormal_place]
    show (⟨0, 0, 100 * (area loop : ℝ)⟩ : Vec ℝ) =
      ⟨-(100 * area loop) * 0, -(100 * area loop) * 0, -(100 * area loop) * -1⟩
    congr 1 <;> ring
  rw [halong]
  exact Vec.unit?_along Vec.isDirection_down (by linarith)

/-! ### The sides of a square -/

/-- The four ways along the axes, in the order in which they go round clockwise. -/
inductive Way where
  | up
  | right
  | down
  | left

namespace Way

/-- The next way round. -/
def next : Way → Way
  | up => right
  | right => down
  | down => left
  | left => up

def direction : Way → Vec ℝ
  | up => ⟨0, 1, 0⟩
  | right => ⟨1, 0, 0⟩
  | down => ⟨0, -1, 0⟩
  | left => ⟨-1, 0, 0⟩

theorem isDirection (w : Way) : w.direction.IsDirection := by
  cases w <;> norm_num [Vec.IsDirection, direction]

theorem direction_next (w : Way) : w.direction.x * w.next.direction.x +
    w.direction.y * w.next.direction.y + w.direction.z * w.next.direction.z = 0 := by
  cases w <;> norm_num [next, direction]

/-- A step along the side of the square with `n` units a side that runs that way. -/
def Along (n : Nat) (u v : Nat × Nat) : Way → Prop
  | up => u.1 = 0 ∧ v.1 = 0 ∧ u.2 < v.2 ∧ v.2 ≤ n
  | right => u.2 = n ∧ v.2 = n ∧ u.1 < v.1 ∧ v.1 ≤ n
  | down => u.1 = n ∧ v.1 = n ∧ v.2 < u.2 ∧ u.2 ≤ n
  | left => u.2 = 0 ∧ v.2 = 0 ∧ v.1 < u.1 ∧ u.1 ≤ n

end Way

/-- The corners of the square, clockwise. -/
def corners (n : Nat) : List (Nat × Nat) :=
  [(0, 0), (0, n), (n, n), (n, 0)]

/-- **Two steps.** Along the sides the way goes on until a corner, and there to the next side. -/
theorem Way.Along.next_cases {n : Nat} (hn : 0 < n) {u v w : Nat × Nat} {way way' : Way}
    (h : way.Along n u v) (h' : way'.Along n v w) :
    (v ∉ corners n ∧ way' = way ∧ way.Along n u w) ∨ (v ∈ corners n ∧ way' = way.next) := by
  obtain ⟨i, j⟩ := u
  obtain ⟨i', j'⟩ := v
  obtain ⟨i'', j''⟩ := w
  simp only [corners, List.mem_cons, List.not_mem_nil, or_false, Prod.mk.injEq]
  cases way <;> cases way' <;>
    simp only [Way.Along, Way.next, reduceCtorEq, and_false, and_true, false_and, true_and,
      or_false, false_or] at h h' ⊢ <;> omega

/-- A step along a side, from a place to a place, has its direction. -/
theorem Way.Along.exists_along {n : Nat} {u v : Nat × Nat} {way : Way} (h : way.Along n u v)
    {p q : Point ℝ} (hp : p = place u) (hq : q = place v) :
    ∃ t : ℝ, 1 ≤ t ∧ q - p = Vec.along t way.direction := by
  have hstep : ∀ {a b : Nat}, a < b → (1 : ℝ) ≤ 10 * (b - a) := by
    intro a b hab
    have hle : (a : ℝ) + 1 ≤ b := by exact_mod_cast hab
    linarith
  rw [hp, hq, place_sub]
  cases way <;> obtain ⟨hu, hv, hlt, -⟩ := h <;>
    exact ⟨_, hstep hlt, by simp [Vec.along, Way.direction, hu, hv, mul_sub]⟩

/-- A step along some side of the square. -/
def Side (n : Nat) (u v : Nat × Nat) : Prop :=
  ∃ way : Way, way.Along n u v

/-! ### The corners of a square -/

theorem nodup_corners {n : Nat} (hn : 0 < n) : (corners n).Nodup := by
  simp [corners, hn.ne, hn.ne']

/-- A side leads from each corner to the next one. -/
theorem Side.mem_cyclicPairs_corners {n : Nat} (hn : 0 < n) {p q : Nat × Nat} (h : Side n p q)
    (hp : p ∈ corners n) (hq : q ∈ corners n) : (p, q) ∈ cyclicPairs (corners n) := by
  obtain ⟨way, hway⟩ := h
  obtain ⟨i, j⟩ := p
  obtain ⟨k, l⟩ := q
  simp only [corners, cyclicPairs, List.cons_append, List.nil_append, List.zip_cons_cons,
    List.zip_nil_left, List.mem_cons, List.not_mem_nil, or_false, Prod.mk.injEq] at hp hq ⊢
  cases way <;> simp only [Way.Along] at hway <;> omega

/-- **Squares.** A loop along the sides from corner to corner is the loop of all four. -/
theorem isRotated_corners {n : Nat} (hn : 0 < n) {loop : List (Nat × Nat)}
    (hperm : loop.Perm (corners n)) (hsides : ∀ e ∈ cyclicPairs loop, Side n e.1 e.2) :
    loop ~r corners n := by
  have hnext : ∀ e ∈ cyclicPairs loop, e ∈ cyclicPairs (corners n) := by
    rintro ⟨p, q⟩ he
    obtain ⟨hp, hq⟩ := mem_of_mem_cyclicPairs he
    exact (hsides _ he).mem_cyclicPairs_corners hn (hperm.subset hp) (hperm.subset hq)
  obtain ⟨s, t, rfl⟩ := List.append_of_mem (hperm.symm.subset (List.mem_cons_self : (0, 0) ∈ corners n))
  refine List.isRotated_append.trans ?_
  have hlen : (t ++ s).length = 3 := by
    have hlen := hperm.length_eq
    simp only [List.length_append, List.length_cons, corners, List.length_nil] at hlen ⊢
    omega
  have hturned : ∀ e ∈ cyclicPairs ((0, 0) :: (t ++ s)), e ∈ cyclicPairs (corners n) :=
    fun e he => hnext e (mem_cyclicPairs_append_comm.mpr he)
  obtain ⟨x, y, z, hrest⟩ := List.length_eq_three.mp hlen
  obtain ⟨x₁, x₂⟩ := x
  obtain ⟨y₁, y₂⟩ := y
  obtain ⟨z₁, z₂⟩ := z
  rw [List.cons_append, hrest]
  rw [hrest] at hturned
  have hx := hturned ((0, 0), (x₁, x₂)) (by simp [cyclicPairs])
  have hy := hturned ((x₁, x₂), (y₁, y₂)) (by simp [cyclicPairs])
  have hz := hturned ((y₁, y₂), (z₁, z₂)) (by simp [cyclicPairs])
  simp only [corners, cyclicPairs, List.cons_append, List.nil_append, List.zip_cons_cons,
    List.zip_nil_left, List.mem_cons, List.not_mem_nil, or_false, Prod.mk.injEq] at hx hy hz
  obtain ⟨hx₁, hx₂⟩ : x₁ = 0 ∧ x₂ = n := by omega
  obtain ⟨hy₁, hy₂⟩ : y₁ = n ∧ y₂ = n := by omega
  obtain ⟨hz₁, hz₂⟩ : z₁ = n ∧ z₂ = 0 := by omega
  rw [hx₁, hx₂, hy₁, hy₂, hz₁, hz₂]
  exact .refl _

/-- The corners of the square follow each other along its sides. -/
theorem side_of_mem_corners {n : Nat} (hn : 0 < n) :
    ∀ e ∈ cyclicPairs (corners n), Side n e.1 e.2 := by
  intro e he
  simp only [corners, cyclicPairs, List.cons_append, List.nil_append, List.zip_cons_cons,
    List.zip_nil_left, List.mem_cons, List.not_mem_nil, or_false] at he
  rcases he with rfl | rfl | rfl | rfl
  · exact ⟨.up, rfl, rfl, hn, Nat.le_refl n⟩
  · exact ⟨.right, rfl, rfl, hn, Nat.le_refl n⟩
  · exact ⟨.down, rfl, rfl, hn, Nat.le_refl n⟩
  · exact ⟨.left, rfl, rfl, hn, Nat.le_refl n⟩

theorem area_corners (n : Nat) : area (corners n) = -(2 * (n * n)) := by
  simp only [area, corners, cyclicPairs, List.cons_append, List.nil_append, List.zip_cons_cons,
    List.zip_nil_left, List.map_cons, List.map_nil, List.sum_cons, List.sum_nil]
  push_cast
  ring

/-- The corners of the square from the origin on whose sides are `n` times ten units long. -/
def squareCorners (n : Nat) : List (Point ℝ) :=
  [⟨0, 0, 0⟩, ⟨0, 10 * n, 0⟩, ⟨10 * n, 10 * n, 0⟩, ⟨10 * n, 0, 0⟩]

theorem map_place_corners (n : Nat) : (corners n).map place = squareCorners n := by
  simp [corners, squareCorners, place]

/-! ### Straight sides -/

namespace Mesh

/-- A step between two vertices along a side of the square. -/
def Step (m : Mesh ℝ) (n : Nat) (a b : Nat) : Prop :=
  ∃ u v, m.position a = place u ∧ m.position b = place v ∧ Side n u v

/-- A vertex in a corner of the square. -/
def AtCorner (m : Mesh ℝ) (n : Nat) (a : Nat) : Prop :=
  ∃ u ∈ corners n, m.position a = place u

/-- **Straight sides.** At an angle less than a quarter turn the way along the sides of the square is
    straight but for its corners. -/
theorem sides_of_place (m : Mesh ℝ) {n : Nat} (hn : 0 < n) {angle : ℝ} (hlow : 0 ≤ angle)
    (hhigh : 2 * angle < Real.pi) :
    Sides (m.isStraight angle) (m.Step n) (m.AtCorner n) := by
  -- Two steps, with the name of the vertex between them.
  have hsteps : ∀ a b c, m.Step n a b → m.Step n b c → ∃ u v w way way',
      m.position a = place u ∧ m.position b = place v ∧ m.position c = place w ∧
        Way.Along n u v way ∧ Way.Along n v w way' := by
    rintro a b c ⟨u, v, ha, hb, way, hway⟩ ⟨v', w, hb', hc, way', hway'⟩
    obtain rfl := place_injective (hb.symm.trans hb')
    exact ⟨u, v, w, way, way', ha, hb, hc, hway, hway'⟩
  constructor
  · intro a b c hab hbc hb
    obtain ⟨u, v, w, way, way', hpa, hpb, hpc, hto, hfrom⟩ := hsteps a b c hab hbc
    rcases hto.next_cases hn hfrom with ⟨-, rfl, hall⟩ | ⟨hv, -⟩
    · obtain ⟨s, hs, hs'⟩ := hto.exists_along hpa hpb
      obtain ⟨t, ht, ht'⟩ := hfrom.exists_along hpb hpc
      refine ⟨⟨u, w, hpa, hpc, way', hall⟩, ?_, ?_⟩
      · exact isStraight_of_along way'.isDirection hs ht hs' ht' hlow
      · exact isStraight_of_along way'.isDirection.reverse ht hs (Vec.sub_eq_along_reverse ht')
          (Vec.sub_eq_along_reverse hs') hlow
    · exact absurd ⟨v, hv, hpb⟩ hb
  · rintro a b c hab hbc ⟨v', hv', hpb'⟩
    obtain ⟨u, v, w, way, way', hpa, hpb, hpc, hto, hfrom⟩ := hsteps a b c hab hbc
    obtain rfl := place_injective (hpb.symm.trans hpb')
    rcases hto.next_cases hn hfrom with ⟨hv, -⟩ | ⟨-, rfl⟩
    · exact absurd hv' hv
    · obtain ⟨s, hs, hs'⟩ := hto.exists_along hpa hpb
      obtain ⟨t, ht, ht'⟩ := hfrom.exists_along hpb hpc
      refine ⟨?_, ?_⟩
      · exact not_isStraight_of_along way.isDirection way.next.isDirection hs ht hs' ht'
          way.direction_next hhigh
      · refine not_isStraight_of_along way.next.isDirection.reverse way.isDirection.reverse ht hs
          (Vec.sub_eq_along_reverse ht') (Vec.sub_eq_along_reverse hs') ?_ hhigh
        have hright := way.direction_next
        simp only [Vec.reverse]
        linarith

end Mesh

end CollisionMesh
