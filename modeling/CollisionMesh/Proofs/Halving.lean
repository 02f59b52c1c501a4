import CollisionMesh.Mesh.Triangulate
import CollisionMesh.Proofs.Lattice
import Mathlib.Data.List.Permutation

namespace CollisionMesh

/-!
# Cutting a square in two

A square of the lattice is cut along one of its diagonals, whatever the clipper answers, as long as
an answer of two triangles for a strictly convex quadrilateral is one. Both triangles are wound as the
square.

* `AlongDiagonal`, `Halves` — two triangles on both sides of a diagonal, wound anyhow or as the loop;
* `CutsConvex` — what is assumed of the clipper;
* `facing_isRotated` — triangles are wound as the loop that they are cut from;
* `halves_cutPolygon` — what becomes of a square.
-/

/-! ### Two triangles on both sides of a diagonal -/

section Diagonals

variable {β γ : Type} {loop : List β} {ts : List (Triple β)}

/-- Two triangles on both sides of a diagonal of a loop of four. -/
def AlongDiagonal (loop : List β) (ts : List (Triple β)) : Prop :=
  ∃ a b c d, [a, b, c, d] ~r loop ∧
    ∃ s t, ts.Perm [s, t] ∧ s.toList.Perm [a, b, c] ∧ t.toList.Perm [a, c, d]

/-- Two triangles on both sides of a diagonal of a loop of four, wound as the loop. -/
def Halves (loop : List β) (ts : List (Triple β)) : Prop :=
  ∃ a b c d, [a, b, c, d] ~r loop ∧
    ∃ s t, ts.Perm [s, t] ∧ s.toList ~r [a, b, c] ∧ t.toList ~r [a, c, d]

theorem toList_map (f : β → γ) (t : Triple β) : (t.map f).toList = t.toList.map f := rfl

theorem Halves.map (h : Halves loop ts) (f : β → γ) :
    Halves (loop.map f) (ts.map (Triple.map f)) := by
  obtain ⟨a, b, c, d, hloop, s, t, hperm, hs, ht⟩ := h
  refine ⟨f a, f b, f c, f d, hloop.map f, s.map f, t.map f, hperm.map _, ?_, ?_⟩
  · rw [toList_map]
    exact hs.map f
  · rw [toList_map]
    exact ht.map f

/-- Three elements are in one of two orders round. -/
theorem isRotated_or_of_perm {l : List β} {a b c : β} (h : l.Perm [a, b, c]) :
    l ~r [a, b, c] ∨ l ~r [a, c, b] := by
  obtain ⟨s, t, rfl⟩ := List.append_of_mem (h.mem_iff.mpr List.mem_cons_self)
  have hturn : s ++ a :: t ~r a :: (t ++ s) := List.isRotated_append
  have hrest : (t ++ s).Perm [b, c] := by
    have hcons := hturn.perm.symm.trans h
    exact (List.perm_cons a).mp hcons
  rcases List.perm_pair.mp hrest with heq | heq
  · exact .inl (heq ▸ hturn)
  · exact .inr (heq ▸ hturn)

end Diagonals

/-! ### Winding -/

/-- Corners on the lattice, looked up by number. -/
private theorem getD_places (loop : List (Nat × Nat)) (i : Nat) :
    (loop.map place).toArray.getD i Point.origin = place (loop.getD i (0, 0)) := by
  have horigin : (Point.origin : Point ℝ) = place (0, 0) := by
    show (⟨0.0, 0.0, 0.0⟩ : Point ℝ) = ⟨10 * (0 : Nat), 10 * (0 : Nat), 0⟩
    norm_num
  rw [Array.getD_eq_getD_getElem?, List.getElem?_toArray, List.getElem?_map, horigin,
    List.getD_eq_getElem?_getD]
  exact Option.getD_map place (0, 0) loop[i]?

/-- How far a triangle of the lattice looks down. -/
private theorem winding_dot_down (p q r : Nat × Nat) :
    ((place q - place p).cross (place r - place p)).dot Vec.down = -(100 * area [p, q, r]) := by
  rw [place_sub, place_sub, Vec.cross_real, Vec.dot_real, area_triangle, Vec.down]
  push_cast
  ring

/-- A triangle that looks up is turned over, any other is left as it is. -/
private theorem facing_places (loop : List (Nat × Nat)) (t : Triple Nat) :
    facing (loop.map place).toArray Vec.down t =
      if 0 < area (t.toList.map fun i => loop.getD i (0, 0)) then ⟨t.a, t.c, t.b⟩ else t := by
  have hup : ((place (loop.getD t.b (0, 0)) - place (loop.getD t.a (0, 0))).cross
      (place (loop.getD t.c (0, 0)) - place (loop.getD t.a (0, 0)))).dot Vec.down < (0.0 : ℝ) ↔
      0 < area (t.toList.map fun i => loop.getD i (0, 0)) := by
    have hzero : (0.0 : ℝ) = 0 := by norm_num
    rw [winding_dot_down, hzero, neg_lt_zero, mul_pos_iff_of_pos_left (by norm_num)]
    exact Int.cast_pos
  simp only [facing, getD_places]
  exact if_congr hup rfl rfl

/-- **Winding.** Three corners of a loop are put in the order in which they look down. -/
theorem facing_isRotated {loop : List (Nat × Nat)} {t : Triple Nat} {i j k : Nat}
    (hperm : t.toList.Perm [i, j, k])
    (hdown : area ([i, j, k].map fun i => loop.getD i (0, 0)) < 0) :
    (facing (loop.map place).toArray Vec.down t).toList ~r [i, j, k] := by
  rw [facing_places]
  rcases isRotated_or_of_perm hperm with hturn | hturn
  · rw [area_eq_of_isRotated (hturn.map _), if_neg (not_lt_of_gt hdown)]
    exact hturn
  · -- Turned over, the three look up and have the opposite area.
    have harea : area ([i, k, j].map fun i => loop.getD i (0, 0)) =
        -area ([i, j, k].map fun i => loop.getD i (0, 0)) := by
      simp only [List.map_cons, List.map_nil, area_triangle]
      ring
    rw [area_eq_of_isRotated (hturn.map _), harea, if_pos (neg_pos.mpr hdown)]
    have hover : [t.a, t.c, t.b] ~r t.toList.reverse := ⟨1, rfl⟩
    exact (hover.trans hturn.reverse).trans ⟨2, rfl⟩

/-- **Both halves are wound as the loop.** -/
theorem halves_facing {loop : List (Nat × Nat)} {ts : List (Triple Nat)}
    (hts : AlongDiagonal (List.range 4) ts)
    (hdown : ∀ i j k l, [i, j, k, l] ~r List.range 4 →
      area ([i, j, k].map fun i => loop.getD i (0, 0)) < 0) :
    Halves (List.range 4) (ts.map (facing (loop.map place).toArray Vec.down)) := by
  obtain ⟨i, j, k, l, hloop, s, t, hperm, hs, ht⟩ := hts
  refine ⟨i, j, k, l, hloop, _, _, hperm.map _, facing_isRotated hs (hdown i j k l hloop), ?_⟩
  refine facing_isRotated ht ?_
  -- The other half comes first where the loop starts at the other end of the diagonal.
  have hother := hdown k l i j (List.IsRotated.trans ⟨2, rfl⟩ hloop)
  have hturn : [i, k, l] ~r [k, l, i] := ⟨1, rfl⟩
  rwa [area_eq_of_isRotated (hturn.map _)]

/-! ### The clipper -/

/-- How a way over three points of the plane turns. -/
def Planar.turn (p q r : Planar ℝ) : ℝ :=
  (q.x - p.x) * (r.y - q.y) - (q.y - p.y) * (r.x - q.x)

/-- A loop of four points that turns the same way at each of them. -/
def StrictlyConvex (p q r s : Planar ℝ) : Prop :=
  (0 < p.turn q r ∧ 0 < q.turn r s ∧ 0 < r.turn s p ∧ 0 < s.turn p q) ∨
    (p.turn q r < 0 ∧ q.turn r s < 0 ∧ r.turn s p < 0 ∧ s.turn p q < 0)

/-- Whatever two triangles the clipper answers for a strictly convex quadrilateral, they lie on both
    sides of one of its diagonals. It may answer anything else, or fail. -/
def CutsConvex (clipper : Clipper ℝ) : Prop :=
  ∀ p q r s, StrictlyConvex p q r s → ∀ ts, clipper.clip [p, q, r, s] = some ts →
    ts.length = 2 → AlongDiagonal (List.range 4) ts

/-- The directions in the plane of a loop that looks down. -/
private theorem ofNormal_down :
    PlaneBasis.ofNormal Vec.down = ⟨Way.left.direction, Way.up.direction⟩ := by
  have hupright : ¬ Scalar.magnitude (Vec.down).z < (0.9 : ℝ) := by
    show ¬ (if (-1 : ℝ) < 0.0 then -(-1 : ℝ) else -1) < 0.9
    norm_num
  have htangent : Vec.cross (⟨0.0, 1.0, 0.0⟩ : Vec ℝ) Vec.down = Way.left.direction := by
    rw [Vec.cross_real]
    norm_num [Vec.down, Way.direction]
  have hbitangent : Vec.down.cross Way.left.direction = Way.up.direction := by
    rw [Vec.cross_real]
    norm_num [Vec.down, Way.direction]
  simp only [PlaneBasis.ofNormal]
  rw [if_neg hupright, htangent, Vec.unit_eq_self Way.left.isDirection, hbitangent,
    Vec.unit_eq_self Way.up.isDirection]

/-- A point of the lattice in the plane of a loop that looks down, seen from another one. -/
private theorem flatten_place (p o : Nat × Nat) :
    (PlaneBasis.ofNormal Vec.down).flatten (place p - place o) =
      ⟨-(10 * ((p.1 : ℝ) - o.1)), 10 * (p.2 - o.2)⟩ := by
  rw [ofNormal_down, PlaneBasis.flatten, place_sub, Vec.dot_real, Vec.dot_real]
  simp [Way.direction]

/-- Three points of the lattice that look down turn to the left there. -/
private theorem turn_flatten (o p q r : Nat × Nat) :
    Planar.turn ((PlaneBasis.ofNormal Vec.down).flatten (place p - place o))
      ((PlaneBasis.ofNormal Vec.down).flatten (place q - place o))
      ((PlaneBasis.ofNormal Vec.down).flatten (place r - place o)) = -(100 * area [p, q, r]) := by
  rw [flatten_place, flatten_place, flatten_place, Planar.turn, area_triangle]
  push_cast
  ring

/-- The corners of the square, from any of them on, look down. -/
theorem area_corners_neg {n : Nat} (hn : 0 < n) {a b c d : Nat × Nat}
    (h : [a, b, c, d] ~r corners n) : area [a, b, c] < 0 := by
  have hsq : 0 < (n : Int) * n := Int.mul_pos (Int.natCast_pos.mpr hn) (Int.natCast_pos.mpr hn)
  obtain ⟨k, hk, heq⟩ := List.isRotated_iff_mod.mp h.symm
  have hk : k ≤ 4 := hk
  rw [area_triangle]
  interval_cases k <;> simp only [corners, List.rotate_zero, List.rotate_cons_succ,
    List.cons_append, List.nil_append, List.cons.injEq, and_true] at heq <;>
    obtain ⟨rfl, rfl, rfl, rfl⟩ := heq <;> push_cast <;> linarith

/-- The corners of the square make a strictly convex quadrilateral. -/
private theorem strictlyConvex_flatten {n : Nat} (hn : 0 < n) {a b c d : Nat × Nat}
    (h : [a, b, c, d] ~r corners n) (o : Nat × Nat) :
    StrictlyConvex ((PlaneBasis.ofNormal Vec.down).flatten (place a - place o))
      ((PlaneBasis.ofNormal Vec.down).flatten (place b - place o))
      ((PlaneBasis.ofNormal Vec.down).flatten (place c - place o))
      ((PlaneBasis.ofNormal Vec.down).flatten (place d - place o)) := by
  have hpos : ∀ {p q r : Nat × Nat}, area [p, q, r] < 0 → 0 < -(100 * (area [p, q, r] : ℝ)) := by
    intro p q r hneg
    have hneg : (area [p, q, r] : ℝ) < 0 := by exact_mod_cast hneg
    linarith
  refine .inl ⟨?_, ?_, ?_, ?_⟩
  · rw [turn_flatten]
    exact hpos (area_corners_neg hn h)
  · rw [turn_flatten]
    exact hpos (area_corners_neg hn (List.IsRotated.trans ⟨3, rfl⟩ h))
  · rw [turn_flatten]
    exact hpos (area_corners_neg hn (List.IsRotated.trans ⟨2, rfl⟩ h))
  · rw [turn_flatten]
    exact hpos (area_corners_neg hn (List.IsRotated.trans ⟨1, rfl⟩ h))

private theorem alongDiagonal_fan : AlongDiagonal (List.range 4) (fan 4) :=
  ⟨0, 1, 2, 3, .refl _, ⟨0, 1, 2⟩, ⟨0, 2, 3⟩, .refl _, .refl _, .refl _⟩

/-- **A square is cut in two** along one of its diagonals, by the clipper or as a fan, and both halves
    are wound as the square. -/
theorem halves_cutPolygon [clipper : Clipper ℝ] (hclip : CutsConvex clipper) {n : Nat} (hn : 0 < n)
    {loop : List (Nat × Nat)} (hloop : loop ~r corners n) :
    Halves (List.range 4) (cutPolygon (loop.map place)) := by
  have hdown : area loop < 0 := by
    have hsq : 0 < (n : Int) * n := Int.mul_pos (Int.natCast_pos.mpr hn) (Int.natCast_pos.mpr hn)
    rw [area_eq_of_isRotated hloop, area_corners]
    linarith
  obtain ⟨a, b, c, d, rfl⟩ := List.length_eq_four.mp (hloop.perm.length_eq : loop.length = 4)
  have hcut : cutPolygon ([a, b, c, d].map place) =
      (((Clipper.clip ([a, b, c, d].map fun p =>
        (PlaneBasis.ofNormal Vec.down).flatten (place p - place a))).filter (covers 4)).getD
          (fan 4)).map (facing ([a, b, c, d].map place).toArray Vec.down) := by
    have hnormal := unit?_newellNormal_place hdown
    simp only [List.map_cons, List.map_nil] at hnormal
    simp only [List.map_cons, List.map_nil, cutPolygon, hnormal]
    rfl
  rw [hcut]
  refine halves_facing ?_ fun i j k l hturn => ?_
  · cases hanswer : (Clipper.clip ([a, b, c, d].map fun p =>
        (PlaneBasis.ofNormal Vec.down).flatten (place p - place a))).filter (covers 4) with
    | none => exact alongDiagonal_fan
    | some ts =>
      obtain ⟨hts, hcovers⟩ := Option.filter_eq_some_iff.mp hanswer
      rw [covers, Bool.and_eq_true, beq_iff_eq] at hcovers
      exact hclip _ _ _ _ (strictlyConvex_flatten hn hloop a) ts hts hcovers.1
  · have hlooked : (List.range 4).map (fun i => [a, b, c, d].getD i (0, 0)) = [a, b, c, d] := rfl
    have hcorners := hturn.map fun i => [a, b, c, d].getD i (0, 0)
    rw [hlooked] at hcorners
    exact area_corners_neg hn (hcorners.trans hloop)

end CollisionMesh
