import CollisionMesh.Proofs.Scene
import CollisionMesh.Proofs.Tiling

namespace CollisionMesh

/-!
# Flat grids collapse to two triangles

A grid of squares, each cut into two triangles, tiles a larger square, and so do the two halves of that
square. So a flat grid of any size becomes two triangles, and stays two triangles when it is simplified
again.

* `grid`, `mem_openEdges_grid` — the triangles of a grid, and its open edges;
* `border`, `mem_cyclicPairs_border` — the way round the grid;
* `hangTogether_grid`, `tiling_grid` — the triangles tile a square;
* `SplitsSquare` — what is read back of a square in two halves;
* `Scene.simplify_grid` — grids of any size.
-/

/-! ### The triangles of a grid -/

/-- The two triangles of a square of the grid. -/
def gridSquare (col row : Nat) : List (Triple (Nat × Nat)) :=
  let tl := (col, row)
  let tr := (col + 1, row)
  let bl := (col, row + 1)
  let br := (col + 1, row + 1)
  [⟨tl, bl, tr⟩, ⟨tr, bl, br⟩]

/-- The triangles of a grid with `n` rows of `n` squares each. -/
def grid (n : Nat) : List (Triple (Nat × Nat)) :=
  (List.range n ×ˢ List.range n).flatMap fun p => gridSquare p.2 p.1

/-- The edges of the two triangles of a square, in their order. -/
def squareEdges (i j : Nat) : List ((Nat × Nat) × (Nat × Nat)) :=
  [((i, j), (i, j + 1)), ((i, j + 1), (i + 1, j)), ((i + 1, j), (i, j)),
    ((i + 1, j), (i, j + 1)), ((i, j + 1), (i + 1, j + 1)), ((i + 1, j + 1), (i + 1, j))]

section Edges

variable {n : Nat} {e : (Nat × Nat) × (Nat × Nat)}

theorem edges_grid (n : Nat) : ((grid n).map Triple.toList).flatMap cyclicPairs =
    (List.range n ×ˢ List.range n).flatMap fun p => squareEdges p.2 p.1 := by
  rw [grid, List.map_flatMap, List.flatMap_assoc]
  rfl

theorem mem_edges_grid :
    e ∈ ((grid n).map Triple.toList).flatMap cyclicPairs ↔
      ∃ i j, i < n ∧ j < n ∧ e ∈ squareEdges i j := by
  rw [edges_grid, List.mem_flatMap]
  constructor
  · rintro ⟨⟨j, i⟩, hp, he⟩
    obtain ⟨hj, hi⟩ := List.mem_product.mp hp
    exact ⟨i, j, List.mem_range.mp hi, List.mem_range.mp hj, he⟩
  · rintro ⟨i, j, hi, hj, he⟩
    exact ⟨(j, i), List.mem_product.mpr ⟨List.mem_range.mpr hj, List.mem_range.mpr hi⟩, he⟩

/-- No two edges of the grid are the same: their direction tells which of the six edges of a square
    they are, and their start which square. -/
theorem nodup_edges_grid (n : Nat) : (((grid n).map Triple.toList).flatMap cyclicPairs).Nodup := by
  rw [edges_grid, List.nodup_flatMap]
  constructor
  · rintro ⟨j, i⟩ -
    simp [squareEdges]
  · refine (List.nodup_range.product List.nodup_range).imp ?_
    rintro ⟨j, i⟩ ⟨j', i'⟩ hne ⟨⟨a, b⟩, ⟨c, d⟩⟩ he he'
    refine hne ?_
    simp only [squareEdges, List.mem_cons, List.not_mem_nil, or_false, Prod.mk.injEq] at he he' ⊢
    omega

/-- **Open edges.** No triangle of the grid runs back along an edge on the side of the square. Across
    any other edge lies the other triangle of the same square or one of the next. -/
theorem mem_openEdges_grid : e ∈ openEdges ((grid n).map Triple.toList) ↔
    ∃ i < n, e = ((0, i), (0, i + 1)) ∨ e = ((i, n), (i + 1, n)) ∨
      e = ((n, i + 1), (n, i)) ∨ e = ((i + 1, 0), (i, 0)) := by
  rw [mem_openEdges, mem_edges_grid, mem_edges_grid]
  obtain ⟨⟨x, y⟩, ⟨x', y'⟩⟩ := e
  simp only [squareEdges, List.mem_cons, List.not_mem_nil, or_false, Prod.mk.injEq, Prod.swap_prod_mk]
  constructor
  · rintro ⟨⟨i, j, hi, hj, he⟩, hopen⟩
    rcases he with he | he | he | he | he | he
    · rcases Nat.eq_zero_or_pos i with hzero | hpos
      · exact ⟨j, hj, by omega⟩
      · exact absurd ⟨i - 1, j, by omega, hj, by omega⟩ hopen
    · exact absurd ⟨i, j, hi, hj, by omega⟩ hopen
    · rcases Nat.eq_zero_or_pos j with hzero | hpos
      · exact ⟨i, hi, by omega⟩
      · exact absurd ⟨i, j - 1, hi, by omega, by omega⟩ hopen
    · exact absurd ⟨i, j, hi, hj, by omega⟩ hopen
    · rcases Nat.eq_or_lt_of_le (Nat.succ_le_of_lt hj) with hlast | hlt
      · exact ⟨i, hi, by omega⟩
      · exact absurd ⟨i, j + 1, hi, hlt, by omega⟩ hopen
    · rcases Nat.eq_or_lt_of_le (Nat.succ_le_of_lt hi) with hlast | hlt
      · exact ⟨j, hj, by omega⟩
      · exact absurd ⟨i + 1, j, hlt, hj, by omega⟩ hopen
  · rintro ⟨i, hi, he⟩
    refine ⟨?_, ?_⟩
    · rcases he with he | he | he | he
      · exact ⟨0, i, by omega, hi, by omega⟩
      · exact ⟨i, n - 1, hi, by omega, by omega⟩
      · exact ⟨n - 1, i, by omega, hi, by omega⟩
      · exact ⟨i, 0, hi, by omega, by omega⟩
    · rintro ⟨i', j', hi', hj', hback⟩
      omega

end Edges

/-! ### The way round the grid -/

/-- The corners that the way round the grid passes, by their number. -/
def border (n k : Nat) : Nat × Nat :=
  if k < n then (0, k) else if k < 2 * n then (k - n, n)
  else if k < 3 * n then (n, 3 * n - k) else (4 * n - k, 0)

section Border

variable {n i : Nat}

theorem border_up (hi : i ≤ n) : border n i = (0, i) := by
  unfold border
  split_ifs <;> rw [Prod.mk.injEq] <;> omega

theorem border_right (hi : i ≤ n) : border n (n + i) = (i, n) := by
  unfold border
  split_ifs <;> rw [Prod.mk.injEq] <;> omega

theorem border_down (hi : i ≤ n) : border n (2 * n + i) = (n, n - i) := by
  unfold border
  split_ifs <;> rw [Prod.mk.injEq] <;> omega

theorem border_left (hi : i ≤ n) : border n (3 * n + i) = (n - i, 0) := by
  unfold border
  split_ifs <;> rw [Prod.mk.injEq] <;> omega

/-- The numbers on the way round, side by side. -/
theorem exists_side_of_lt {n k : Nat} (hk : k < 4 * n) :
    ∃ i < n, k = i ∨ k = n + i ∨ k = 2 * n + i ∨ k = 3 * n + i := by
  rcases Nat.lt_or_ge k n with h₁ | h₁
  · exact ⟨k, h₁, .inl rfl⟩
  rcases Nat.lt_or_ge k (2 * n) with h₂ | h₂
  · exact ⟨k - n, by omega, by omega⟩
  rcases Nat.lt_or_ge k (3 * n) with h₃ | h₃
  · exact ⟨k - 2 * n, by omega, by omega⟩
  · exact ⟨k - 3 * n, by omega, by omega⟩

/-- No corner is passed twice. -/
theorem nodup_border (n : Nat) : ((List.range (4 * n)).map (border n)).Nodup := by
  refine List.Nodup.map_on (fun k hk k' hk' heq => ?_) List.nodup_range
  obtain ⟨i, hi, hside⟩ := exists_side_of_lt (List.mem_range.mp hk)
  obtain ⟨i', hi', hside'⟩ := exists_side_of_lt (List.mem_range.mp hk')
  rcases hside with rfl | rfl | rfl | rfl <;> rcases hside' with rfl | rfl | rfl | rfl <;>
    simp only [border_up, border_right, border_down, border_left, hi.le, hi'.le,
      Prod.mk.injEq] at heq <;> omega

/-- The edges on the way round. -/
theorem mem_cyclicPairs_border {e : (Nat × Nat) × (Nat × Nat)} :
    e ∈ cyclicPairs ((List.range (4 * n)).map (border n)) ↔
      ∃ i < n, e = ((0, i), (0, i + 1)) ∨ e = ((i, n), (i + 1, n)) ∨
        e = ((n, i + 1), (n, i)) ∨ e = ((i + 1, 0), (i, 0)) := by
  have hclosed : border n (4 * n) = border n 0 := by
    rw [show 4 * n = 3 * n + n by omega, border_left (Nat.le_refl n), Nat.sub_self,
      border_up (Nat.zero_le n)]
  obtain ⟨a, b⟩ := e
  rw [mem_cyclicPairs_map_range hclosed]
  constructor
  · rintro ⟨k, hk, rfl, rfl⟩
    obtain ⟨i, hi, rfl | rfl | rfl | rfl⟩ := exists_side_of_lt hk
    · rw [border_up hi.le, border_up hi]
      exact ⟨k, hi, .inl rfl⟩
    · rw [Nat.add_assoc, border_right hi.le, border_right hi]
      exact ⟨i, hi, .inr (.inl rfl)⟩
    · rw [Nat.add_assoc, border_down hi.le, border_down hi]
      refine ⟨n - (i + 1), by omega, .inr (.inr (.inl ?_))⟩
      rw [show n - (i + 1) + 1 = n - i by omega]
    · rw [Nat.add_assoc, border_left hi.le, border_left hi]
      refine ⟨n - (i + 1), by omega, .inr (.inr (.inr ?_))⟩
      rw [show n - (i + 1) + 1 = n - i by omega]
  · rintro ⟨i, hi, he⟩
    simp only [Prod.mk.injEq] at he
    have hrest : n - (n - (i + 1)) = i + 1 ∧ n - (n - (i + 1) + 1) = i := by omega
    rcases he with ⟨rfl, rfl⟩ | ⟨rfl, rfl⟩ | ⟨rfl, rfl⟩ | ⟨rfl, rfl⟩
    · exact ⟨i, by omega, border_up hi.le, border_up hi⟩
    · exact ⟨n + i, by omega, border_right hi.le, border_right hi⟩
    · refine ⟨2 * n + (n - (i + 1)), by omega, ?_, ?_⟩
      · rw [border_down (Nat.sub_le n (i + 1)), hrest.1]
      · rw [Nat.add_assoc, border_down (by omega), hrest.2]
    · refine ⟨3 * n + (n - (i + 1)), by omega, ?_, ?_⟩
      · rw [border_left (Nat.sub_le n (i + 1)), hrest.1]
      · rw [Nat.add_assoc, border_left (by omega), hrest.2]

end Border

/-! ### The grid tiles a square -/

section Tiles

variable {n : Nat}

theorem mem_grid {t : Triple (Nat × Nat)} :
    t ∈ grid n ↔ ∃ i j, i < n ∧ j < n ∧ t ∈ gridSquare i j := by
  rw [grid, List.mem_flatMap]
  constructor
  · rintro ⟨⟨j, i⟩, hp, ht⟩
    obtain ⟨hj, hi⟩ := List.mem_product.mp hp
    exact ⟨i, j, List.mem_range.mp hi, List.mem_range.mp hj, ht⟩
  · rintro ⟨i, j, hi, hj, ht⟩
    exact ⟨(j, i), List.mem_product.mpr ⟨List.mem_range.mpr hj, List.mem_range.mpr hi⟩, ht⟩

/-- All triangles of the grid look down. -/
theorem area_grid {t : Triple (Nat × Nat)} (h : t ∈ grid n) : area t.toList < 0 := by
  obtain ⟨i, j, -, -, ht⟩ := mem_grid.mp h
  rcases List.mem_pair.mp ht with rfl | rfl <;> rw [Triple.toList, area_triangle] <;> push_cast <;>
    linarith

theorem length_grid (n : Nat) : (grid n).length = n * n * 2 := by
  have htwo : ∀ p ∈ List.range n ×ˢ List.range n, (gridSquare p.2 p.1).length = 2 := fun _ _ => rfl
  rw [grid, List.length_flatMap, List.map_congr_left htwo, List.map_const', List.sum_replicate,
    smul_eq_mul, List.length_product, List.length_range]

/-! The loops of the grid by the lower and the upper triangle of each square. -/

private theorem lower_mem_grid {i j : Nat} (hi : i < n) (hj : j < n) :
    [(i, j), (i, j + 1), (i + 1, j)] ∈ (grid n).map Triple.toList :=
  List.mem_map.mpr ⟨_, mem_grid.mpr ⟨i, j, hi, hj, List.mem_cons_self⟩, rfl⟩

private theorem upper_mem_grid {i j : Nat} (hi : i < n) (hj : j < n) :
    [(i + 1, j), (i, j + 1), (i + 1, j + 1)] ∈ (grid n).map Triple.toList :=
  List.mem_map.mpr ⟨_, mem_grid.mpr ⟨i, j, hi, hj, List.mem_cons_of_mem _ List.mem_cons_self⟩, rfl⟩

/-- The two triangles of a square lie side by side. -/
private theorem across_square {i j : Nat} (hi : i < n) (hj : j < n) :
    Across ((grid n).map Triple.toList) [(i, j), (i, j + 1), (i + 1, j)]
      [(i + 1, j), (i, j + 1), (i + 1, j + 1)] :=
  ⟨lower_mem_grid hi hj, upper_mem_grid hi hj, ((i, j + 1), (i + 1, j)), by simp [cyclicPairs],
    by simp [cyclicPairs]⟩

/-- So do the upper one and the lower one of the next square in the row, -/
private theorem across_row {i j : Nat} (hi : i + 1 < n) (hj : j < n) :
    Across ((grid n).map Triple.toList) [(i + 1, j), (i, j + 1), (i + 1, j + 1)]
      [(i + 1, j), (i + 1, j + 1), (i + 1 + 1, j)] :=
  ⟨upper_mem_grid (Nat.lt_of_succ_lt hi) hj, lower_mem_grid hi hj, ((i + 1, j + 1), (i + 1, j)),
    by simp [cyclicPairs], by simp [cyclicPairs]⟩

/-- and that of the next square in the column. -/
private theorem across_column {i j : Nat} (hi : i < n) (hj : j + 1 < n) :
    Across ((grid n).map Triple.toList) [(i + 1, j), (i, j + 1), (i + 1, j + 1)]
      [(i, j + 1), (i, j + 1 + 1), (i + 1, j + 1)] :=
  ⟨upper_mem_grid hi (Nat.lt_of_succ_lt hj), lower_mem_grid hi hj, ((i, j + 1), (i + 1, j + 1)),
    by simp [cyclicPairs], by simp [cyclicPairs]⟩

/-- A way to each lower triangle: along the first row, and then down the column. -/
private theorem lower_reached {i j : Nat} (hi : i < n) (hj : j < n) :
    Relation.ReflTransGen (Across ((grid n).map Triple.toList)) [(0, 0), (0, 1), (1, 0)]
      [(i, j), (i, j + 1), (i + 1, j)] := by
  induction j with
  | zero =>
    induction i with
    | zero => exact .refl
    | succ i ih =>
      have hi' := Nat.lt_of_succ_lt hi
      exact ((ih hi').tail (across_square hi' hj)).tail (across_row hi hj)
  | succ j ih =>
    have hj' := Nat.lt_of_succ_lt hj
    exact ((ih hj').tail (across_square hi hj')).tail (across_column hi hj)

/-- **The grid hangs together.** From a triangle to the other one of its square, and from there to the
    next square in the row or in the column. -/
theorem hangTogether_grid (n : Nat) : HangTogether ((grid n).map Triple.toList) := by
  have hall : ∀ loop ∈ (grid n).map Triple.toList, Relation.ReflTransGen
      (Across ((grid n).map Triple.toList)) [(0, 0), (0, 1), (1, 0)] loop := by
    intro loop hloop
    obtain ⟨t, ht, rfl⟩ := List.mem_map.mp hloop
    obtain ⟨i, j, hi, hj, ht⟩ := mem_grid.mp ht
    rcases List.mem_pair.mp ht with rfl | rfl
    · exact lower_reached hi hj
    · exact (lower_reached hi hj).tail (across_square hi hj)
  exact HangTogether.of_first hall

/-- **A grid tiles a square.** -/
theorem tiling_grid (hn : 0 < n) : Tiling n (grid n) := by
  refine ⟨?_, fun t ht => area_grid ht, nodup_edges_grid n, hangTogether_grid n,
    (List.range (4 * n)).map (border n), nodup_border n, ?_, ?_, ?_⟩
  · have hsq : 0 < n * n := Nat.mul_pos hn hn
    rw [length_grid]
    omega
  · have hpassed : ∀ k < 4 * n, border n k ∈ (List.range (4 * n)).map (border n) :=
      fun k hk => List.mem_map_of_mem (List.mem_range.mpr hk)
    have hup := hpassed 0 (by omega)
    have hright := hpassed (n + 0) (by omega)
    have hdown := hpassed (2 * n + 0) (by omega)
    have hleft := hpassed (3 * n + 0) (by omega)
    rw [border_up (Nat.zero_le n)] at hup
    rw [border_right (Nat.zero_le n)] at hright
    rw [border_down (Nat.zero_le n)] at hdown
    rw [border_left (Nat.zero_le n)] at hleft
    simp only [corners, List.cons_subset, List.nil_subset, and_true]
    exact ⟨hup, hright, hdown, hleft⟩
  · refine (List.perm_ext_iff_of_nodup (nodup_cyclicPairs (nodup_border n))
      ((nodup_edges_grid n).filter _)).mpr fun e => ?_
    rw [mem_cyclicPairs_border]
    exact mem_openEdges_grid.symm
  · intro e he
    obtain ⟨i, hi, rfl | rfl | rfl | rfl⟩ := mem_cyclicPairs_border.mp he
    · exact ⟨.up, rfl, rfl, Nat.lt_succ_self i, hi⟩
    · exact ⟨.right, rfl, rfl, Nat.lt_succ_self i, hi⟩
    · exact ⟨.down, rfl, rfl, Nat.lt_succ_self i, hi⟩
    · exact ⟨.left, rfl, rfl, Nat.lt_succ_self i, hi⟩

end Tiles

/-! ### Simplifying a grid -/

section Simplifying

variable {n : Nat}

/-- The triangles among the faces that were read back. -/
def trianglesOf (faces : List (EditorFace ℝ)) : List (Triple (Point ℝ)) :=
  faces.filterMap fun face =>
    match face.positions with
    | [a, b, c] => some ⟨a, b, c⟩
    | _ => none

/-- Faces that split the square: two triangles on both sides of one of its diagonals, wound as the
    square. -/
structure SplitsSquare (n : Nat) (faces : List (EditorFace ℝ)) : Prop where
  two : faces.length = 2
  three : ∀ face ∈ faces, face.indices.length = 3
  halves : Halves (squareCorners n) (trianglesOf faces)

/-- A mesh that shows two halves is read back as such. -/
theorem Mesh.Shows.splitsSquare {m : Mesh ℝ} {halves : List (Triple (Nat × Nat))}
    (h : m.Shows (halves.map Triple.toList)) (hhalves : Halves (corners n) halves) :
    SplitsSquare n m.readBack ∧ trianglesOf m.readBack = halves.map (Triple.map place) := by
  have htriangles : trianglesOf m.readBack = halves.map (Triple.map place) := by
    have hshape : trianglesOf m.readBack = m.shape.filterMap fun points =>
        match points with
        | [a, b, c] => some ⟨a, b, c⟩
        | _ => none := by
      rw [trianglesOf, Mesh.readBack, Mesh.shape, List.filterMap_map, List.filterMap_map]
      rfl
    rw [hshape, h.shape_eq, List.map_map, List.filterMap_map]
    exact congrFun (List.filterMap_eq_map (f := Triple.map place)) halves
  have htwo : halves.length = 2 := by
    obtain ⟨a, b, c, d, -, s, t, hperm, -⟩ := hhalves
    exact hperm.length_eq
  refine ⟨⟨?_, fun face hface => ?_, ?_⟩, htriangles⟩
  · rw [Mesh.readBack, List.length_map, h.length_eq, List.length_map, htwo]
  · obtain ⟨face, hmem, rfl⟩ := List.mem_map.mp hface
    obtain ⟨loop, hloop, heq⟩ := h.exists_loop hmem
    obtain ⟨t, -, rfl⟩ := List.mem_map.mp hloop
    have hlen := congrArg List.length heq
    rwa [Mesh.positions, List.length_map, List.length_map] at hlen
  · rw [htriangles, ← map_place_corners]
    exact hhalves.map place

/-- **A tiled square is simplified** to two triangles. -/
theorem Scene.simplify_tiling [clipper : Clipper ℝ] (hclip : CutsConvex clipper) (hn : 0 < n)
    {cells : List (Triple (Nat × Nat))} (h : Tiling n cells) {scene : Scene ℝ}
    (hs : scene.Reached) :
    ∃ faces halves, (simplify Tolerances.standard.exactly
        (TriangleMesh.ofTriangles (cells.map (Triple.map place))) scene).1 = .ok faces ∧
      SplitsSquare n faces ∧ Halves (corners n) halves ∧
        trianglesOf faces = halves.map (Triple.map place) := by
  have hshown := shows_ofTriangles cells
  obtain ⟨m, halves, hrun, hhalves, hm⟩ := h.run hclip hn fine_standard hshown
  obtain ⟨hsplits, htriangles⟩ := hm.splitsSquare hhalves
  refine ⟨m.readBack, halves, ?_, hsplits, hhalves, htriangles⟩
  rw [Scene.simplify_eq hs.sound _ hshown.wellIndexed, TriangleMesh.simplified, hrun]
  rfl

/-- **Flat grids collapse to two triangles.** Whatever the clipper is like, as long as it cuts strictly
    convex quadrilaterals in two along a diagonal if in two at all, and whatever the scene was asked
    before: the triangles of a grid of any size, in any order, are simplified to two triangles on both
    sides of a diagonal of the square, and these again to such two triangles. -/
theorem Scene.simplify_grid [clipper : Clipper ℝ] (hclip : CutsConvex clipper) (hn : 1 ≤ n)
    {cells : List (Triple (Nat × Nat))} (hcells : cells.Perm (grid n)) {scene : Scene ℝ}
    (hs : scene.Reached) :
    ∃ faces, (simplify Tolerances.standard.exactly
        (TriangleMesh.ofTriangles (cells.map (Triple.map place))) scene).1 = .ok faces ∧
      SplitsSquare n faces ∧
      ∀ later : Scene ℝ, later.Reached →
        ∃ faces', (simplify Tolerances.standard.exactly
            (TriangleMesh.ofTriangles (trianglesOf faces)) later).1 = .ok faces' ∧
          SplitsSquare n faces' := by
  obtain ⟨faces, halves, hsimplified, hsplits, hhalves, htriangles⟩ :=
    simplify_tiling hclip hn ((tiling_grid hn).perm hcells) hs
  refine ⟨faces, hsimplified, hsplits, fun later hlater => ?_⟩
  obtain ⟨faces', -, hagain, hsplits', -, -⟩ :=
    simplify_tiling hclip hn (hhalves.tiling hn) hlater
  rw [htriangles]
  exact ⟨faces', hagain, hsplits'⟩

/-- A clipper that knows quadrilaterals only, and cuts them as ears are clipped from a square. -/
@[reducible] def squareClipper : Clipper ℝ where
  clip corners := if corners.length = 4 then some [⟨2, 3, 0⟩, ⟨0, 1, 2⟩] else none

theorem cutsConvex_squareClipper : CutsConvex squareClipper := by
  intro p q r s _ ts hts _
  obtain rfl : [⟨2, 3, 0⟩, ⟨0, 1, 2⟩] = ts := Option.some.inj hts
  exact ⟨2, 3, 0, 1, ⟨2, rfl⟩, _, _, .refl _, .refl _, (by decide)⟩

/-- The eight triangles of four squares, in a new scene. -/
theorem Scene.simplify_grid_four_squares :
    letI : Clipper ℝ := squareClipper
    CutsConvex squareClipper ∧ 1 ≤ 2 ∧ (grid 2).Perm (grid 2) ∧ (Scene.new : Scene ℝ).Reached ∧
      ∃ faces, (simplify Tolerances.standard.exactly
          (TriangleMesh.ofTriangles ((grid 2).map (Triple.map place)))
          (Scene.new : Scene ℝ)).1 = .ok faces ∧
        SplitsSquare 2 faces ∧
        ∀ later : Scene ℝ, later.Reached →
          ∃ faces', (simplify Tolerances.standard.exactly
              (TriangleMesh.ofTriangles (trianglesOf faces)) later).1 = .ok faces' ∧
            SplitsSquare 2 faces' :=
  letI : Clipper ℝ := squareClipper
  ⟨cutsConvex_squareClipper, by decide, .refl _, .new,
    Scene.simplify_grid cutsConvex_squareClipper (by decide) (.refl (grid 2)) .new⟩

end Simplifying

end CollisionMesh
