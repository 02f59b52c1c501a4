import CollisionMesh.Proofs.LatticeMesh
import CollisionMesh.Proofs.WholeRegion

namespace CollisionMesh

/-!
# Squares tiled by triangles

However a square of the lattice is tiled by triangles that look down, the passes leave two triangles on
both sides of one of its diagonals: there is no sharp edge, the triangles are one flat region with the
rim of the square as its outline, and of that outline the four corners stay.

* `Tiling` — triangles that tile a square;
* `Tiling.exists_outline`, `Mesh.straighten_sides`, `Tiling.dissolve` — what dissolving leaves of them;
* `Tiling.run` — what all passes leave;
* `Halves.tiling` — the two halves of a square tile it.
-/

/-- Triangles that tile a square of `n` lattice units a side: they look down, run along no edge twice
    and hang together, and their open edges go round along the sides. -/
structure Tiling (n : Nat) (cells : List (Triple (Nat × Nat))) : Prop where
  many : 1 < cells.length
  down : ∀ t ∈ cells, area t.toList < 0
  once : ((cells.map Triple.toList).flatMap cyclicPairs).Nodup
  together : HangTogether (cells.map Triple.toList)
  rim : ∃ loop : List (Nat × Nat), loop.Nodup ∧ corners n ⊆ loop ∧
    (cyclicPairs loop).Perm (openEdges (cells.map Triple.toList)) ∧
      ∀ e ∈ cyclicPairs loop, Side n e.1 e.2

namespace Tiling

variable {n : Nat} {cells : List (Triple (Nat × Nat))}

theorem area_neg (h : Tiling n cells) : ∀ loop ∈ cells.map Triple.toList, area loop < 0 := by
  intro loop hloop
  obtain ⟨t, ht, rfl⟩ := List.mem_map.mp hloop
  exact h.down t ht

/-- The triangles have different corners. -/
theorem nodup (h : Tiling n cells) :
    ∀ loop ∈ cells.map Triple.toList, loop.Nodup ∧ 3 ≤ loop.length := by
  intro loop hloop
  obtain ⟨t, ht, rfl⟩ := List.mem_map.mp hloop
  exact ⟨nodup_of_area_ne_zero (h.down t ht).ne, Nat.le_refl 3⟩

theorem noEdgeTwice (h : Tiling n cells) : NoEdgeTwice (cells.map Triple.toList) := by
  refine ⟨h.once, fun loop hloop e he => ?_⟩
  obtain ⟨hnodup, hlen⟩ := h.nodup loop hloop
  exact not_mem_cyclicPairs_swap hnodup hlen he

/-- **Merging** the triangles of a tiled square leaves one loop along its sides. -/
theorem exists_outline (h : Tiling n cells) (hn : 0 < n) {m : Mesh ℝ}
    (hm : m.Shows (cells.map Triple.toList)) (hnodup : m.vertices.toList.Nodup) {angle : ℝ}
    (hangle : 0 ≤ angle) :
    ∃ (num : Nat × Nat → Nat) (outline : List (Nat × Nat)), Function.Injective num ∧
      (m.mergeRegions angle).faces = [outline.map num] ∧
      (∀ p ∈ outline, m.position (num p) = place p) ∧
      outline.Nodup ∧ corners n ⊆ outline ∧ ∀ e ∈ cyclicPairs outline, Side n e.1 e.2 := by
  obtain ⟨num, hnum, hfaces, hposition⟩ := hm.exists_numbering hnodup
  obtain ⟨rim, hrim, hcorners, hopen, hsides⟩ := h.rim
  have hedges : openEdges m.faces =
      (openEdges (cells.map Triple.toList)).map (Prod.map num num) := by
    rw [hfaces, openEdges_map hnum]
  have hfour : 4 ≤ rim.length := (List.subperm_of_subset (nodup_corners hn) hcorners).length_le
  have hmany : 1 < m.faces.length := by
    rw [hm.length_eq, List.length_map]
    exact h.many
  have hcornered : ∀ face ∈ m.faces, face ≠ [] := by
    intro face hface
    rw [hfaces] at hface
    obtain ⟨loop, hloop, rfl⟩ := List.mem_map.mp hface
    have hlen := (h.nodup loop hloop).2
    rintro hnil
    rw [List.map_eq_nil_iff.mp hnil] at hlen
    exact absurd hlen (by decide)
  -- The rim is a circuit of the open edges, so merging leaves a circuit of them.
  have hcircuit : IsCircuit (openEdges m.faces) (rim.map num) := by
    rw [hedges]
    exact .of_names hnum hrim (Nat.le_of_succ_le hfour) hopen
  obtain ⟨loop, hmerged, hloop⟩ := Mesh.mergeRegions_of_hangTogether
    (fun face hface => hm.normal?_eq h.area_neg hface)
    ((angleBetween_self Vec.isDirection_down).trans_le hangle)
    (hfaces ▸ h.noEdgeTwice.map hnum) hcornered (hfaces ▸ h.together.map num) hmany ⟨_, hcircuit⟩
  rw [hedges] at hloop
  obtain ⟨outline, rfl, houtline, hperm⟩ := hloop.exists_names hnum
  refine ⟨num, outline, hnum, hmerged, ?_, houtline, ?_, ?_⟩
  · intro p hp
    obtain ⟨q, hpq⟩ := exists_edge_from hp
    obtain ⟨hpq, -⟩ := List.mem_filter.mp (hperm.subset hpq)
    obtain ⟨loop, hloop, hpq⟩ := List.mem_flatMap.mp hpq
    exact hposition loop hloop p (mem_of_mem_cyclicPairs hpq).1
  · intro p hp
    obtain ⟨q, hpq⟩ := exists_edge_from (hcorners hp)
    exact (mem_of_mem_cyclicPairs (hperm.symm.subset (hopen.subset hpq))).1
  · intro e he
    exact hsides e (hopen.symm.subset (hperm.subset he))

end Tiling

section Outline

variable {m : Mesh ℝ} {n : Nat} {num : Nat × Nat → Nat} {outline : List (Nat × Nat)}

/-- Of the vertices on the way along the sides four are in corners. -/
private theorem perm_filter_corners (hn : 0 < n) (hnodup : outline.Nodup)
    (hcorners : corners n ⊆ outline) : (outline.filter (· ∈ corners n)).Perm (corners n) := by
  refine (List.perm_ext_iff_of_nodup (hnodup.filter _) (nodup_corners hn)).mpr fun p => ?_
  rw [List.mem_filter, decide_eq_true_iff]
  exact and_iff_right_of_imp fun hp => hcorners hp

/-- The vertices in corners are those with the name of a corner. -/
private theorem atCorner_iff {p : Nat × Nat} (hposition : m.position (num p) = place p) :
    m.AtCorner n (num p) ↔ p ∈ corners n := by
  rw [Mesh.AtCorner, hposition]
  constructor
  · rintro ⟨q, hq, heq⟩
    exact place_injective heq ▸ hq
  · intro hp
    exact ⟨p, hp, rfl⟩

open Classical in
/-- Where no vertex of a loop passes a test, those that are in corners or pass it are those with the
    name of a corner. -/
private theorem filter_atCorner_map (hposition : ∀ p ∈ outline, m.position (num p) = place p)
    (test : Nat → Prop) [DecidablePred test] (htest : ∀ p ∈ outline, ¬ test (num p)) :
    (outline.map num).filter (fun v => m.AtCorner n v ∨ test v) =
      (outline.filter (· ∈ corners n)).map num := by
  rw [List.filter_map]
  refine congrArg _ (List.filter_congr fun p hp => ?_)
  rw [Function.comp_apply, decide_eq_decide, or_iff_left (htest p hp)]
  exact atCorner_iff (hposition p hp)

open Classical in
/-- A loop along the sides of a square has four corners and is bent only there. -/
theorem Mesh.cornered_outline (hn : 0 < n) (hnum : Function.Injective num)
    (hposition : ∀ p ∈ outline, m.position (num p) = place p) (hnodup : outline.Nodup)
    (hcorners : corners n ⊆ outline) (hsides : ∀ e ∈ cyclicPairs outline, Side n e.1 e.2) :
    Cornered (m.Step n) (m.AtCorner n) (outline.map num) := by
  refine ⟨hnodup.map hnum, ?_, ?_⟩
  · rw [loopEdges, cyclicPairs_map]
    intro e he
    obtain ⟨⟨p, q⟩, hpq, rfl⟩ := List.mem_map.mp he
    obtain ⟨hp, hq⟩ := mem_of_mem_cyclicPairs hpq
    exact ⟨p, q, hposition p hp, hposition q hq, hsides _ hpq⟩
  · have hfilter := filter_atCorner_map (n := n) hposition (fun _ => False) fun _ _ => id
    simp only [or_false] at hfilter
    rw [hfilter, List.length_map, (perm_filter_corners hn hnodup hcorners).length_eq]
    exact Nat.le_refl 4

open Classical in
/-- **Straightening** a loop along the sides of a square leaves its corners. -/
theorem Mesh.straighten_sides (hn : 0 < n) (hnum : Function.Injective num)
    (hposition : ∀ p ∈ outline, m.position (num p) = place p)
    (hnodup : outline.Nodup) (hcorners : corners n ⊆ outline)
    (hsides : ∀ e ∈ cyclicPairs outline, Side n e.1 e.2) {angle : ℝ} (hlow : 0 ≤ angle)
    (hhigh : 2 * angle < Real.pi) {k : Nat} (hk : ∀ p ∈ outline, num p < k) :
    ∃ loop, loop ~r corners n ∧ loop ⊆ outline ∧
      straighten (m.isStraight angle) k [outline.map num] = [loop.map num] := by
  have hcornered := m.cornered_outline hn hnum hposition hnodup hcorners hsides
  obtain ⟨hstraight, hrest⟩ := hcornered.straighten (m.sides_of_place hn hlow hhigh) k
  rw [filter_atCorner_map hposition (k ≤ ·) fun p hp => not_le_of_gt (hk p hp)] at hstraight hrest
  refine ⟨_, isRotated_corners hn (perm_filter_corners hn hnodup hcorners) ?_,
    fun p hp => List.mem_of_mem_filter hp, hstraight⟩
  -- What is left runs along the sides, too.
  rintro ⟨p, q⟩ hpq
  have hstep := hrest.edges (num p, num q) (by
    rw [loopEdges, cyclicPairs_map]
    exact List.mem_map_of_mem hpq)
  obtain ⟨u, v, hu, hv, hside⟩ := hstep
  obtain ⟨hp, hq⟩ := mem_of_mem_cyclicPairs hpq
  rw [hposition p (List.mem_of_mem_filter hp)] at hu
  rw [hposition q (List.mem_of_mem_filter hq)] at hv
  rw [place_injective hu, place_injective hv]
  exact hside

end Outline

namespace Tiling

variable {n : Nat} {cells : List (Triple (Nat × Nat))}

/-- **Dissolving** a tiled square leaves its four corners. -/
theorem dissolve [Clipper ℝ] (h : Tiling n cells) (hn : 0 < n) {m : Mesh ℝ}
    (hm : m.Shows (cells.map Triple.toList)) (hnodup : m.vertices.toList.Nodup) {angle : ℝ}
    (hlow : 0 ≤ angle) (hhigh : 2 * angle < Real.pi) :
    ∃ loop, loop ~r corners n ∧ (m.dissolve angle).Shows [loop] := by
  obtain ⟨num, outline, hnum, hmerged, hposition, houtline, hcorners, hsides⟩ :=
    h.exists_outline hn hm hnodup hlow
  have hposition' : ∀ p ∈ outline, (m.mergeRegions angle).position (num p) = place p := hposition
  have hrange : ∀ p ∈ outline, num p < m.vertices.size := by
    intro p hp
    refine Mesh.wellIndexed_mergeRegions hm.wellIndexed angle (outline.map num) ?_ _
      (List.mem_map_of_mem hp)
    rw [hmerged]
    exact List.mem_singleton_self _
  obtain ⟨loop, hloop, hsub, hstraight⟩ := Mesh.straighten_sides hn hnum hposition' houtline hcorners
    hsides hlow hhigh hrange
  refine ⟨loop, hloop, hm.edit (.dissolve angle) ?_⟩
  show (m.dissolved angle).compact.shape = _
  rw [Mesh.shape_compact, Mesh.shape, Mesh.faces_dissolved, hmerged, hstraight, List.map_singleton,
    List.map_singleton, Mesh.positions, List.map_map]
  refine congrArg (fun points => [points]) (List.map_congr_left fun p hp => ?_)
  exact hposition p (hsub hp)

/-- **All passes.** However a square is tiled by triangles, what is left are two triangles on both sides
    of one of its diagonals. -/
theorem run [clipper : Clipper ℝ] (hclip : CutsConvex clipper) (h : Tiling n cells) (hn : 0 < n)
    {t : Tolerances ℝ} (ht : t.Fine) {m : Mesh ℝ} (hm : m.Shows (cells.map Triple.toList)) :
    ∃ m' halves, m.run t.passes = .ok m' ∧ Halves (corners n) halves ∧
      m'.Shows (halves.map Triple.toList) := by
  have hcells : cells.map Triple.toList ≠ [] := by
    rw [← List.length_pos_iff, List.length_map]
    exact Nat.lt_of_succ_lt h.many
  have hwelded := hm.weld h.nodup ht.weldDistance_lt
  have hnodup := Mesh.nodup_vertices_weld hm.wellIndexed (m.close t.weldDistance)
  have hsplit := hwelded.splitEdges_eq h.area_neg ht.splitAngle_nonneg
  obtain ⟨loop, hloop, hdissolved⟩ :=
    h.dissolve hn hwelded hnodup ht.dissolveAngle_nonneg ht.dissolveAngle_lt
  -- The corners of the square are not welded either.
  have hsquare : ∀ l ∈ [loop], l.Nodup ∧ 3 ≤ l.length := by
    intro l hl
    obtain rfl := List.mem_singleton.mp hl
    refine ⟨hloop.nodup_iff.mpr (nodup_corners hn), ?_⟩
    rw [hloop.perm.length_eq]
    exact Nat.le_succ 3
  have hagain := hdissolved.weld hsquare ht.weldDistance_lt
  obtain ⟨halves, hhalves, hcut⟩ := hagain.triangulate hclip hn hloop
  refine ⟨_, halves, ?_, hhalves, hcut⟩
  rw [Tolerances.passes, Mesh.run_cons_of_ne_nil (hm.faces_ne_nil hcells)]
  show Mesh.run _ (m.weld t.weldDistance) = _
  rw [Mesh.run_cons_of_ne_nil (hwelded.faces_ne_nil hcells)]
  show Mesh.run _ ((m.weld t.weldDistance).splitEdges t.splitAngle) = _
  rw [hsplit, Mesh.run_cons_of_ne_nil (hwelded.faces_ne_nil hcells)]
  show Mesh.run _ ((m.weld t.weldDistance).dissolve t.dissolveAngle) = _
  rw [Mesh.run_cons_of_ne_nil (hdissolved.faces_ne_nil (List.cons_ne_nil _ _))]
  show Mesh.run _ (((m.weld t.weldDistance).dissolve t.dissolveAngle).weld t.weldDistance) = _
  rw [Mesh.run_cons_of_ne_nil (hagain.faces_ne_nil (List.cons_ne_nil _ _))]
  rfl

end Tiling

/-! ### Two halves tile a square -/

/-- Triangles tile a square in any order. -/
theorem Tiling.perm {n : Nat} {cells cells' : List (Triple (Nat × Nat))} (h : Tiling n cells)
    (hperm : cells'.Perm cells) : Tiling n cells' := by
  have hloops := hperm.map Triple.toList
  have hedges := hloops.flatMap_right cyclicPairs
  obtain ⟨rim, hrim, hcorners, hopen, hsides⟩ := h.rim
  exact ⟨hperm.length_eq ▸ h.many, fun t ht => h.down t (hperm.subset ht),
    hedges.nodup_iff.mpr h.once, h.together.perm hloops,
    rim, hrim, hcorners, hopen.trans (openEdges_perm hedges).symm, hsides⟩

section Diagonal

variable {β : Type} {a b c d : β}

private theorem ne_of_nodup_four (h : [a, b, c, d].Nodup) :
    a ≠ b ∧ a ≠ c ∧ a ≠ d ∧ b ≠ c ∧ b ≠ d ∧ c ≠ d := by
  simp only [List.nodup_cons, List.mem_cons, List.not_mem_nil, or_false, not_or, not_false_eq_true,
    List.nodup_nil, and_true] at h
  obtain ⟨⟨hab, hac, had⟩, ⟨hbc, hbd⟩, hcd⟩ := h
  exact ⟨hab, hac, had, hbc, hbd, hcd⟩

/-- Two triangles on both sides of a diagonal run along different edges. -/
theorem nodup_edges_pair (h : [a, b, c, d].Nodup) :
    ([[a, b, c], [a, c, d]].flatMap cyclicPairs).Nodup := by
  obtain ⟨hab, hac, had, hbc, hbd, hcd⟩ := ne_of_nodup_four h
  simp [cyclicPairs, hab, hac, had, hbc, hcd, hab.symm, hac.symm, had.symm]

/-- Their open edges go round both. -/
theorem openEdges_pair [DecidableEq β] (h : [a, b, c, d].Nodup) :
    openEdges [[a, b, c], [a, c, d]] = cyclicPairs [a, b, c, d] := by
  obtain ⟨hab, hac, had, hbc, hbd, hcd⟩ := ne_of_nodup_four h
  simp [openEdges, cyclicPairs, hab, hac, had, hbc, hbd, hcd, hab.symm, hac.symm,
    had.symm, hbc.symm, hbd.symm, hcd.symm]

end Diagonal

/-- **Two halves tile a square**, along whichever diagonal. -/
theorem Halves.tiling {n : Nat} (hn : 0 < n) {ts : List (Triple (Nat × Nat))}
    (h : Halves (corners n) ts) : Tiling n ts := by
  obtain ⟨a, b, c, d, hloop, s, t, hperm, hs, ht⟩ := h
  refine Tiling.perm ?_ hperm
  have hnodup : [a, b, c, d].Nodup := hloop.nodup_iff.mpr (nodup_corners hn)
  have hedges : (([s, t].map Triple.toList).flatMap cyclicPairs).Perm
      ([[a, b, c], [a, c, d]].flatMap cyclicPairs) :=
    (perm_cyclicPairs hs).append
      ((perm_cyclicPairs ht).append (.refl []))
  have htogether : HangTogether ([s, t].map Triple.toList) := by
    have hacross : Across ([s, t].map Triple.toList) s.toList t.toList := by
      refine ⟨by simp, by simp, (c, a), ?_, ?_⟩
      · exact (perm_cyclicPairs hs).symm.subset (by simp [cyclicPairs])
      · exact (perm_cyclicPairs ht).symm.subset (by simp [cyclicPairs])
    have hall : ∀ loop ∈ [s, t].map Triple.toList,
        Relation.ReflTransGen (Across ([s, t].map Triple.toList)) s.toList loop := by
      intro loop hloop
      rcases List.mem_pair.mp hloop with rfl | rfl
      · exact .refl
      · exact .single hacross
    exact HangTogether.of_first hall
  refine ⟨Nat.lt_succ_self 1, ?_, hedges.nodup_iff.mpr (nodup_edges_pair hnodup), htogether,
    [a, b, c, d], hnodup, hloop.perm.symm.subset, ?_, ?_⟩
  · intro x hx
    rcases List.mem_pair.mp hx with rfl | rfl
    · rw [area_eq_of_isRotated hs]
      exact area_corners_neg hn hloop
    · rw [area_eq_of_isRotated (ht.trans ⟨1, rfl⟩ : x.toList ~r [c, d, a])]
      exact area_corners_neg hn (List.IsRotated.trans ⟨2, rfl⟩ hloop)
  · rw [← openEdges_pair hnodup]
    exact (openEdges_perm hedges).symm
  · intro e he
    exact side_of_mem_corners hn e ((perm_cyclicPairs hloop).subset he)

end CollisionMesh
