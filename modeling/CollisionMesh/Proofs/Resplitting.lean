import CollisionMesh.Proofs.Cutting
import CollisionMesh.Proofs.SideBySide

namespace CollisionMesh

/-!
# Splitting again

Faces that are hinged stay so around the vertex that their fan takes: all faces along an edge
that is no crease take the same vertices at its ends, so the edge has the same faces as before,
and splitting turns none of them. So after splitting the faces around every vertex are one fan,
and a second time nothing is left to split, also where a crease is.

* `Mesh.alongside_splitEdges_of_not_sharp`, `Mesh.not_sharp_splitEdges` — edges that are no creases;
* `Mesh.Hinged.splitEdges`, `Mesh.SameFan.splitEdges` — fans after splitting;
* `Mesh.gathered_splitEdges` — around every vertex there is one;
* `Mesh.splitEdges_of_gathered` — splitting leaves such a mesh as it is;
* `Mesh.apply_edgeSplit_again` — splitting a split mesh.
-/

namespace Mesh

variable {α : Type} [Scalar α] {angle : α} {m : Mesh α} {v f g : Nat} {d : Nat × Nat}

/-! ### Edges that are no creases -/

/-- An edge that is not sharp keeps all its faces. -/
theorem alongside_splitEdges_of_not_sharp (hm : m.WellIndexed) (hsharp : ∃ e, m.Sharp angle e)
    (hd : d ∈ loopEdges (m.faces.toArray.getD f [])) (hnot : ¬ m.Sharp angle d) :
    (m.splitEdges angle).alongside (d.map (m.fanVertex angle f) (m.fanVertex angle f))
      = m.alongside d := by
  classical
  have hf : f ∈ m.alongside d := mem_alongside.mpr ⟨d, hd, .inl rfl⟩
  rw [alongside_splitEdges hm hsharp hd, List.filter_eq_self]
  exact fun k hk => decide_eq_true (bridged_of_not_sharp hf hk hnot)

/-- So it does not become sharp. -/
theorem not_sharp_splitEdges (hm : m.WellIndexed) (hsharp : ∃ e, m.Sharp angle e)
    (hd : d ∈ loopEdges (m.faces.toArray.getD f [])) (hnot : ¬ m.Sharp angle d) :
    ¬ (m.splitEdges angle).Sharp angle (d.map (m.fanVertex angle f) (m.fanVertex angle f)) := by
  rintro ⟨a, b, halong, hne, hapart⟩
  rw [alongside_splitEdges_of_not_sharp hm hsharp hd hnot] at halong
  rw [direction?_splitEdges hm, direction?_splitEdges hm] at hapart
  exact hnot ⟨a, b, halong, hne, hapart⟩

/-! ### Fans after splitting -/

/-- Hinged faces stay hinged around the vertex that they take. -/
theorem Hinged.splitEdges (hm : m.WellIndexed) (hsharp : ∃ e, m.Sharp angle e)
    (h : m.Hinged angle v f g) :
    (m.splitEdges angle).Hinged angle (m.fanVertex angle f v) f g := by
  obtain ⟨e, hv, hf, hg, hnot⟩ := h
  -- The edge as the first face has it, in one direction or the other.
  obtain ⟨d, hd, hde⟩ := mem_alongside.mp hf
  have hside : side d = side e := side_eq_side_iff.mpr hde
  have hvd : d.1 = v ∨ d.2 = v := by
    rcases hde with rfl | rfl
    · exact hv
    · exact hv.symm
  rw [← alongside_congr hside] at hf hg
  rw [← sharp_congr hside] at hnot
  have halong := alongside_splitEdges_of_not_sharp hm hsharp hd hnot
  refine ⟨d.map (m.fanVertex angle f) (m.fanVertex angle f), ?_, halong ▸ hf, halong ▸ hg,
    not_sharp_splitEdges hm hsharp hd hnot⟩
  exact hvd.imp (congrArg (m.fanVertex angle f)) (congrArg (m.fanVertex angle f))

/-- A fan stays one around the vertex that it takes. -/
theorem SameFan.splitEdges (hm : m.WellIndexed) (hsharp : ∃ e, m.Sharp angle e)
    (hv : v ∈ m.faces.toArray.getD f []) (h : m.SameFan angle v f g) :
    (m.splitEdges angle).SameFan angle (m.fanVertex angle f v) f g := by
  induction h with
  | refl => exact .refl
  | @tail k g hchain hstep ih =>
    -- The face before the last takes the vertex that the first one takes.
    have hsame : m.fanVertex angle f v = m.fanVertex angle k v :=
      (fanVertex_eq_fanVertex_iff hm hv hstep.mem.1).mpr ⟨rfl, hchain⟩
    have hlast := hstep.splitEdges hm hsharp
    rw [← hsame] at hlast
    exact ih.tail hlast

/-- **One fan.** Where anything was split, the faces around every vertex are one fan. -/
theorem gathered_splitEdges (hm : m.WellIndexed) (hsharp : ∃ e, m.Sharp angle e) :
    (m.splitEdges angle).Gathered angle := by
  intro f i g j v hf hg
  rw [corner?_splitEdges hsharp, Option.map_eq_some_iff] at hf hg
  obtain ⟨a, ha, rfl⟩ := hf
  obtain ⟨b, hb, hab⟩ := hg
  have ha := mem_of_corner?_eq_some ha
  have hfan := ((fanVertex_eq_fanVertex_iff hm ha (mem_of_corner?_eq_some hb)).mp hab.symm).2
  exact hfan.splitEdges hm hsharp ha

/-! ### A mesh with one fan around every vertex -/

/-- There every face keeps its vertices. -/
theorem Gathered.fanVertex_eq (h : m.Gathered angle) (hm : m.WellIndexed)
    (hv : v ∈ m.faces.toArray.getD f []) : m.fanVertex angle f v = v := by
  obtain ⟨first, hfirst⟩ : ∃ first, IsLeast {g | v ∈ m.faces.toArray.getD g []} first :=
    ⟨_, Nat.sInf_mem ⟨f, hv⟩, fun _ hg => Nat.sInf_le hg⟩
  obtain ⟨i, hi⟩ := exists_corner?_eq_some_iff.mpr hv
  obtain ⟨j, hj⟩ := exists_corner?_eq_some_iff.mpr hfirst.1
  exact (fanVertex_eq_self_iff hm hv hfirst).mpr (h hj hi)

/-- So no copy is made. -/
theorem Gathered.copies_eq_nil (h : m.Gathered angle) (hm : m.WellIndexed) :
    ((m.creases angle).table m.vertices.size).copies = [] := by
  rw [List.eq_nil_iff_length_eq_zero]
  by_contra hlength
  obtain ⟨f, v, hv, hnew⟩ := exists_fanVertex_eq angle m (Nat.pos_of_ne_zero hlength)
  -- A copy is a vertex after all old ones, but the face that takes it keeps its old one.
  rw [h.fanVertex_eq hm hv] at hnew
  have := hm.lt_of_mem_getD hv
  omega

/-- **Nothing to split.** A mesh with one fan around every vertex stays as it is. -/
theorem splitEdges_of_gathered (hm : m.WellIndexed) (h : m.Gathered angle) :
    m.splitEdges angle = m := by
  by_cases hsharp : ∃ e, m.Sharp angle e
  · have hvertices : m.withCopies [] = m.vertices := by simp [withCopies]
    rw [splitEdges_of_sharp hsharp, h.copies_eq_nil hm, hvertices]
    refine congrArg (Mesh.mk m.vertices) ?_
    rw [zipIdx_eq_map_range, List.map_map]
    conv_rhs => rw [eq_map_range m.faces]
    refine List.map_congr_left fun f _ => ?_
    exact (List.map_congr_left fun v hv => h.fanVertex_eq hm hv).trans (List.map_id' _)
  · exact splitEdges_of_not_sharp (not_exists.mp hsharp)

/-- Splitting a split mesh changes nothing. -/
theorem splitEdges_splitEdges (hm : m.WellIndexed) (angle : α) :
    (m.splitEdges angle).splitEdges angle = m.splitEdges angle := by
  by_cases hsharp : ∃ e, m.Sharp angle e
  · exact splitEdges_of_gathered (wellIndexed_splitEdges hm angle) (gathered_splitEdges hm hsharp)
  · rw [splitEdges_of_not_sharp (not_exists.mp hsharp),
      splitEdges_of_not_sharp (not_exists.mp hsharp)]

/-! ### The result -/

/-- **Splitting again.** On any mesh with faces splitting succeeds, and splitting what it made by
    the same angle succeeds with the very same vertices and faces. -/
theorem apply_edgeSplit_again [Clipper α] (hm : m.WellIndexed) (hne : m.faces ≠ []) (angle : α) :
    ∃ m', m.apply (.edgeSplit angle) = .ok m' ∧ m'.apply (.edgeSplit angle) = .ok m' := by
  have hshape := shape_splitEdges hm angle
  have hne' : (m.splitEdges angle).faces ≠ [] := faces_ne_nil_of_shape_eq hshape hne
  refine ⟨m.splitEdges angle, apply_of_ne_nil hne _, ?_⟩
  rw [apply_of_ne_nil hne']
  exact congrArg _ (splitEdges_splitEdges hm angle)

/-- The wall keeps a crease when it is split, and no vertex is copied for that the second time. -/
theorem apply_edgeSplit_again_wall :
    letI := Scalar.double stepArccos
    wall.Sharp Tolerances.standard.splitAngle (1, 2) ∧ wall.faces ≠ [] ∧
    ∃ m', wall.apply (.edgeSplit Tolerances.standard.splitAngle) = .ok m' ∧
      m'.apply (.edgeSplit Tolerances.standard.splitAngle) = .ok m' := by
  let _ := Scalar.double stepArccos
  have hwell : wall.WellIndexed := by decide
  have hne : wall.faces ≠ [] := List.cons_ne_nil _ _
  exact ⟨by decide +kernel, hne,
    apply_edgeSplit_again hwell hne Tolerances.standard.splitAngle⟩

end Mesh

end CollisionMesh
