import CollisionMesh.Proofs.Splitting

namespace CollisionMesh

/-!
# Which creases are cut

Splitting cuts a face off an edge where it is in another fan than the others at an end of the
edge. Faces along an edge that is no crease are in one fan at both ends, so such edges are never
cut, and no new crease comes up. A crease is cut unless other faces link its two faces around
both ends.

* `Mesh.edge?` — the edges of a face by their places;
* `Mesh.Bridged` — faces that are linked around both ends of an edge;
* `Mesh.side_fanVertex_iff`, `Mesh.alongside_splitEdges` — the faces that stay along an edge;
* `Mesh.crease_splitEdges_iff` — the creases that are left;
* `Mesh.apply_edgeSplit_cuts` — what splitting does to the creases of any mesh.
-/

namespace Mesh

variable {α : Type} [Scalar α] {angle : α} {m : Mesh α} {f g i : Nat} {d e : Nat × Nat}

/-! ### Edges in their places -/

omit [Scalar α] in
/-- The edge in a place: the place of the face and the place of the edge in its loop. -/
def edge? (m : Mesh α) (f i : Nat) : Option (Nat × Nat) :=
  m.faces[f]?.bind fun face => (loopEdges face)[i]?

omit [Scalar α] in
/-- The edges in the places of a face are those of its loop. -/
theorem exists_edge?_eq_some_iff :
    (∃ i, m.edge? f i = some e) ↔ e ∈ loopEdges (m.faces.toArray.getD f []) := by
  simp only [mem_edges_getD_iff, edge?]
  cases m.faces[f]? with
  | none => simp
  | some face => simp [List.mem_iff_getElem?]

omit [Scalar α] in
theorem mem_of_edge?_eq_some (h : m.edge? f i = some e) :
    e ∈ loopEdges (m.faces.toArray.getD f []) :=
  exists_edge?_eq_some_iff.mp ⟨i, h⟩

/-- The edges of a split mesh. -/
theorem edge?_splitEdges (hsharp : ∃ e, m.Sharp angle e) (f i : Nat) :
    (m.splitEdges angle).edge? f i
      = (m.edge? f i).map (Prod.map (m.fanVertex angle f) (m.fanVertex angle f)) := by
  simp only [splitEdges_of_sharp hsharp, edge?, List.getElem?_map, List.getElem?_zipIdx,
    Nat.zero_add]
  cases m.faces[f]? with
  | none => rfl
  | some face =>
    rw [Option.map_some, Option.map_some, Option.bind_some, Option.bind_some, loopEdges,
      cyclicPairs_map, List.getElem?_map]

/-! ### The faces along an edge -/

/-- The faces of a split mesh. -/
theorem getD_faces_splitEdges (hsharp : ∃ e, m.Sharp angle e) (f : Nat) :
    (m.splitEdges angle).faces.toArray.getD f []
      = (m.faces.toArray.getD f []).map (m.fanVertex angle f) := by
  simp only [splitEdges_of_sharp hsharp, Array.getD_eq_getD_getElem?, List.getElem?_toArray,
    List.getElem?_map, List.getElem?_zipIdx, Nat.zero_add]
  cases m.faces[f]? <;> rfl

/-- The faces `f` and `g` are linked by chains of hinged faces around both ends of an edge. -/
def Bridged (angle : α) (m : Mesh α) (f g : Nat) (e : Nat × Nat) : Prop :=
  m.SameFan angle e.1 f g ∧ m.SameFan angle e.2 f g

/-- Edges of two faces are the same after splitting iff they were the same and the faces are in
    the same fan around both ends. -/
theorem side_fanVertex_iff (hm : m.WellIndexed) (he : e ∈ loopEdges (m.faces.toArray.getD f []))
    (hd : d ∈ loopEdges (m.faces.toArray.getD g [])) :
    side (d.map (m.fanVertex angle g) (m.fanVertex angle g))
        = side (e.map (m.fanVertex angle f) (m.fanVertex angle f)) ↔
      side d = side e ∧ m.Bridged angle f g e := by
  have hcorner : ∀ {v w}, v ∈ m.faces.toArray.getD g [] → w ∈ m.faces.toArray.getD f [] →
      (m.fanVertex angle g v = m.fanVertex angle f w ↔ v = w ∧ m.SameFan angle w f g) := by
    intro v w hv hw
    rw [fanVertex_eq_fanVertex_iff hm hv hw]
    refine and_congr_right fun heq => ?_
    subst heq
    exact ⟨SameFan.symm, SameFan.symm⟩
  obtain ⟨a, b⟩ := d
  obtain ⟨x, y⟩ := e
  obtain ⟨ha, hb⟩ := mem_of_mem_cyclicPairs hd
  obtain ⟨hx, hy⟩ := mem_of_mem_cyclicPairs he
  simp only [Bridged, side_eq_side_iff, Prod.map_apply, Prod.swap_prod_mk, Prod.mk.injEq,
    hcorner ha hx, hcorner ha hy, hcorner hb hx, hcorner hb hy]
  tauto

open Classical in
/-- **Faces along an edge.** After splitting the faces along an edge of a face are those of
    before that are in the fans of the face at both ends. -/
theorem alongside_splitEdges (hm : m.WellIndexed) (hsharp : ∃ e, m.Sharp angle e)
    (he : e ∈ loopEdges (m.faces.toArray.getD f [])) :
    (m.splitEdges angle).alongside (e.map (m.fanVertex angle f) (m.fanVertex angle f))
      = (m.alongside e).filter fun g => m.Bridged angle f g e := by
  have hlength : (m.splitEdges angle).faces.length = m.faces.length := by
    simpa using congrArg List.length (length_faces_splitEdges angle m)
  rw [alongside, alongside, users_sideUses, users_sideUses, hlength, List.filter_flatMap]
  refine List.flatMap_congr fun g _ => ?_
  rw [getD_faces_splitEdges hsharp, loopEdges, cyclicPairs_map, List.map_map, List.filter_replicate,
    List.count_eq_countP, List.count_eq_countP, List.countP_map, List.countP_map]
  -- The face keeps all its uses of the edge, or none of them.
  by_cases hfans : m.Bridged angle f g e
  · rw [if_pos (decide_eq_true hfans)]
    refine congrArg (List.replicate · g) (List.countP_congr fun d hd => ?_)
    simp only [Function.comp_apply, beq_iff_eq, side_fanVertex_iff hm he hd]
    exact and_iff_left hfans
  · rw [if_neg (by simpa using hfans), List.replicate_eq_nil_iff, List.countP_eq_zero]
    intro d hd
    simp only [Function.comp_apply, beq_iff_eq, side_fanVertex_iff hm he hd]
    exact fun h => hfans h.2

/-- Faces along an edge that is not sharp are hinged at both ends. -/
theorem bridged_of_not_sharp (hf : f ∈ m.alongside e) (hg : g ∈ m.alongside e)
    (hsharp : ¬ m.Sharp angle e) : m.Bridged angle f g e :=
  ⟨.single ⟨e, .inl rfl, hf, hg, hsharp⟩, .single ⟨e, .inr rfl, hf, hg, hsharp⟩⟩

/-- Just two faces are along an edge after splitting iff these were the two before and are linked
    around both ends. -/
theorem alongside_splitEdges_eq_pair_iff (hm : m.WellIndexed) (hsharp : ∃ e, m.Sharp angle e)
    (he : e ∈ loopEdges (m.faces.toArray.getD f [])) :
    (m.splitEdges angle).alongside (e.map (m.fanVertex angle f) (m.fanVertex angle f)) = [f, g] ↔
      m.alongside e = [f, g] ∧ m.Bridged angle f g e := by
  classical
  rw [alongside_splitEdges hm hsharp he]
  constructor
  · intro h
    have hf : f ∈ m.alongside e := mem_alongside.mpr ⟨e, he, .inl rfl⟩
    have hg : g ∈ (m.alongside e).filter fun g => m.Bridged angle f g e := by
      rw [h]
      exact List.mem_cons_of_mem _ List.mem_cons_self
    refine ⟨?_, of_decide_eq_true (List.mem_filter.mp hg).2⟩
    -- Along a sharp edge there were two faces and two are left, along others all are.
    have hkept : ((m.alongside e).filter fun g => m.Bridged angle f g e) = m.alongside e := by
      by_cases hsharp : m.Sharp angle e
      · obtain ⟨a, b, hab, -, -⟩ := hsharp
        exact List.filter_sublist.eq_of_length (by rw [h, hab]; rfl)
      · exact List.filter_eq_self.mpr fun k hk => decide_eq_true (bridged_of_not_sharp hf hk hsharp)
    exact hkept.symm.trans h
  · rintro ⟨h, hbridged⟩
    rw [h, List.filter_eq_self]
    intro k hk
    rcases List.mem_pair.mp hk with rfl | rfl
    · exact decide_eq_true ⟨.refl, .refl⟩
    · exact decide_eq_true hbridged

/-! ### Creases -/

/-- The direction of an edge does not matter. -/
theorem bridged_congr (h : side d = side e) : m.Bridged angle f g d ↔ m.Bridged angle f g e := by
  rcases side_eq_side_iff.mp h with rfl | rfl
  · rfl
  · exact and_comm

/-- The direction that a face looks in comes from where its corners lie. -/
theorem direction?_eq_bind_shape (m : Mesh α) (f : Nat) :
    m.direction? f = m.shape[f]?.bind fun loop => (newellNormal loop).unit? := by
  rw [direction?, shape, List.getElem?_map]
  cases m.faces[f]? <;> rfl

/-- Splitting turns no face. -/
theorem direction?_splitEdges (hm : m.WellIndexed) (f : Nat) :
    (m.splitEdges angle).direction? f = m.direction? f := by
  rw [direction?_eq_bind_shape, direction?_eq_bind_shape, shape_splitEdges hm]

/-- **Creases that are left.** After splitting two faces meet in a crease along an edge iff they
    did before and are linked around both ends. -/
theorem crease_splitEdges_iff {e' : Nat × Nat} (hm : m.WellIndexed) (he : m.edge? f i = some e)
    (he' : (m.splitEdges angle).edge? f i = some e') :
    (m.splitEdges angle).Crease angle f g e' ↔ m.Crease angle f g e ∧ m.Bridged angle f g e := by
  by_cases hsharp : ∃ e, m.Sharp angle e
  · rw [edge?_splitEdges hsharp, he, Option.map_some, Option.some.injEq] at he'
    subst he'
    have hpair : (m.splitEdges angle).alongside (e.map (m.fanVertex angle f) (m.fanVertex angle f))
        = [f, g] ↔ m.alongside e = [f, g] ∧ m.Bridged angle f g e :=
      alongside_splitEdges_eq_pair_iff hm hsharp (mem_of_edge?_eq_some he)
    constructor
    · rintro ⟨h, hne, hapart⟩
      rw [direction?_splitEdges hm, direction?_splitEdges hm] at hapart
      exact ⟨⟨(hpair.mp h).1, hne, hapart⟩, (hpair.mp h).2⟩
    · rintro ⟨⟨h, hne, hapart⟩, hbridged⟩
      refine ⟨hpair.mpr ⟨h, hbridged⟩, hne, ?_⟩
      rwa [direction?_splitEdges hm, direction?_splitEdges hm]
  · -- Without a sharp edge there is no crease, neither before nor after.
    rw [splitEdges_of_not_sharp (not_exists.mp hsharp)]
    exact iff_of_false (fun h => hsharp ⟨_, _, _, h⟩) fun h => hsharp ⟨_, _, _, h.1⟩

/-- Faces that meet in a crease have its edge in some place. -/
theorem Crease.exists_edge? (h : m.Crease angle f g e) :
    ∃ i d, m.edge? f i = some d ∧ side d = side e := by
  obtain ⟨d, hd, hde⟩ := mem_alongside.mp (h.alongside_eq ▸ List.mem_cons_self : f ∈ m.alongside e)
  obtain ⟨i, hi⟩ := exists_edge?_eq_some_iff.mpr hd
  exact ⟨i, d, hi, side_eq_side_iff.mpr hde⟩

/-- Splitting leaves an edge in every place where there was one. -/
theorem exists_edge?_splitEdges_iff :
    (∃ e', (m.splitEdges angle).edge? f i = some e') ↔ ∃ e, m.edge? f i = some e := by
  by_cases hsome : ∃ e, m.Sharp angle e
  · rw [edge?_splitEdges hsome]
    cases m.edge? f i <;> simp
  · rw [splitEdges_of_not_sharp (not_exists.mp hsome)]

/-- No crease is left iff none had its faces linked around both ends. -/
theorem not_sharp_splitEdges_iff (hm : m.WellIndexed) :
    (∀ e, ¬ (m.splitEdges angle).Sharp angle e) ↔
      ∀ f g e, m.Crease angle f g e → ¬ m.Bridged angle f g e := by
  constructor
  · intro hcut f g e hcrease hbridged
    obtain ⟨i, d, hi, hside⟩ := hcrease.exists_edge?
    obtain ⟨e', he'⟩ := exists_edge?_splitEdges_iff.mpr ⟨d, hi⟩
    exact hcut e' ⟨f, g, (crease_splitEdges_iff hm hi he').mpr
      ⟨(crease_congr hside).mpr hcrease, (bridged_congr hside).mpr hbridged⟩⟩
  · rintro hcut e ⟨f, g, hcrease⟩
    obtain ⟨i, d', hi, hside⟩ := hcrease.exists_edge?
    obtain ⟨d, hd⟩ := exists_edge?_splitEdges_iff.mp ⟨d', hi⟩
    obtain ⟨hold, hbridged⟩ :=
      (crease_splitEdges_iff hm hd hi).mp ((crease_congr hside).mpr hcrease)
    exact hcut f g d hold hbridged

/-! ### The result -/

/-- **Cutting creases.** On any mesh with faces splitting succeeds. Then the edge in a place is one
    where two faces meet in a crease iff they met in one there before and are linked by chains of
    hinged faces around both of its ends. So no crease is left iff none had its faces linked in
    that way. -/
theorem apply_edgeSplit_cuts [Clipper α] (hm : m.WellIndexed) (hne : m.faces ≠ []) (angle : α) :
    ∃ m', m.apply (.edgeSplit angle) = .ok m' ∧
      (∀ {f i e}, m.edge? f i = some e → ∃ e', m'.edge? f i = some e' ∧
        ∀ g, m'.Crease angle f g e' ↔ m.Crease angle f g e ∧ m.Bridged angle f g e) ∧
      ((∀ e, ¬ m'.Sharp angle e) ↔
        ∀ f g e, m.Crease angle f g e → ¬ m.Bridged angle f g e) := by
  refine ⟨m.splitEdges angle, apply_of_ne_nil hne _, ?_, not_sharp_splitEdges_iff hm⟩
  intro f i e he
  obtain ⟨e', he'⟩ := exists_edge?_splitEdges_iff.mpr ⟨e, he⟩
  exact ⟨e', he', fun g => crease_splitEdges_iff hm he he'⟩

/-- The common side of the roof is cut. -/
theorem apply_edgeSplit_cuts_roof :
    letI := Scalar.double stepArccos
    roof.Sharp Tolerances.standard.splitAngle (2, 0) ∧
    ∃ m', roof.apply (.edgeSplit Tolerances.standard.splitAngle) = .ok m' ∧
      ∃ e', m'.edge? 0 2 = some e' ∧ ¬ m'.Crease Tolerances.standard.splitAngle 0 1 e' := by
  let _ := Scalar.double stepArccos
  refine ⟨by decide +kernel, ?_⟩
  obtain ⟨m', happly, hcreases, -⟩ :=
    apply_edgeSplit_cuts wellIndexed_roof (List.cons_ne_nil _ _) Tolerances.standard.splitAngle
  obtain ⟨e', he', hcrease⟩ := hcreases (f := 0) (i := 2) (e := (2, 0)) rfl
  refine ⟨m', happly, e', he', fun h => ?_⟩
  -- Around the origin the first triangle is hinged to itself only.
  have hhinges : ∀ f ∈ [0], roof.hinges Tolerances.standard.splitAngle 0 f ⊆ [0] := by
    decide +kernel
  have hfan := ((hcrease 1).mp h).2.2
  exact absurd (hfan.mem_of_hinges_subset hhinges (List.mem_singleton_self 0)) (by decide)

/-- A wall along the edge of a floor, which goes on behind both ends of the wall but not behind
    the middle of it. -/
def wall : Mesh Float where
  vertices := #[⟨0, 0, 0⟩, ⟨10, 0, 0⟩, ⟨20, 0, 0⟩, ⟨30, 0, 0⟩, ⟨15, 10, 0⟩, ⟨15, 0, 10⟩,
    ⟨5, -10, 0⟩, ⟨25, -10, 0⟩]
  faces := [[0, 1, 2, 3, 4], [3, 2, 1, 0, 5], [1, 0, 6], [3, 2, 7]]

/-- In the middle only the wall and the floor are along the edge, at a right angle. But next to it
    three faces are along an edge, and these hold the two together at both ends. So the crease is
    not cut. -/
theorem sharp_apply_edgeSplit_wall :
    letI := Scalar.double stepArccos
    wall.WellIndexed ∧ ∃ m', wall.apply (.edgeSplit Tolerances.standard.splitAngle) = .ok m' ∧
      ∃ e, m'.Sharp Tolerances.standard.splitAngle e := by
  let _ := Scalar.double stepArccos
  have hwell : wall.WellIndexed := by
    show ∀ face ∈ wall.faces, ∀ i ∈ face, i < 8
    decide
  refine ⟨hwell, _, apply_of_ne_nil (List.cons_ne_nil _ _) _, ?_⟩
  obtain ⟨f, g, hcrease⟩ : wall.Sharp Tolerances.standard.splitAngle (1, 2) := by decide +kernel
  have halong : wall.alongside (1, 2) = [0, 1] := by decide
  obtain ⟨rfl, rfl⟩ : 0 = f ∧ 1 = g := by simpa using halong.symm.trans hcrease.alongside_eq
  have hstart : 1 ∈ wall.hinges Tolerances.standard.splitAngle 1 0 := by decide +kernel
  have hend : 1 ∈ wall.hinges Tolerances.standard.splitAngle 2 0 := by decide +kernel
  have hbridged : wall.Bridged Tolerances.standard.splitAngle 0 1 (1, 2) :=
    ⟨.single (mem_hinges_iff.mp hstart), .single (mem_hinges_iff.mp hend)⟩
  by_contra hcut
  exact (not_sharp_splitEdges_iff hwell).mp (not_exists.mp hcut) 0 1 (1, 2) hcrease hbridged

end Mesh

end CollisionMesh
