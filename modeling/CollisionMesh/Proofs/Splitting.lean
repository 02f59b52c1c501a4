import CollisionMesh.Proofs.Fans
import CollisionMesh.Proofs.Refusal

namespace CollisionMesh

/-!
# The effect of splitting creases

Where no edge is sharp, splitting leaves a mesh as it is. Elsewhere every fan around every
vertex gets a vertex of its own: the fan of the first face keeps the old one, and the others
get new ones in the same place.

* `Mesh.corner?` — the vertex in a corner;
* `Mesh.fanVertex` — the vertex that a face takes; `Mesh.fanVertex_eq_fanVertex_iff`,
  `Mesh.fanVertex_eq_self_iff`, `Mesh.le_fanVertex`, `Mesh.exists_fanVertex_eq` — which one;
* `Mesh.splitEdges_of_sharp`, `Mesh.splitEdges_of_not_sharp` — the two ways that splitting goes;
* `Mesh.SplitByFans` — every fan with a vertex of its own;
* `Mesh.apply_edgeSplit` — what splitting does to any mesh.
-/

namespace Mesh

variable {α : Type} [Scalar α] {angle : α} {m : Mesh α} {f g i j v w : Nat}

/-! ### Corners -/

omit [Scalar α] in
/-- The vertex in a corner: the place of the face and the place in its loop. -/
def corner? (m : Mesh α) (f i : Nat) : Option Nat :=
  m.faces[f]?.bind (·[i]?)

omit [Scalar α] in
/-- The vertices in the corners of a face are those of its loop. -/
theorem exists_corner?_eq_some_iff :
    (∃ i, m.corner? f i = some v) ↔ v ∈ m.faces.toArray.getD f [] := by
  simp only [mem_getD_iff, corner?]
  cases m.faces[f]? with
  | none => simp
  | some face => simp [List.mem_iff_getElem?]

omit [Scalar α] in
theorem mem_of_corner?_eq_some (h : m.corner? f i = some v) : v ∈ m.faces.toArray.getD f [] :=
  exists_corner?_eq_some_iff.mp ⟨i, h⟩

omit [Scalar α] in
/-- Corners of a mesh are vertices of its list. -/
theorem WellIndexed.lt_of_mem_getD (hm : m.WellIndexed) (h : v ∈ m.faces.toArray.getD f []) :
    v < m.vertices.size := by
  obtain ⟨face, hface, hv⟩ := mem_getD_iff.mp h
  exact hm face (List.mem_of_getElem? hface) v hv

omit [Scalar α] in
/-- Corners where the vertices of each face are renamed. -/
theorem corner?_zipIdx_map (vertices : Array (Point α)) (faces : List Face)
    (rename : Nat → Nat → Nat) (f i : Nat) :
    corner? ⟨vertices, faces.zipIdx.map fun (face, f) => face.map (rename f)⟩ f i
      = (corner? ⟨vertices, faces⟩ f i).map (rename f) := by
  simp only [corner?, List.getElem?_map, List.getElem?_zipIdx, Nat.zero_add]
  cases faces[f]? with
  | none => rfl
  | some face => simp

/-! ### The vertex that a face takes -/

/-- The vertex that a face takes for its corner at `v` where the mesh is split. -/
def fanVertex (angle : α) (m : Mesh α) (f v : Nat) : Nat :=
  ((m.creases angle).table m.vertices.size).corner
    ((m.creases angle).table m.vertices.size).copies f v

/-- **Fans and vertices.** Faces take the same vertex iff they had the same and are in the same
    fan around it. -/
theorem fanVertex_eq_fanVertex_iff (hm : m.WellIndexed) (hv : v ∈ m.faces.toArray.getD f [])
    (hw : w ∈ m.faces.toArray.getD g []) :
    m.fanVertex angle f v = m.fanVertex angle g w ↔ v = w ∧ m.SameFan angle v f g := by
  rw [fanVertex, fanVertex, Creases.corner_eq_corner_iff (hm.lt_of_mem_getD hv)
    (hm.lt_of_mem_getD hw) (mem_incident_creases.mpr hv) (mem_incident_creases.mpr hw)]
  refine and_congr_right fun heq => ?_
  subst heq
  exact leader_eq_iff hv hw

/-- The fan of the first face around a vertex keeps it. -/
theorem fanVertex_eq_self_iff {first : Nat} (hm : m.WellIndexed)
    (hv : v ∈ m.faces.toArray.getD f [])
    (hfirst : IsLeast {g | v ∈ m.faces.toArray.getD g []} first) :
    m.fanVertex angle f v = v ↔ m.SameFan angle v first f := by
  have hmem : first ∈ (m.creases angle).incident v := mem_incident_creases.mpr hfirst.1
  -- The first face leads its own fan.
  have hlead : (m.creases angle).leader v first = first :=
    Nat.le_antisymm (Creases.leader_le hmem)
      (hfirst.2 (mem_incident_creases.mp (Creases.leader_mem hmem)))
  rw [fanVertex, Creases.corner_eq_self_iff (hm.lt_of_mem_getD hv) (mem_incident_creases.mpr hv),
    Creases.head?_incident_of_isLeast hfirst, Option.some.injEq, ← leader_eq_iff hfirst.1 hv, hlead]

/-- A vertex that is not the old one comes after all old ones. -/
theorem le_fanVertex (h : m.fanVertex angle f v ≠ v) : m.vertices.size ≤ m.fanVertex angle f v := by
  rcases ((m.creases angle).table m.vertices.size).corner_cases
    ((m.creases angle).table m.vertices.size).copies f v with hself | ⟨k, first, -, hnew⟩
  · exact absurd hself h
  · rw [fanVertex, hnew, Creases.size_table]
    exact Nat.le_add_right _ _

/-- Every new vertex is taken by some face. -/
theorem exists_fanVertex_eq (angle : α) (m : Mesh α) {k : Nat}
    (hk : k < ((m.creases angle).table m.vertices.size).copies.length) :
    ∃ f, ∃ v ∈ m.faces.toArray.getD f [], m.fanVertex angle f v = m.vertices.size + k := by
  obtain ⟨v, f, hf, hcorner⟩ := Creases.exists_corner_eq hk
  exact ⟨f, v, mem_incident_creases.mp hf, hcorner⟩

/-! ### The two ways that splitting goes -/

/-- Where an edge is sharp, faces take the vertices of their fans. -/
theorem splitEdges_of_sharp (h : ∃ e, m.Sharp angle e) :
    m.splitEdges angle =
      ⟨m.withCopies ((m.creases angle).table m.vertices.size).copies,
        m.faces.zipIdx.map fun (face, f) => face.map (m.fanVertex angle f)⟩ := by
  rw [splitEdges, if_pos (any_sharp_iff.mpr h)]
  rfl

/-- Where no edge is sharp, the mesh stays as it is. -/
theorem splitEdges_of_not_sharp (h : ∀ e, ¬ m.Sharp angle e) : m.splitEdges angle = m := by
  rw [splitEdges, if_neg (mt any_sharp_iff.mp (not_exists.mpr h))]

/-- The corners of a split mesh. -/
theorem corner?_splitEdges (h : ∃ e, m.Sharp angle e) (f i : Nat) :
    (m.splitEdges angle).corner? f i = (m.corner? f i).map (m.fanVertex angle f) := by
  rw [splitEdges_of_sharp h, corner?_zipIdx_map]
  rfl

/-- Splitting changes no number of corners. -/
theorem length_faces_splitEdges (angle : α) (m : Mesh α) :
    (m.splitEdges angle).faces.map List.length = m.faces.map List.length := by
  rcases m.splitEdges_cases angle with h | ⟨t, -, h⟩
  · rw [h]
  · rw [h]
    apply List.ext_getElem <;> simp

/-- Old vertices keep their numbers. -/
theorem vertices_prefix_splitEdges (angle : α) (m : Mesh α) :
    m.vertices.toList <+: (m.splitEdges angle).vertices.toList := by
  rcases m.splitEdges_cases angle with h | ⟨t, -, h⟩
  · rw [h]
  · rw [h, withCopies, Array.toList_append]
    exact List.prefix_append _ _

/-! ### The result -/

/-- The second mesh has the corners of the first, but every fan around every vertex has a vertex
    of its own: the fan of the first face the old one, and every other one that is new. -/
structure SplitByFans (angle : α) (m m' : Mesh α) : Prop where
  eq_iff : ∀ {f i g j v w}, m.corner? f i = some v → m.corner? g j = some w →
    (m'.corner? f i = m'.corner? g j ↔ v = w ∧ m.SameFan angle v f g)
  keeps_iff : ∀ {f i v first}, m.corner? f i = some v →
    IsLeast {g | ∃ j, m.corner? g j = some v} first →
    (m'.corner? f i = some v ↔ m.SameFan angle v first f)
  fresh : ∀ {f i v}, m.corner? f i = some v →
    m'.corner? f i = some v ∨ ∃ k, m.vertices.size ≤ k ∧ m'.corner? f i = some k
  used : ∀ {k}, m.vertices.size ≤ k → k < m'.vertices.size → ∃ f i, m'.corner? f i = some k

theorem splitByFans_splitEdges (hm : m.WellIndexed) (h : ∃ e, m.Sharp angle e) :
    m.SplitByFans angle (m.splitEdges angle) where
  eq_iff := by
    intro f i g j v w hv hw
    rw [corner?_splitEdges h, corner?_splitEdges h, hv, hw, Option.map_some, Option.map_some,
      Option.some.injEq]
    exact fanVertex_eq_fanVertex_iff hm (mem_of_corner?_eq_some hv) (mem_of_corner?_eq_some hw)
  keeps_iff := by
    intro f i v first hv hfirst
    simp only [exists_corner?_eq_some_iff] at hfirst
    rw [corner?_splitEdges h, hv, Option.map_some, Option.some.injEq]
    exact fanVertex_eq_self_iff hm (mem_of_corner?_eq_some hv) hfirst
  fresh := by
    intro f i v hv
    rw [corner?_splitEdges h, hv, Option.map_some, Option.some.injEq]
    by_cases heq : m.fanVertex angle f v = v
    · exact .inl heq
    · exact .inr ⟨_, le_fanVertex heq, rfl⟩
  used := by
    intro k hle hlt
    rw [splitEdges_of_sharp h, size_withCopies] at hlt
    have hk := (Nat.sub_lt_iff_lt_add' hle).mpr hlt
    obtain ⟨f, v, hv, heq⟩ := exists_fanVertex_eq angle m hk
    obtain ⟨i, hi⟩ := exists_corner?_eq_some_iff.mpr hv
    refine ⟨f, i, ?_⟩
    rw [corner?_splitEdges h, hi, Option.map_some, heq, Nat.add_sub_cancel' hle]

/-- **Splitting creases.** On any mesh with faces splitting succeeds, keeps the number of faces
    and of their corners and moves no corner. The old vertices keep their numbers. Without a sharp
    edge the mesh stays as it is, and with one every fan around every vertex gets a vertex of its
    own. -/
theorem apply_edgeSplit [Clipper α] (hm : m.WellIndexed) (hne : m.faces ≠ []) (angle : α) :
    ∃ m', m.apply (.edgeSplit angle) = .ok m' ∧ m'.WellIndexed ∧
      m'.faces.map List.length = m.faces.map List.length ∧
      m'.shape = m.shape ∧
      m.vertices.toList <+: m'.vertices.toList ∧
      ((∀ e, ¬ m.Sharp angle e) → m' = m) ∧
      ((∃ e, m.Sharp angle e) → m.SplitByFans angle m') :=
  ⟨m.splitEdges angle, apply_of_ne_nil hne _, wellIndexed_splitEdges hm angle,
    length_faces_splitEdges angle m, shape_splitEdges hm angle, vertices_prefix_splitEdges angle m,
    splitEdges_of_not_sharp, splitByFans_splitEdges hm⟩

/-- Two triangles with a common side, at a right angle to each other. -/
def roof : Mesh Float where
  vertices := #[⟨0, 0, 0⟩, ⟨10, 0, 0⟩, ⟨0, 10, 0⟩, ⟨0, 0, 10⟩]
  faces := [[0, 1, 2], [0, 2, 3]]

theorem wellIndexed_roof : roof.WellIndexed := by
  show ∀ face ∈ roof.faces, ∀ i ∈ face, i < 4
  decide

/-- The second triangle of the roof gets a vertex of its own where it had that of the first. -/
theorem apply_edgeSplit_roof :
    letI := Scalar.double stepArccos
    roof.WellIndexed ∧ roof.faces ≠ [] ∧
    ∃ m', roof.apply (.edgeSplit Tolerances.standard.splitAngle) = .ok m' ∧
      m'.shape = roof.shape ∧ roof.SplitByFans Tolerances.standard.splitAngle m' ∧
      m'.corner? 0 0 = some 0 ∧ m'.corner? 1 0 ≠ some 0 := by
  let _ := Scalar.double stepArccos
  have hne : roof.faces ≠ [] := List.cons_ne_nil _ _
  have hsharp : roof.Sharp Tolerances.standard.splitAngle (0, 2) := by decide +kernel
  obtain ⟨m', happly, -, -, hshape, -, -, hsplit⟩ :=
    apply_edgeSplit wellIndexed_roof hne Tolerances.standard.splitAngle
  have hfans := hsplit ⟨_, hsharp⟩
  have hfirst : IsLeast {g | ∃ j, roof.corner? g j = some 0} 0 :=
    ⟨⟨0, rfl⟩, fun _ _ => Nat.zero_le _⟩
  refine ⟨wellIndexed_roof, hne, m', happly, hshape, hfans, (hfans.keeps_iff rfl hfirst).mpr .refl, ?_⟩
  -- The first triangle is hinged to itself only.
  have hhinges : ∀ f ∈ [0], roof.hinges Tolerances.standard.splitAngle 0 f ⊆ [0] := by
    decide +kernel
  intro hkeeps
  have hfan := (hfans.keeps_iff rfl hfirst).mp hkeeps
  exact absurd (hfan.mem_of_hinges_subset hhinges (List.mem_singleton_self 0)) (by decide)

end Mesh

end CollisionMesh
