import CollisionMesh.Editor
import CollisionMesh.Proofs.Crease
import CollisionMesh.Proofs.Neighbours
import CollisionMesh.Proofs.Triangulate
import CollisionMesh.Proofs.Weld

namespace CollisionMesh

/-!
# What every pass keeps

Passes renumber, merge, copy and drop vertices, but move none. So on a mesh whose
corners are vertices of its list, no pass makes a vertex in a new place, and corners
stay vertices of the list. Passes in turn are a run, which stops at the first mesh
without faces.

* `Mesh.Grounded` — corners are vertices of the list, and these lie at given points;
* `Mesh.Grounded.edit`, `Mesh.WellIndexed.edit` — every pass keeps that;
* `Mesh.run` — passes in turn; `Mesh.run_keeps` — what every pass keeps, a run keeps;
* `Mesh.Grounded.run` — a whole run makes no new place.
-/

namespace Mesh

variable {α : Type} [Scalar α]

/-! ### Merged and straightened meshes -/

/-- The mesh that dissolving compacts. -/
abbrev dissolved (angle : α) (m : Mesh α) : Mesh α :=
  (m.mergeRegions angle).straightenCorners angle

/-- Its faces are the merged ones without straight corners. -/
theorem faces_dissolved (angle : α) (m : Mesh α) :
    (m.dissolved angle).faces = straighten ((m.mergeRegions angle).isStraight angle)
      m.vertices.size (m.mergeRegions angle).faces :=
  congrArg faces (straightenCorners_eq angle (m.mergeRegions angle))

/-- Corners after merging are corners before. -/
theorem exists_face_of_mem_mergeRegions {m : Mesh α} {angle : α} {face : Face}
    (h : face ∈ (m.mergeRegions angle).faces) {i : Nat} (hi : i ∈ face) :
    ∃ old ∈ m.faces, i ∈ old := by
  obtain ⟨parts, -, -, hfaces⟩ := m.exists_parts_mergeRegions angle
  rw [hfaces] at h
  obtain ⟨j, hij⟩ := exists_edge_from hi
  obtain ⟨old, hold, he⟩ := edges_of_mem_merge h (i, j) hij
  exact ⟨old, hold, (mem_of_mem_cyclicPairs he).1⟩

theorem wellIndexed_mergeRegions {m : Mesh α} (hm : m.WellIndexed) (angle : α) :
    (m.mergeRegions angle).WellIndexed := by
  intro face hface i hi
  obtain ⟨old, hold, hi⟩ := exists_face_of_mem_mergeRegions hface hi
  exact hm old hold i hi

theorem wellIndexed_straightenCorners {m : Mesh α} (hm : m.WellIndexed) (angle : α) :
    (m.straightenCorners angle).WellIndexed := by
  rw [straightenCorners_eq]
  intro face hface i hi
  obtain ⟨old, hold, hsub⟩ := exists_superset_of_forall₂ sublist_straighten hface
  exact hm old hold i (hsub hi)

theorem wellIndexed_dissolved {m : Mesh α} (hm : m.WellIndexed) (angle : α) :
    (m.dissolved angle).WellIndexed :=
  wellIndexed_straightenCorners (wellIndexed_mergeRegions hm angle) angle

/-- Dissolving leaves a face where there is one. -/
theorem faces_dissolve_ne_nil {m : Mesh α} (hm : m.faces ≠ []) (angle : α) :
    (m.dissolve angle).faces ≠ [] := by
  obtain ⟨parts, hparts, -, hfaces⟩ := m.exists_parts_mergeRegions angle
  have hmerged : (m.mergeRegions angle).faces ≠ [] := by
    rw [hfaces]
    exact merge_ne_nil hparts hm
  have hlength : (m.dissolve angle).faces.length = (m.mergeRegions angle).faces.length :=
    (length_faces_compact _).trans (faces_dissolved angle m ▸ sublist_straighten.length_eq)
  rw [← List.length_pos_iff] at hmerged ⊢
  omega

/-- The triangles that a face of a mesh is cut into cover it. -/
theorem covers_cutPolygon_positions [Clipper α] (m : Mesh α) (face : Face) :
    covers face.length (cutPolygon (m.positions face)) = true := by
  have h := covers_cutPolygon (m.positions face)
  rwa [positions, List.length_map] at h

theorem wellIndexed_triangulate [Clipper α] {m : Mesh α} (hm : m.WellIndexed) :
    m.triangulate.WellIndexed := by
  intro face hface i hi
  obtain ⟨-, old, hold, hsub⟩ := mem_triangulate m.covers_cutPolygon_positions hface
  exact hm old hold i (hsub hi)

/-! ### What one pass keeps -/

/-- Corners are vertices of the list, and every vertex lies at one of the points. -/
structure Grounded (points : List (Point α)) (m : Mesh α) : Prop where
  wellIndexed : m.WellIndexed
  vertices : ∀ p ∈ m.vertices, p ∈ points

/-- Every corner of a grounded mesh lies at one of the points. -/
theorem Grounded.mem_of_mem_shape {points : List (Point α)} {m : Mesh α} (h : m.Grounded points)
    {loop : List (Point α)} (hl : loop ∈ m.shape) {p : Point α} (hp : p ∈ loop) : p ∈ points :=
  h.vertices p (mem_vertices_of_mem_shape h.wellIndexed hl hp)

/-- **One pass.** No pass makes a vertex in a new place or a corner outside the list. -/
theorem Grounded.edit [Clipper α] {points : List (Point α)} {m : Mesh α} (h : m.Grounded points)
    (pass : Pass α) : (pass.edit m).Grounded points := by
  cases pass with
  | weld d =>
    exact ⟨wellIndexed_weld m d, fun p hp => h.vertices p (vertices_weld_subset h.wellIndexed d hp)⟩
  | edgeSplit angle =>
    exact ⟨wellIndexed_splitEdges h.wellIndexed angle,
      fun p hp => h.vertices p (vertices_splitEdges_subset hp)⟩
  | dissolve angle =>
    refine ⟨wellIndexed_compact _, fun p hp => h.vertices p ?_⟩
    exact vertices_compact_subset (wellIndexed_dissolved h.wellIndexed angle) hp
  | triangulate => exact ⟨wellIndexed_triangulate h.wellIndexed, h.vertices⟩

/-- Every pass keeps corners in the list. -/
theorem WellIndexed.edit [Clipper α] {m : Mesh α} (h : m.WellIndexed) (pass : Pass α) :
    (pass.edit m).WellIndexed :=
  have hgrounded : m.Grounded m.vertices.toList := ⟨h, fun _ hp => Array.mem_toList_iff.mpr hp⟩
  (hgrounded.edit pass).wellIndexed

/-! ### Passes in turn -/

/-- The mesh after some passes in turn, or the pass that found no faces. -/
def run [Clipper α] : List (Pass α) → Mesh α → Except Error (Mesh α)
  | [], m => .ok m
  | pass :: rest, m =>
    match m.apply pass with
    | .error fault => .error (.edit pass.operation fault)
    | .ok m => run rest m

/-- A pass on a mesh with faces succeeds. -/
theorem apply_of_ne_nil [Clipper α] {m : Mesh α} (h : m.faces ≠ []) (pass : Pass α) :
    m.apply pass = .ok (pass.edit m) := by
  rw [apply, if_neg (by simpa using h)]

/-- A pass on a mesh without faces fails. -/
theorem apply_of_eq_nil [Clipper α] {m : Mesh α} (h : m.faces = []) (pass : Pass α) :
    m.apply pass = .error .noFaces := by
  rw [apply, if_pos (by simp [h])]

/-- A pass that succeeds makes its edit. -/
theorem edit_eq_of_apply_eq_ok [Clipper α] {m m' : Mesh α} {pass : Pass α}
    (h : m.apply pass = .ok m') : pass.edit m = m' := by
  rw [apply] at h
  split at h
  · cases h
  · exact Except.ok.inj h

/-- A run that starts with a pass that succeeds is the run of the rest. -/
theorem run_cons_of_ne_nil [Clipper α] {m : Mesh α} (h : m.faces ≠ []) (pass : Pass α)
    (rest : List (Pass α)) : run (pass :: rest) m = run rest (pass.edit m) := by
  rw [run, apply_of_ne_nil h]

/-- A run on a mesh without faces fails at its first pass. -/
theorem run_cons_of_eq_nil [Clipper α] {m : Mesh α} (h : m.faces = []) (pass : Pass α)
    (rest : List (Pass α)) :
    run (pass :: rest) m = .error (.edit pass.operation .noFaces) := by
  rw [run, apply_of_eq_nil h]

/-- A run that starts with a given pass succeeds iff that has faces and the rest succeeds. -/
theorem run_cons_eq_ok_iff [Clipper α] {pass : Pass α} {rest : List (Pass α)} {m m' : Mesh α} :
    run (pass :: rest) m = .ok m' ↔ m.faces ≠ [] ∧ run rest (pass.edit m) = .ok m' := by
  by_cases hm : m.faces = []
  · rw [run_cons_of_eq_nil hm]
    simp [hm]
  · rw [run_cons_of_ne_nil hm]
    simp [hm]

/-- A run that ends with a given pass: the run before left faces for it. -/
theorem run_concat_eq_ok_iff [Clipper α] {passes : List (Pass α)} {last : Pass α} {m m' : Mesh α} :
    m.run (passes ++ [last]) = .ok m' ↔
      ∃ m₁, m.run passes = .ok m₁ ∧ m₁.faces ≠ [] ∧ last.edit m₁ = m' := by
  induction passes generalizing m with
  | nil =>
    by_cases hm : m.faces = []
    · rw [List.nil_append, run_cons_of_eq_nil hm]
      simp [run, hm]
    · rw [List.nil_append, run_cons_of_ne_nil hm]
      simp [run, hm]
  | cons pass rest ih =>
    by_cases hm : m.faces = []
    · rw [List.cons_append, run_cons_of_eq_nil hm, run_cons_of_eq_nil hm]
      simp
    · rw [List.cons_append, run_cons_of_ne_nil hm, run_cons_of_ne_nil hm]
      exact ih

/-- What every pass keeps, a run keeps. -/
theorem run_keeps [Clipper α] {P : Mesh α → Prop}
    (hedit : ∀ (pass : Pass α) (m : Mesh α), P m → P (pass.edit m))
    {passes : List (Pass α)} {m m' : Mesh α} (hm : P m) (hrun : run passes m = .ok m') : P m' := by
  induction passes generalizing m with
  | nil =>
    obtain rfl : m = m' := Except.ok.inj hrun
    exact hm
  | cons pass rest ih => exact ih (hedit pass m hm) (run_cons_eq_ok_iff.mp hrun).2

/-- **A whole run.** However many passes succeed, no vertex is in a new place. -/
theorem Grounded.run [Clipper α] {points : List (Point α)} {passes : List (Pass α)} {m m' : Mesh α}
    (h : m.Grounded points) (hrun : Mesh.run passes m = .ok m') : m'.Grounded points :=
  run_keeps (P := fun m => m.Grounded points) (fun pass _ hm => hm.edit pass) h hrun

/-- A run fails only because a pass found no faces. -/
theorem exists_operation_of_run_eq_error [Clipper α] {passes : List (Pass α)} {m : Mesh α}
    {e : Error} (hrun : run passes m = .error e) :
    ∃ operation, e = .edit operation .noFaces := by
  induction passes generalizing m with
  | nil => exact absurd hrun (by simp [run])
  | cons pass rest ih =>
    by_cases hm : m.faces = []
    · rw [run_cons_of_eq_nil hm] at hrun
      exact ⟨pass.operation, (Except.error.inj hrun).symm⟩
    · rw [run_cons_of_ne_nil hm] at hrun
      exact ih hrun

/-- The faces of a mesh with their positions. -/
def readBack (m : Mesh α) : List (EditorFace α) :=
  m.faces.map fun face => ⟨face, m.positions face⟩

end Mesh

namespace TriangleMesh

variable {α : Type} [Scalar α] [Clipper α]

/-- What the passes make of a mesh, read back. -/
def simplified (t : Tolerances α) (mesh : TriangleMesh α) : Except Error (List (EditorFace α)) :=
  (mesh.toMesh.run t.passes).map Mesh.readBack

/-- Where a mesh was simplified, its faces were cut at last from a mesh with faces. -/
theorem exists_cut_of_simplified {mesh : TriangleMesh α} {t : Tolerances α}
    {faces : List (EditorFace α)} (h : mesh.simplified t = .ok faces) :
    ∃ m, mesh.toMesh.run t.passes.dropLast = .ok m ∧ m.faces ≠ [] ∧
      faces = m.triangulate.readBack := by
  unfold simplified at h
  cases hrun : mesh.toMesh.run t.passes with
  | error e =>
    rw [hrun] at h
    exact absurd h (by simp [Except.map])
  | ok m' =>
    rw [hrun] at h
    -- The last pass is the one that cuts.
    have hlast : mesh.toMesh.run (t.passes.dropLast ++ [.triangulate]) = .ok m' := hrun
    obtain ⟨m, hm, hne, rfl⟩ := Mesh.run_concat_eq_ok_iff.mp hlast
    exact ⟨m, hm, hne, (Except.ok.inj h).symm⟩

end TriangleMesh

end CollisionMesh
