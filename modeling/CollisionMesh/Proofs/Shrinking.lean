import CollisionMesh.Proofs.Passes

namespace CollisionMesh

/-!
# Passes make no more triangles

Every face has at least three corners from the first weld on, and the number of
triangles that the faces are cut into never grows. Cutting them makes just that many,
so there are at most as many triangles at the end as at the start.

* `Mesh.Solid` — faces of at least three corners, cut into at most `n` triangles;
* `Mesh.Solid.edit`, `Mesh.Solid.run` — one pass and a whole run keep that;
* `Mesh.length_faces_triangulate` — cutting makes as many triangles as counted;
* `TriangleMesh.solid_toMesh` — loose triangles are solid;
* `TriangleMesh.simplified_shrinks` — what comes out are triangles, and no more than
  went in.
-/

/-- Faces with as many corners each are cut into as many triangles. -/
theorem triangleCount_map {faces : List Face} {f : Face → Face}
    (h : ∀ face ∈ faces, (f face).length = face.length) :
    triangleCount (faces.map f) = triangleCount faces := by
  rw [triangleCount, triangleCount, List.map_map]
  congr 1
  apply List.map_congr_left
  intro face hface
  rw [Function.comp_apply, h face hface]

/-- Welding makes no more triangles. -/
theorem triangleCount_weldFaces_le (representative : Nat → Nat) (faces : List Face) :
    triangleCount (weldFaces representative faces) ≤ triangleCount faces := by
  induction faces with
  | nil => exact Nat.le_refl _
  | cons face rest ih =>
    have hlen := (cleanLoop_sublist (face.map representative)).length_le
    rw [List.length_map] at hlen
    rw [weldFaces, List.map_cons, List.filter_cons, triangleCount_cons]
    split
    · rw [triangleCount_cons]
      exact Nat.add_le_add (Nat.sub_le_sub_right hlen 2) ih
    · exact Nat.le_trans ih (Nat.le_add_left _ _)

/-- Loose triangles are cut into themselves. -/
theorem triangleCount_map_toList (triangles : List (Triple Nat)) :
    triangleCount (triangles.map Triple.toList) = triangles.length := by
  induction triangles with
  | nil => rfl
  | cons t rest ih =>
    rw [List.map_cons, triangleCount_cons, ih, List.length_cons]
    exact Nat.add_comm 1 _

namespace Mesh

variable {α : Type} [Scalar α]

/-- Faces of at least three corners, cut into at most `n` triangles together. -/
structure Solid (n : Nat) (m : Mesh α) : Prop where
  three_le : ∀ face ∈ m.faces, 3 ≤ face.length
  count_le : triangleCount m.faces ≤ n

theorem Solid.compact {n : Nat} {m : Mesh α} (h : m.Solid n) : m.compact.Solid n := by
  have hlen : ∀ face ∈ m.faces, (face.map fun i => m.used.idxOf i).length = face.length :=
    fun face _ => List.length_map _
  constructor
  · intro face hface
    obtain ⟨old, hold, rfl⟩ := List.mem_map.mp hface
    rw [hlen old hold]
    exact h.three_le old hold
  · exact (triangleCount_map hlen).trans_le h.count_le

theorem Solid.weld {n : Nat} {m : Mesh α} (h : m.Solid n) (d : α) : (m.weld d).Solid n := by
  apply Solid.compact
  constructor
  · intro face hface
    exact (mem_weldFaces.mp hface).2
  · exact (triangleCount_weldFaces_le _ _).trans h.count_le

theorem Solid.splitEdges {n : Nat} {m : Mesh α} (h : m.Solid n) (angle : α) :
    (m.splitEdges angle).Solid n := by
  rcases m.splitEdges_cases angle with heq | ⟨t, -, heq⟩
  · rw [heq]
    exact h
  · rw [heq]
    constructor
    · intro face hface
      obtain ⟨⟨old, f⟩, hold, rfl⟩ := List.mem_map.mp hface
      rw [List.length_map]
      exact h.three_le old (List.fst_mem_of_mem_zipIdx hold)
    · refine le_trans (le_of_eq ?_) h.count_le
      rw [triangleCount, triangleCount, List.map_map]
      congr 1
      apply List.ext_getElem (by simp)
      intro f hf hf'
      simp

/-- **Dissolving.** Neither merged regions nor removed corners make more triangles. -/
theorem Solid.dissolve {n : Nat} {m : Mesh α} (h : m.Solid n) (angle : α) :
    (m.dissolve angle).Solid n := by
  obtain ⟨parts, hparts, hgrown, hfaces⟩ := m.exists_parts_mergeRegions angle
  have hthree : ∀ face ∈ (m.mergeRegions angle).faces, 3 ≤ face.length := by
    rw [hfaces]
    exact fun face => three_le_length_of_mem_merge h.three_le
  apply Solid.compact
  constructor
  · rw [faces_dissolved]
    exact three_le_length_straighten hthree
  -- Removed corners make faces lighter, and outlines are no heavier than their regions.
  · calc triangleCount (m.dissolved angle).faces
        ≤ triangleCount (m.mergeRegions angle).faces := by
          rw [faces_dissolved]
          exact triangleCount_le_of_forall₂ sublist_straighten
      _ ≤ triangleCount m.faces := by
          rw [hfaces]
          exact triangleCount_merge_le hparts hgrown h.three_le
      _ ≤ n := h.count_le

/-- Cut faces have three corners. -/
theorem length_of_mem_triangulate [Clipper α] {m : Mesh α} {face : Face}
    (h : face ∈ m.triangulate.faces) : face.length = 3 :=
  (mem_triangulate m.covers_cutPolygon_positions h).1

/-- A mesh is cut into as many faces as counted. -/
theorem length_faces_triangulate [Clipper α] (m : Mesh α) :
    m.triangulate.faces.length = triangleCount m.faces :=
  length_triangulate m.covers_cutPolygon_positions

theorem Solid.triangulate [Clipper α] {n : Nat} {m : Mesh α} (h : m.Solid n) :
    m.triangulate.Solid n := by
  constructor
  · intro face hface
    exact (length_of_mem_triangulate hface).ge
  -- Every face is a triangle now, so counting triangles is counting faces.
  · have hone : triangleCount m.triangulate.faces = m.triangulate.faces.length := by
      have hface : m.triangulate.faces.map (fun face => face.length - 2)
          = m.triangulate.faces.map fun _ => 1 :=
        List.map_congr_left fun face hface => by rw [length_of_mem_triangulate hface]
      rw [triangleCount, hface]
      simp
    rw [hone, length_faces_triangulate]
    exact h.count_le

/-- **One pass.** No pass makes more triangles. -/
theorem Solid.edit [Clipper α] {n : Nat} {m : Mesh α} (h : m.Solid n) (pass : Pass α) :
    (pass.edit m).Solid n := by
  cases pass with
  | weld d => exact h.weld d
  | edgeSplit angle => exact h.splitEdges angle
  | dissolve angle => exact h.dissolve angle
  | triangulate => exact h.triangulate

/-- **A whole run.** No run makes more triangles. -/
theorem Solid.run [Clipper α] {n : Nat} {passes : List (Pass α)} {m m' : Mesh α} (h : m.Solid n)
    (hrun : Mesh.run passes m = .ok m') : m'.Solid n :=
  run_keeps (P := fun m => m.Solid n) (fun pass _ hm => hm.edit pass) h hrun

end Mesh

namespace TriangleMesh

variable {α : Type}

/-- Triangles are solid. -/
theorem solid_toMesh [Scalar α] (mesh : TriangleMesh α) : mesh.toMesh.Solid mesh.faces.length := by
  constructor
  · intro face hface
    obtain ⟨t, -, rfl⟩ := List.mem_map.mp hface
    exact Nat.le_refl 3
  · exact (triangleCount_map_toList mesh.faces).le

/-- **Never more triangles.** Where the passes succeed, what comes out are triangles with
    their places, at least one and at most as many as went in. -/
theorem simplified_shrinks [Scalar α] [Clipper α] {mesh : TriangleMesh α} {t : Tolerances α}
    {faces : List (EditorFace α)} (h : mesh.simplified t = .ok faces) :
    (∀ face ∈ faces, face.indices.length = 3 ∧ face.positions.length = 3) ∧
      1 ≤ faces.length ∧ faces.length ≤ mesh.faces.length := by
  obtain ⟨m, hrun, hne, rfl⟩ := exists_cut_of_simplified h
  have hsolid := mesh.solid_toMesh.run hrun
  have hcount : m.triangulate.readBack.length = triangleCount m.faces := by
    rw [Mesh.readBack, List.length_map, Mesh.length_faces_triangulate]
  refine ⟨?_, ?_, ?_⟩
  · intro face hface
    obtain ⟨corners, hcorners, rfl⟩ := List.mem_map.mp hface
    have hlen := Mesh.length_of_mem_triangulate hcorners
    exact ⟨hlen, by rw [Mesh.positions, List.length_map, hlen]⟩
  · rw [hcount]
    have := length_le_triangleCount hsolid.three_le
    have := List.length_pos_iff.mpr hne
    omega
  · rw [hcount]
    exact hsolid.count_le

end TriangleMesh

end CollisionMesh
