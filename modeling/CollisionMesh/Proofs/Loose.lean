import CollisionMesh.Proofs.Compact

namespace CollisionMesh.TriangleMesh

/-!
# Loose triangles as a mesh

The mesh of some loose triangles looks like them: face by face, its corners are the
points of a triangle, and there are no other vertices.

* `shape_ofTriangles` — the faces by the places of their corners;
* `wellIndexed_ofTriangles`, `mem_vertices_ofTriangles` — indices and vertices.
-/

variable {α : Type}

/-- The points of the `i`th triangle among those of all. -/
theorem getElem?_flatMap_toList {β : Type} (triangles : List (Triple β)) (i : Nat) :
    (triangles.flatMap Triple.toList)[3 * i]? = triangles[i]?.map Triple.a ∧
      (triangles.flatMap Triple.toList)[3 * i + 1]? = triangles[i]?.map Triple.b ∧
      (triangles.flatMap Triple.toList)[3 * i + 2]? = triangles[i]?.map Triple.c := by
  induction triangles generalizing i with
  | nil => simp
  | cons t rest ih =>
    have hflat : (t :: rest).flatMap Triple.toList
        = t.a :: t.b :: t.c :: rest.flatMap Triple.toList := rfl
    cases i with
    | zero => simp [hflat]
    | succ i =>
      have h := ih i
      rw [hflat, Nat.mul_succ]
      simpa using h

/-- There are three vertices for each triangle. -/
theorem size_vertices_ofTriangles (triangles : List (Triple (Point α))) :
    (ofTriangles triangles).vertices.size = 3 * triangles.length := by
  show (triangles.flatMap Triple.toList).toArray.size = _
  rw [List.size_toArray]
  induction triangles with
  | nil => rfl
  | cons t rest ih =>
    rw [List.flatMap_cons, List.length_append, ih, List.length_cons, Nat.mul_succ, Nat.add_comm]
    rfl

@[simp] theorem length_faces_ofTriangles (triangles : List (Triple (Point α))) :
    (ofTriangles triangles).faces.length = triangles.length := by
  simp [ofTriangles]

theorem wellIndexed_ofTriangles (triangles : List (Triple (Point α))) :
    (ofTriangles triangles).toMesh.WellIndexed := by
  intro face hface j hj
  obtain ⟨t, ht, rfl⟩ := List.mem_map.mp hface
  obtain ⟨i, hi, rfl⟩ := List.mem_map.mp ht
  have hi := List.mem_range.mp hi
  show j < (ofTriangles triangles).vertices.size
  rw [size_vertices_ofTriangles]
  simp only [Triple.toList, List.mem_cons, List.not_mem_nil, or_false] at hj
  omega

/-- The vertices are the points of the triangles. -/
theorem mem_vertices_ofTriangles {triangles : List (Triple (Point α))} {p : Point α} :
    p ∈ (ofTriangles triangles).toMesh.vertices ↔ ∃ t ∈ triangles, p ∈ t.toList := by
  show p ∈ (triangles.flatMap Triple.toList).toArray ↔ _
  rw [List.mem_toArray, List.mem_flatMap]

/-- **Loose triangles.** Face by face, the corners of the mesh are the points of the
    triangles. -/
theorem shape_ofTriangles [Scalar α] (triangles : List (Triple (Point α))) :
    (ofTriangles triangles).toMesh.shape = triangles.map Triple.toList := by
  apply List.ext_getElem (by simp [Mesh.shape, toMesh])
  intro i hi hi'
  rw [List.length_map] at hi'
  have hget := getElem?_flatMap_toList triangles i
  simp only [List.getElem?_eq_getElem hi', Option.map_some] at hget
  obtain ⟨ha, hb, hc⟩ := hget
  -- The places of the corners are looked up among the points of all triangles.
  have hposition : ∀ j, (ofTriangles triangles).toMesh.position j
      = (triangles.flatMap Triple.toList)[j]?.getD Point.origin := by
    intro j
    show (triangles.flatMap Triple.toList).toArray.getD j Point.origin = _
    rw [Array.getD_eq_getD_getElem?, List.getElem?_toArray]
  have hface : (ofTriangles triangles).toMesh.shape[i]
      = [3 * i, 3 * i + 1, 3 * i + 2].map (ofTriangles triangles).toMesh.position := by
    simp [Mesh.shape, Mesh.positions, toMesh, ofTriangles, Triple.toList]
  rw [hface, List.getElem_map]
  simp only [List.map_cons, List.map_nil, hposition, ha, hb, hc, Option.getD_some, Triple.toList]

end CollisionMesh.TriangleMesh
