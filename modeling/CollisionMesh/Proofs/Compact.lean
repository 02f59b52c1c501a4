import CollisionMesh.Mesh
import CollisionMesh.Proofs.FirstUse

namespace CollisionMesh.Mesh

/-!
# Positions, and meshes without unused vertices

What a mesh looks like are its faces by the places of their corners; how the
vertices are numbered does not show. Compacting only renumbers.

* `Mesh.shape` — the faces by the places of their corners;
* `getElem?_vertices`, `position_mem`, `mem_vertices_iff` — vertices as places of indices;
* `shape_compact`, `wellIndexed_compact`, `mem_vertices_compact` — what compacting
  keeps;
* `used_compact`, `compact_compact` — after it all vertices are in use, in their order, so
  that it does nothing more.
-/

variable {α : Type} [Scalar α]

/-! ### Places of vertices -/

/-- The faces by the places of their corners. -/
def shape (m : Mesh α) : List (List (Point α)) :=
  m.faces.map m.positions

/-- The vertex of an index in range. -/
theorem getElem?_vertices (m : Mesh α) {i : Nat} (h : i < m.vertices.size) :
    m.vertices[i]? = some (m.position i) := by
  rw [position, Array.getD_eq_getD_getElem?, Array.getElem?_eq_getElem h, Option.getD_some]

/-- The place of an index in range is a vertex. -/
theorem position_mem (m : Mesh α) {i : Nat} (h : i < m.vertices.size) :
    m.position i ∈ m.vertices :=
  Array.mem_of_getElem? (m.getElem?_vertices h)

/-- The vertices are the places of the indices in range. -/
theorem mem_vertices_iff (m : Mesh α) (p : Point α) :
    p ∈ m.vertices ↔ ∃ i < m.vertices.size, m.position i = p := by
  constructor
  · intro h
    obtain ⟨i, hi, rfl⟩ := Array.mem_iff_getElem.mp h
    exact ⟨i, hi, (Array.getElem_eq_iff.mpr (m.getElem?_vertices hi)).symm⟩
  · rintro ⟨i, hi, rfl⟩
    exact m.position_mem hi

/-- Corners of a well-indexed mesh lie at vertices. -/
theorem mem_vertices_of_mem_shape {m : Mesh α} (hm : m.WellIndexed) {loop : List (Point α)}
    (hl : loop ∈ m.shape) {p : Point α} (hp : p ∈ loop) : p ∈ m.vertices := by
  obtain ⟨face, hface, rfl⟩ := List.mem_map.mp hl
  obtain ⟨i, hi, rfl⟩ := List.mem_map.mp hp
  exact m.position_mem (hm face hface i hi)

/-! ### Compacting -/

omit [Scalar α] in
/-- The indices in use are those of the corners. -/
theorem mem_used {m : Mesh α} {i : Nat} : i ∈ m.used ↔ ∃ face ∈ m.faces, i ∈ face := by
  rw [used, List.mem_eraseDups, List.mem_flatten]

omit [Scalar α] in
/-- No index is listed twice as in use. -/
theorem nodup_used (m : Mesh α) : m.used.Nodup :=
  nodup_eraseDups _

/-- A vertex in use keeps its place under its new number. -/
theorem position_compact {m : Mesh α} {i : Nat} (h : i ∈ m.used) :
    m.compact.position (m.used.idxOf i) = m.position i := by
  have hlt : m.used.idxOf i < (m.used.map m.position).length := by
    rw [List.length_map]
    exact List.idxOf_lt_length_of_mem h
  -- The new number of a vertex is its place in the list of those in use.
  rw [position, compact, Array.getD_eq_getD_getElem?, List.getElem?_toArray,
    List.getElem?_eq_getElem hlt, Option.getD_some, List.getElem_map, List.getElem_idxOf]

/-- Compacting changes no place of a corner. -/
theorem shape_compact (m : Mesh α) : m.compact.shape = m.shape := by
  show (m.faces.map fun face => face.map fun i => m.used.idxOf i).map m.compact.positions = _
  rw [List.map_map]
  apply List.map_congr_left
  intro face hface
  show (face.map fun i => m.used.idxOf i).map m.compact.position = face.map m.position
  rw [List.map_map]
  apply List.map_congr_left
  intro i hi
  exact position_compact (mem_used.mpr ⟨face, hface, hi⟩)

/-- After compacting every corner is a vertex. -/
theorem wellIndexed_compact (m : Mesh α) : m.compact.WellIndexed := by
  intro face hface i hi
  obtain ⟨old, hold, rfl⟩ := List.mem_map.mp hface
  obtain ⟨j, hj, rfl⟩ := List.mem_map.mp hi
  show _ < (m.used.map m.position).toArray.size
  rw [List.size_toArray, List.length_map]
  exact List.idxOf_lt_length_of_mem (mem_used.mpr ⟨old, hold, hj⟩)

/-- The vertices after compacting are the places of the indices in use. -/
theorem mem_vertices_compact {m : Mesh α} {p : Point α} :
    p ∈ m.compact.vertices ↔ ∃ i ∈ m.used, m.position i = p := by
  show p ∈ (m.used.map m.position).toArray ↔ _
  rw [List.mem_toArray, List.mem_map]

/-- Compacting a well-indexed mesh makes no new vertex. -/
theorem vertices_compact_subset {m : Mesh α} (hm : m.WellIndexed) {p : Point α}
    (hp : p ∈ m.compact.vertices) : p ∈ m.vertices := by
  obtain ⟨i, hi, rfl⟩ := mem_vertices_compact.mp hp
  obtain ⟨face, hface, hi⟩ := mem_used.mp hi
  exact m.position_mem (hm face hface i hi)

/-- Compacting keeps the number of faces. -/
@[simp] theorem length_faces_compact (m : Mesh α) : m.compact.faces.length = m.faces.length :=
  List.length_map _

@[simp] theorem size_vertices_compact (m : Mesh α) : m.compact.vertices.size = m.used.length := by
  simp [compact]

/-! ### Compacting again -/

omit [Scalar α] in
/-- Different indices in use get different numbers. -/
theorem idxOf_used_inj {m : Mesh α} : ∀ i ∈ m.faces.flatten, ∀ j ∈ m.faces.flatten,
    m.used.idxOf i = m.used.idxOf j → i = j :=
  fun _ hi _ _ heq => (List.idxOf_inj (List.mem_eraseDups.mpr hi)).mp heq

/-- After compacting the vertices are in use in their order. -/
theorem used_compact (m : Mesh α) : m.compact.used = List.range m.used.length := by
  show ((m.faces.map fun face => face.map fun i => m.used.idxOf i).flatten).eraseDups = _
  rw [← List.map_flatten, eraseDups_map idxOf_used_inj]
  exact map_idxOf_eq_range m.nodup_used

/-- Compacting changes nothing where the vertices are in use in their order. -/
theorem compact_eq_self {m : Mesh α} (h : m.used = List.range m.vertices.size) :
    m.compact = m := by
  have hvertices : (m.used.map m.position).toArray = m.vertices := by
    rw [h]
    apply Array.ext (by simp)
    intro i hi _
    rw [List.size_toArray, List.length_map, List.length_range] at hi
    simp [position, hi]
  have hfaces : (m.faces.map fun face => face.map fun i => m.used.idxOf i) = m.faces := by
    refine (List.map_congr_left fun face hface => ?_).trans (List.map_id' _)
    refine (List.map_congr_left fun i hi => ?_).trans (List.map_id' _)
    have hlt : i < m.vertices.size := by
      have := mem_used.mpr ⟨face, hface, hi⟩
      rwa [h, List.mem_range] at this
    have hplace := List.nodup_range.idxOf_getElem i (by simpa using hlt)
    rwa [List.getElem_range, ← h] at hplace
  rw [compact, hvertices, hfaces]

/-- **Compacting again** changes nothing. -/
theorem compact_compact (m : Mesh α) : m.compact.compact = m.compact :=
  compact_eq_self (by rw [used_compact, size_vertices_compact])

end CollisionMesh.Mesh
