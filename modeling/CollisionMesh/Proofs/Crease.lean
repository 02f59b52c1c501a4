import CollisionMesh.Mesh.Crease
import CollisionMesh.Proofs.Compact

namespace CollisionMesh

/-!
# What splitting creases does

A fan takes a vertex itself or a copy of it, and a copy lies where the vertex does.
So a mesh with split creases looks as before, corner by corner.

* `FanTable.corner_cases` — a corner keeps its vertex or takes one of the copies of
  it;
* `Mesh.withCopies` — the vertices of a mesh followed by copies of some of them;
* `Mesh.shape_splitEdges` — splitting changes no place of a corner;
* `Mesh.wellIndexed_splitEdges`, `Mesh.vertices_splitEdges_subset` — indices and
  vertices.
-/

/-- A corner keeps its vertex or takes a copy of just that vertex. -/
theorem FanTable.corner_cases (t : FanTable) (copies : List (Nat × Nat)) (f v : Nat) :
    t.corner copies f v = v ∨
      ∃ k first, copies[k]? = some (v, first) ∧ t.corner copies f v = t.size + k := by
  unfold FanTable.corner
  -- A face without a fan at `v` keeps it, and so does the first fan, which has no copy.
  cases (t.getD v []).lookup f with
  | none => exact .inl rfl
  | some first =>
    cases hk : copies.idxOf? (v, first) with
    | none =>
      simp only [hk]
      exact .inl trivial
    | some k =>
      obtain ⟨hlt, hget, -⟩ := List.idxOf?_eq_some_iff.mp hk
      simp only [hk]
      exact .inr ⟨k, first, by rw [List.getElem?_eq_getElem hlt, hget], rfl⟩

namespace Mesh

variable {α : Type} [Scalar α]

/-! ### Copies of vertices -/

/-- The vertices of a mesh followed by copies of some of them. -/
def withCopies (m : Mesh α) (copies : List (Nat × Nat)) : Array (Point α) :=
  m.vertices ++ (copies.map fun copy => m.position copy.1).toArray

@[simp] theorem size_withCopies (m : Mesh α) (copies : List (Nat × Nat)) :
    (m.withCopies copies).size = m.vertices.size + copies.length := by
  simp [withCopies]

/-- A vertex that was there already stays where it is. -/
theorem position_withCopies_old (m : Mesh α) (copies : List (Nat × Nat)) (faces : List Face)
    {v : Nat} (hv : v < m.vertices.size) :
    position ⟨m.withCopies copies, faces⟩ v = m.position v := by
  rw [position, position, withCopies, Array.getD_eq_getD_getElem?, Array.getD_eq_getD_getElem?,
    Array.getElem?_append_left hv]

/-- A copy lies where the vertex does that it is made of. -/
theorem position_withCopies_new (m : Mesh α) {copies : List (Nat × Nat)} (faces : List Face)
    {k v first : Nat} (hk : copies[k]? = some (v, first)) :
    position ⟨m.withCopies copies, faces⟩ (m.vertices.size + k) = m.position v := by
  rw [position, withCopies, Array.getD_eq_getD_getElem?,
    Array.getElem?_append_right (Nat.le_add_right _ _), Nat.add_sub_cancel_left,
    List.getElem?_toArray, List.getElem?_map, hk, Option.map_some, Option.getD_some]

/-- A copy of a vertex of the list is no new vertex. -/
theorem mem_of_mem_withCopies {m : Mesh α} {copies : List (Nat × Nat)}
    (hc : ∀ copy ∈ copies, copy.1 < m.vertices.size) {p : Point α}
    (hp : p ∈ m.withCopies copies) : p ∈ m.vertices := by
  rw [withCopies, Array.mem_append] at hp
  rcases hp with hp | hp
  · exact hp
  · obtain ⟨copy, hcopy, rfl⟩ := List.mem_map.mp (List.mem_toArray.mp hp)
    exact m.position_mem (hc copy hcopy)

/-! ### Split meshes -/

/-- Copies are made of vertices that the table knows. -/
theorem fst_lt_of_mem_copies {t : FanTable} {copy : Nat × Nat} (h : copy ∈ t.copies) :
    copy.1 < t.size := by
  obtain ⟨⟨fans, v⟩, hv, hcopy⟩ := List.mem_flatMap.mp h
  obtain ⟨first, -, rfl⟩ := List.mem_map.mp hcopy
  have := (List.mem_zipIdx hv).2.1
  simpa using this

/-- A corner of a split mesh lies where it did, at a vertex or a copy. -/
theorem position_corner (m : Mesh α) {t : FanTable} (ht : t.size = m.vertices.size)
    (faces : List Face) (f : Nat) {v : Nat} (hv : v < m.vertices.size) :
    t.corner t.copies f v < (m.withCopies t.copies).size ∧
      position ⟨m.withCopies t.copies, faces⟩ (t.corner t.copies f v) = m.position v := by
  -- A vertex of the list, or the copy with number `k` after the list.
  rcases t.corner_cases t.copies f v with h | ⟨k, first, hk, h⟩
  · rw [h, size_withCopies]
    exact ⟨Nat.lt_add_right _ hv, m.position_withCopies_old t.copies faces hv⟩
  · have hlt : k < t.copies.length := (List.getElem?_eq_some_iff.mp hk).1
    rw [h, ht, size_withCopies]
    exact ⟨Nat.add_lt_add_left hlt _, m.position_withCopies_new faces hk⟩

/-- A split mesh is the mesh itself, or has copies of its vertices by a table of all of
    them. -/
theorem splitEdges_cases (angle : α) (m : Mesh α) :
    m.splitEdges angle = m ∨ ∃ t : FanTable, t.size = m.vertices.size ∧
      m.splitEdges angle = ⟨m.withCopies t.copies,
        m.faces.zipIdx.map fun (face, f) => face.map (t.corner t.copies f)⟩ := by
  unfold splitEdges
  dsimp only
  split
  · refine .inr ⟨(m.creases angle).table m.vertices.size, ?_, rfl⟩
    rw [Creases.table, List.size_toArray, List.length_map, List.length_range]
  · exact .inl rfl

/-- **Splitting moves nothing.** Every corner of every face stays in its place. -/
theorem shape_splitEdges {m : Mesh α} (hm : m.WellIndexed) (angle : α) :
    (m.splitEdges angle).shape = m.shape := by
  rcases m.splitEdges_cases angle with h | ⟨t, ht, h⟩
  · rw [h]
  · rw [h, shape, shape, List.map_map]
    -- Face by face, as the corners of a face are replaced by those of its own fans.
    apply List.ext_getElem (by simp)
    intro f hf hf'
    rw [List.length_map, List.length_zipIdx] at hf
    simp only [List.getElem_map, List.getElem_zipIdx, Function.comp_apply, Nat.zero_add, positions,
      List.map_map]
    apply List.map_congr_left
    intro v hv
    exact (m.position_corner ht _ f (hm _ (List.getElem_mem hf) v hv)).2

theorem wellIndexed_splitEdges {m : Mesh α} (hm : m.WellIndexed) (angle : α) :
    (m.splitEdges angle).WellIndexed := by
  rcases m.splitEdges_cases angle with h | ⟨t, ht, h⟩
  · rw [h]
    exact hm
  · rw [h]
    intro face hface i hi
    obtain ⟨⟨old, f⟩, hold, rfl⟩ := List.mem_map.mp hface
    obtain ⟨v, hv, rfl⟩ := List.mem_map.mp hi
    exact (m.position_corner ht [] f (hm old (List.fst_mem_of_mem_zipIdx hold) v hv)).1

/-- Splitting makes no vertex in a new place. -/
theorem vertices_splitEdges_subset {m : Mesh α} {angle : α} {p : Point α}
    (hp : p ∈ (m.splitEdges angle).vertices) : p ∈ m.vertices := by
  rcases m.splitEdges_cases angle with h | ⟨t, ht, h⟩
  · exact h ▸ hp
  · rw [h] at hp
    exact mem_of_mem_withCopies (fun copy hcopy => ht ▸ fst_lt_of_mem_copies hcopy) hp

end Mesh

end CollisionMesh
