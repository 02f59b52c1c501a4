import CollisionMesh.Proofs.Loose
import CollisionMesh.Proofs.Weld

namespace CollisionMesh

open Relation

/-!
# Classes of places

Welding sorts vertices into classes. Where distances are the same both ways and every
vertex is near itself, these are the classes of their places: the chains of places, each
within the distance of the next. So a triangle survives welding iff its three corners
are in different classes.

* `Within`, `Chained` — places within the distance of each other, and chains of them;
* `Mesh.least_eq_iff_chained` — the classes of vertices are those of places;
* `Triple.Scattered` — a triangle with corners in different classes;
* `TriangleMesh.faces_weld_ne_nil_iff` — welding leaves a face iff one is scattered.
-/

variable {α : Type} [Scalar α]

/-- Two of the points that are within the distance of each other. -/
def Within (d : α) (points : List (Point α)) (p q : Point α) : Prop :=
  p ∈ points ∧ q ∈ points ∧ p.distanceSq q ≤ Mesh.reachSq d

/-- A chain of the points leads from one to the other, each within the distance of the
    next. -/
def Chained (d : α) (points : List (Point α)) : Point α → Point α → Prop :=
  TransGen (Within d points)

/-- A triangle with its corners in three different classes of the points. -/
def Triple.Scattered (d : α) (points : List (Point α)) (t : Triple (Point α)) : Prop :=
  ¬ Chained d points t.a t.b ∧ ¬ Chained d points t.b t.c ∧ ¬ Chained d points t.a t.c

namespace Mesh

variable {m : Mesh α} {d : α}

/-- Vertices with places on a chain are in one class. -/
theorem least_eq_of_chained {p q : Point α} (h : Chained d m.vertices.toList p q) {i j : Nat}
    (hi : i < m.vertices.size) (hj : j < m.vertices.size) (hp : m.position i = p)
    (hq : m.position j = q) : (m.clusters d).least i = (m.clusters d).least j := by
  induction h generalizing j with
  | single h =>
    apply least_eq_of_near hi hj
    apply decide_eq_true
    rw [hp, hq]
    exact h.2.2
  | @tail b c _ h ih =>
    -- A point in the middle of a chain is one of the places, so some vertex lies there.
    obtain ⟨k, hk, hb⟩ := (m.mem_vertices_iff b).mp (Array.mem_toList_iff.mp h.1)
    refine (ih hk hb).trans (least_eq_of_near hk hj ?_)
    apply decide_eq_true
    rw [hb, hq]
    exact h.2.2

/-- A chain of vertices is a chain of their places, where every place is near itself. -/
theorem Linked.chained (hc : m.Close d) {i j : Nat} (hi : i < m.vertices.size)
    (h : m.Linked d i j) : Chained d m.vertices.toList (m.position i) (m.position j) := by
  have hmem : ∀ {k}, k < m.vertices.size → m.position k ∈ m.vertices.toList :=
    fun hk => Array.mem_toList_iff.mpr (m.position_mem hk)
  induction h with
  | refl => exact .single ⟨hmem hi, hmem hi, hc _ (m.position_mem hi)⟩
  | tail _ hstep ih => exact ih.tail ⟨hmem hstep.1, hmem hstep.2.1, hstep.2.2⟩

/-- **Classes of places.** Two vertices are in one class iff a chain leads from the place of
    one to that of the other. -/
theorem least_eq_iff_chained (hcomm : ∀ p q : Point α, p.distanceSq q = q.distanceSq p)
    (hc : m.Close d) {i j : Nat} (hi : i < m.vertices.size) (hj : j < m.vertices.size) :
    (m.clusters d).least i = (m.clusters d).least j ↔
      Chained d m.vertices.toList (m.position i) (m.position j) :=
  ⟨fun h => ((least_eq_least_iff_linked hcomm hi hj).mp h).chained hc hi,
    fun h => least_eq_of_chained h hi hj rfl rfl⟩

/-- Welding leaves a face iff it cleans one without making it too short. -/
theorem faces_weld_ne_nil_iff_exists (m : Mesh α) (d : α) :
    (m.weld d).faces ≠ [] ↔
      ∃ face ∈ m.faces, 3 ≤ (cleanLoop (face.map (m.clusters d).least)).length := by
  have hlength : (m.weld d).faces.length = (weldFaces (m.clusters d).least m.faces).length :=
    length_faces_compact _
  rw [← List.length_pos_iff, hlength, List.length_pos_iff]
  constructor
  · intro hne
    obtain ⟨face, hface⟩ := List.exists_mem_of_ne_nil _ hne
    obtain ⟨⟨old, hold, rfl⟩, hlen⟩ := mem_weldFaces.mp hface
    exact ⟨old, hold, hlen⟩
  · rintro ⟨old, hold, hlen⟩
    exact List.ne_nil_of_mem (mem_weldFaces.mpr ⟨⟨old, hold, rfl⟩, hlen⟩)

end Mesh

/-- **What survives welding.** Of loose triangles a face is left iff the corners of one of
    them are in three different classes. -/
theorem TriangleMesh.faces_weld_ne_nil_iff
    (hcomm : ∀ p q : Point α, p.distanceSq q = q.distanceSq p) {d : α}
    {triangles : List (Triple (Point α))} (hc : (ofTriangles triangles).toMesh.Close d) :
    ((ofTriangles triangles).toMesh.weld d).faces ≠ [] ↔
      ∃ t ∈ triangles, t.Scattered d (triangles.flatMap Triple.toList) := by
  have hwell := wellIndexed_ofTriangles triangles
  have hshape := shape_ofTriangles triangles
  -- A face survives iff the triangle at its place is scattered.
  have hface : ∀ face ∈ (ofTriangles triangles).faces, ∀ t : Triple (Point α),
      (ofTriangles triangles).toMesh.positions face.toList = t.toList →
      (3 ≤ (cleanLoop (face.toList.map
        ((ofTriangles triangles).toMesh.clusters d).least)).length ↔
        t.Scattered d (triangles.flatMap Triple.toList)) := by
    rintro ⟨i, j, k⟩ hface ⟨a, b, c⟩ hplaces
    have hlt := hwell [i, j, k] (List.mem_map_of_mem hface)
    obtain ⟨rfl, rfl, rfl⟩ : _ = a ∧ _ = b ∧ _ = c := by
      simpa [Mesh.positions, Triple.toList] using hplaces
    have hi := hlt i (by simp)
    have hj := hlt j (by simp)
    have hk := hlt k (by simp)
    show 3 ≤ (cleanLoop [_, _, _]).length ↔ _
    rw [three_le_length_cleanLoop_iff, Ne, Ne, Ne, Mesh.least_eq_iff_chained hcomm hc hi hj,
      Mesh.least_eq_iff_chained hcomm hc hj hk, Mesh.least_eq_iff_chained hcomm hc hi hk]
    rfl
  rw [Mesh.faces_weld_ne_nil_iff_exists]
  constructor
  · rintro ⟨face, hmem, hlen⟩
    obtain ⟨corners, hcorners, rfl⟩ := List.mem_map.mp hmem
    have hplaces : (ofTriangles triangles).toMesh.positions corners.toList
        ∈ triangles.map Triple.toList := hshape ▸ List.mem_map_of_mem hmem
    obtain ⟨t, ht, heq⟩ := List.mem_map.mp hplaces
    exact ⟨t, ht, (hface corners hcorners t heq.symm).mp hlen⟩
  · rintro ⟨t, ht, hscattered⟩
    have hplaces : t.toList ∈ (ofTriangles triangles).toMesh.shape :=
      hshape ▸ List.mem_map_of_mem ht
    obtain ⟨face, hmem, heq⟩ := List.mem_map.mp hplaces
    obtain ⟨corners, hcorners, rfl⟩ := List.mem_map.mp hmem
    exact ⟨_, hmem, (hface corners hcorners t heq).mpr hscattered⟩

end CollisionMesh
