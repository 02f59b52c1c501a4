import CollisionMesh.Proofs.Quotient
import CollisionMesh.Proofs.Rewelding

namespace CollisionMesh

/-!
# Faces that collapse

Welding removes a face when fewer than three corners are left in its loop. A corner counts as often
as the loop comes back to it. So a loop stays where three of its edges lead from one class to
another, and it has three different corners where its old corners lie in three classes. What has
the first without the second goes to and fro between two vertices and is not removed.

* `Mesh.Lasts`, `Mesh.Parted` — the two conditions, by chains of vertices;
* `Mesh.lasts_iff`, `Mesh.parted_iff` — what they say of the cleaned loop;
* `Mesh.forall_spread_weld_iff` — when all faces left have three different corners;
* `Mesh.apply_weld_spread_iff` — what welding leaves of faces.
-/

namespace Mesh

variable {α : Type} [Scalar α] {m : Mesh α} {d : α} {face : Face}

/-- Three edges of the face lead between vertices that no chain links. -/
def Lasts (d : α) (m : Mesh α) (face : Face) : Prop :=
  ∃ edges : List (Nat × Nat), edges.Sublist (loopEdges face) ∧ 3 ≤ edges.length ∧
    ∀ e ∈ edges, ¬ m.Linked d e.1 e.2

/-- No chain links any two of three corners of the face. -/
def Parted (d : α) (m : Mesh α) (face : Face) : Prop :=
  ∃ i ∈ face, ∃ j ∈ face, ∃ k ∈ face,
    ¬ m.Linked d i j ∧ ¬ m.Linked d j k ∧ ¬ m.Linked d i k

/-! ### Faces after welding -/

/-- A face stays iff it lasts. -/
theorem lasts_iff (hcomm : ∀ p q : Point α, p.distanceSq q = q.distanceSq p)
    (hface : ∀ i ∈ face, i < m.vertices.size) :
    m.Lasts d face ↔ 3 ≤ (cleanLoop (face.map (m.clusters d).least)).length := by
  have hcross : ∀ e ∈ loopEdges face,
      ((m.clusters d).least e.1 ≠ (m.clusters d).least e.2 ↔ ¬ m.Linked d e.1 e.2) := by
    intro e he
    obtain ⟨h₁, h₂⟩ := mem_of_mem_cyclicPairs he
    exact not_congr (least_eq_least_iff_linked hcomm (hface _ h₁) (hface _ h₂))
  rw [three_le_length_cleanLoop_iff_changes, changes, loopEdges, cyclicPairs_map, List.countP_map]
  constructor
  · rintro ⟨edges, hsub, hlen, hedges⟩
    have hall : edges.countP ((fun e => e.1 != e.2) ∘ Prod.map (m.clusters d).least
        (m.clusters d).least) = edges.length :=
      List.countP_eq_length.mpr fun e he =>
        bne_iff_ne.mpr ((hcross e (hsub.subset he)).mpr (hedges e he))
    exact (hall ▸ hlen).trans hsub.countP_le
  · intro hcount
    rw [List.countP_eq_length_filter] at hcount
    refine ⟨_, List.filter_sublist, hcount, fun e he => ?_⟩
    obtain ⟨hmem, hne⟩ := List.mem_filter.mp he
    exact (hcross e hmem).mp (bne_iff_ne.mp hne)

/-- What is left of a face has three different corners iff its old ones are parted. -/
theorem parted_iff (hcomm : ∀ p q : Point α, p.distanceSq q = q.distanceSq p)
    (hface : ∀ i ∈ face, i < m.vertices.size) :
    m.Parted d face ↔ Spread (cleanLoop (face.map (m.clusters d).least)) := by
  have hclass : ∀ i ∈ face, ∀ j ∈ face,
      ((m.clusters d).least i ≠ (m.clusters d).least j ↔ ¬ m.Linked d i j) := fun i hi j hj =>
    not_congr (least_eq_least_iff_linked hcomm (hface i hi) (hface j hj))
  rw [spread_cleanLoop, spread_map]
  exact ⟨exists_three_mono fun i hi j hj => (hclass i hi j hj).mpr,
    exists_three_mono fun i hi j hj => (hclass i hi j hj).mp⟩

/-- A face left has no more corners than an old one. -/
theorem exists_length_le_of_mem_faces_weld {left : Face} (h : left ∈ (m.weld d).faces) :
    ∃ face ∈ m.faces, left.length ≤ face.length := by
  obtain ⟨loop, hloop, rfl⟩ := List.mem_map.mp h
  obtain ⟨⟨face, hface, rfl⟩, -⟩ := mem_weldFaces.mp hloop
  refine ⟨face, hface, ?_⟩
  rw [List.length_map]
  exact (cleanLoop_sublist _).length_le.trans_eq (List.length_map _)

/-- **Three corners or two.** A face left lacks three different corners iff it goes to and fro
    between two vertices. -/
theorem not_spread_weld_iff {left : Face} (h : left ∈ (m.weld d).faces) :
    ¬ Spread left ↔ ∃ a b n, a ≠ b ∧ 2 ≤ n ∧ left = toAndFro a b n :=
  have hclean := clean_weld m d left h
  not_spread_iff hclean.1 hclean.2

/-- **Three corners.** All faces left have three different corners iff the corners of every face
    that lasts are parted. -/
theorem forall_spread_weld_iff (hcomm : ∀ p q : Point α, p.distanceSq q = q.distanceSq p)
    (hm : m.WellIndexed) :
    (∀ left ∈ (m.weld d).faces, Spread left) ↔
      ∀ face ∈ m.faces, m.Lasts d face → m.Parted d face := by
  have hfaces : (m.weld d).faces
      = (m.welded d).faces.map (List.map fun i => (m.welded d).used.idxOf i) := rfl
  have hspread : ∀ loop ∈ (m.welded d).faces,
      (Spread (loop.map fun i => (m.welded d).used.idxOf i) ↔ Spread loop) := fun loop hloop =>
    spread_map_of_inj fun i hi j hj => idxOf_used_inj i (List.mem_flatten_of_mem hloop hi) j
      (List.mem_flatten_of_mem hloop hj)
  rw [hfaces, List.forall_mem_map]
  constructor
  · intro h face hface hlasts
    have hloop : cleanLoop (face.map (m.clusters d).least) ∈ (m.welded d).faces :=
      mem_weldFaces.mpr ⟨⟨face, hface, rfl⟩, (lasts_iff hcomm (hm face hface)).mp hlasts⟩
    exact (parted_iff hcomm (hm face hface)).mpr ((hspread _ hloop).mp (h _ hloop))
  · intro h loop hloop
    obtain ⟨⟨face, hface, rfl⟩, hlen⟩ := mem_weldFaces.mp hloop
    exact (hspread _ hloop).mpr ((parted_iff hcomm (hm face hface)).mp
      (h face hface ((lasts_iff hcomm (hm face hface)).mpr hlen)))

/-- Of triangles only triangles are left. -/
theorem spread_weld_of_triangles (h : ∀ face ∈ m.faces, face.length ≤ 3) {left : Face}
    (hleft : left ∈ (m.weld d).faces) : Spread left := by
  by_contra hnot
  obtain ⟨a, b, n, -, hn, rfl⟩ := (not_spread_weld_iff hleft).mp hnot
  -- To and fro twice takes four corners.
  obtain ⟨face, hface, hlen⟩ := exists_length_le_of_mem_faces_weld hleft
  have hface := h face hface
  rw [length_toAndFro] at hlen
  omega

/-! ### The result -/

/-- **What is left.** On any mesh with faces welding succeeds. A face that is left has three
    different corners, unless it goes to and fro between two vertices. There are none of the latter
    iff the corners of every face that lasts are parted, as is the case for triangles. -/
theorem apply_weld_spread_iff [Clipper Float] {m : Mesh Float} (hm : m.WellIndexed)
    (hne : m.faces ≠ []) (d : Float) :
    ∃ m', m.apply (.weld d) = .ok m' ∧
      (∀ left ∈ m'.faces, ¬ Spread left ↔ ∃ a b n, a ≠ b ∧ 2 ≤ n ∧ left = toAndFro a b n) ∧
      ((∀ left ∈ m'.faces, Spread left) ↔ ∀ face ∈ m.faces, m.Lasts d face → m.Parted d face) ∧
      ((∀ face ∈ m.faces, face.length ≤ 3) → ∀ left ∈ m'.faces, Spread left) :=
  ⟨m.weld d, apply_of_ne_nil hne _, fun _ => not_spread_weld_iff,
    forall_spread_weld_iff (distanceSq_comm Float.acos) hm,
    fun h _ => spread_weld_of_triangles h⟩

/-- The bridge keeps a face with three different corners, so its corners were parted. -/
theorem apply_weld_spread_iff_bridge :
    bridge.WellIndexed ∧ bridge.faces ≠ [] ∧
      ∃ m', bridge.apply (.weld 2.5) = .ok m' ∧ m'.faces = [[0, 1, 0, 2]] ∧
        ∀ face ∈ bridge.faces, bridge.Lasts 2.5 face → bridge.Parted 2.5 face := by
  have hwell : bridge.WellIndexed := by decide
  have hne : bridge.faces ≠ [] := List.cons_ne_nil _ _
  obtain ⟨m', happly, -, hiff, -⟩ := apply_weld_spread_iff hwell hne 2.5
  obtain rfl : bridge.weld 2.5 = m' := edit_eq_of_apply_eq_ok happly
  have hfaces : (bridge.weld 2.5).faces = [[0, 1, 0, 2]] := by decide +kernel
  exact ⟨hwell, hne, _, happly, hfaces, hiff.mp (by rw [hfaces]; decide)⟩

/-- A narrow quadrilateral, whose corners at either end are near each other. -/
def ribbon : Mesh Float where
  vertices := #[⟨0, 0, 0⟩, ⟨10, 0, 0⟩, ⟨1, 0, 0⟩, ⟨11, 0, 0⟩]
  faces := [[0, 1, 2, 3]]

/-- Welding does not remove the ribbon, though only two of its corners are different then. -/
theorem ribbon_left :
    ribbon.WellIndexed ∧ ribbon.faces ≠ [] ∧
      ∃ m', ribbon.apply (.weld 2.5) = .ok m' ∧ m'.faces = [[0, 1, 0, 1]] ∧
        ¬ ∀ left ∈ m'.faces, Spread left := by
  have hwell : ribbon.WellIndexed := by decide
  have hne : ribbon.faces ≠ [] := List.cons_ne_nil _ _
  have hfaces : (ribbon.weld 2.5).faces = [[0, 1, 0, 1]] := by decide +kernel
  refine ⟨hwell, hne, ribbon.weld 2.5, apply_of_ne_nil hne _, hfaces, ?_⟩
  rw [hfaces]
  decide

end Mesh

end CollisionMesh
