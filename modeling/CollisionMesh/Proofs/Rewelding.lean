import CollisionMesh.Proofs.Passes
import CollisionMesh.Proofs.Scene
import CollisionMesh.Proofs.Refusal

namespace CollisionMesh

/-!
# Welding again

What is left after welding are the least vertices of their classes, one of each. Two that are near
each other are in one class, so they are one vertex, and a second time every vertex is a class of
its own. Loops are clean by then and vertices numbered by first use, so nothing changes.

* `Mesh.Separate`, `Mesh.Clean` — vertices apart from each other, and loops without repeats;
* `Mesh.separate_weld`, `Mesh.clean_weld` — a welded mesh has both;
* `Mesh.weld_of_separate` — welding such a mesh only compacts it; `Mesh.weld_weld`;
* `Mesh.apply_weld_again` — welding a welded mesh, alone and in a scene.
-/

namespace Mesh

variable {α : Type} [Scalar α] {m : Mesh α} {d : α}

/-- No two vertices are within the threshold of each other. -/
def Separate (d : α) (m : Mesh α) : Prop :=
  ∀ i j, i < m.vertices.size → j < m.vertices.size →
    (m.position i).distanceSq (m.position j) ≤ reachSq d → i = j

omit [Scalar α] in
/-- Every loop has at least three corners, and neighbours are different vertices. -/
def Clean (m : Mesh α) : Prop :=
  ∀ face ∈ m.faces, 3 ≤ face.length ∧ ∀ e ∈ loopEdges face, e.1 ≠ e.2

/-! ### Welded meshes -/

/-- **Apart.** No two vertices of a welded mesh are within the threshold of each other. -/
theorem separate_weld (hm : m.WellIndexed) (d : α) : (m.weld d).Separate d := by
  have hold : ∀ i < (m.weld d).vertices.size, ∃ k ∈ (m.welded d).used,
      (m.welded d).used.idxOf k = i := by
    intro i hi
    have hlt : i < (m.welded d).used.length := size_vertices_compact (m.welded d) ▸ hi
    exact ⟨_, List.getElem_mem hlt, (m.welded d).nodup_used.idxOf_getElem i hlt⟩
  intro i j hi hj hnear
  obtain ⟨k, hk, rfl⟩ := hold i hi
  obtain ⟨l, hl, rfl⟩ := hold j hj
  -- Both lie where they did before they got their numbers.
  have hplace : ∀ v ∈ (m.welded d).used,
      (m.weld d).position ((m.welded d).used.idxOf v) = m.position v := fun v hv => position_compact hv
  rw [hplace k hk, hplace l hl] at hnear
  rw [eq_of_near_of_mem_used hm hk hl (decide_eq_true hnear)]

/-- Loops of a welded mesh are clean. -/
theorem clean_weld (m : Mesh α) (d : α) : (m.weld d).Clean := by
  intro face hface
  obtain ⟨old, hold, rfl⟩ := List.mem_map.mp hface
  have hlen := (mem_weldFaces.mp hold).2
  obtain ⟨⟨_, -, rfl⟩, -⟩ := mem_weldFaces.mp hold
  refine ⟨by rwa [List.length_map], ?_⟩
  rw [loopEdges, cyclicPairs_map]
  intro e he heq
  obtain ⟨⟨i, j⟩, hij, rfl⟩ := List.mem_map.mp he
  obtain ⟨hi, hj⟩ := mem_of_mem_cyclicPairs hij
  refine edges_cleanLoop (by omega) (i, j) hij ?_
  exact idxOf_used_inj i (List.mem_flatten_of_mem hold hi) j (List.mem_flatten_of_mem hold hj) heq

/-! ### Meshes with nothing to weld -/

/-- Where vertices are apart every one is a class of its own. -/
theorem Separate.least_eq (h : m.Separate d) {i : Nat} (hi : i < m.vertices.size) :
    (m.clusters d).least i = i := by
  have hsame : ∀ i j, i < m.vertices.size → j < m.vertices.size → m.near d i j = true →
      id i = id j := fun i j hi hj hnear => h i j hi hj (of_decide_eq_true hnear)
  exact LeastForest.eq_of_least_ofRelation_eq hsame (LeastForest.least_lt _ hi) hi
    (LeastForest.least_least _ i)

/-- **Nothing near.** Where vertices are apart and loops clean, welding only drops unused vertices. -/
theorem weld_of_separate (hm : m.WellIndexed) (h : m.Separate d) (hclean : m.Clean) :
    m.weld d = m.compact := by
  have hcleaned : (m.faces.map fun face => cleanLoop (face.map (m.clusters d).least)) = m.faces := by
    refine (List.map_congr_left fun face hface => ?_).trans (List.map_id' _)
    have hsame : face.map (m.clusters d).least = face :=
      (List.map_congr_left fun i hi => h.least_eq (hm face hface i hi)).trans (List.map_id' _)
    rw [hsame, cleanLoop_eq_self (hclean face hface).2]
  have hfaces : weldFaces (m.clusters d).least m.faces = m.faces := by
    rw [weldFaces, hcleaned, List.filter_eq_self]
    exact fun face hface => decide_eq_true (hclean face hface).1
  rw [weld, hfaces]

/-- Welding a welded mesh changes nothing. -/
theorem weld_weld (hm : m.WellIndexed) (d : α) : (m.weld d).weld d = m.weld d := by
  rw [weld_of_separate (wellIndexed_weld m d) (separate_weld hm d) (clean_weld m d)]
  exact compact_compact (m.welded d)

/-! ### The result -/

/-- **Welding again.** On any mesh with faces welding succeeds, and then no two vertices are within
    the threshold of each other. If there is a face left, welding again succeeds with the very same
    mesh, and else it is refused. In a scene nothing changes the second time, either way. -/
theorem apply_weld_again [Clipper α] (hm : m.WellIndexed) (hne : m.faces ≠ []) (d : α) :
    ∃ m', m.apply (.weld d) = .ok m' ∧
      (∀ i j, i < m'.vertices.size → j < m'.vertices.size → i ≠ j →
        ¬ (m'.position i).distanceSq (m'.position j) ≤ reachSq d) ∧
      (m'.faces ≠ [] → m'.apply (.weld d) = .ok m') ∧
      (m'.faces = [] → m'.apply (.weld d) = .error .noFaces) ∧
      ∀ {scene : Scene α} {h : Handle}, scene.mesh? h = some m →
        ∃ scene', scene.apply (.weld d) h = (.ok (), scene') ∧ scene'.mesh? h = some m' ∧
          (scene'.apply (.weld d) h).2 = scene' := by
  have hwelded : m.apply (.weld d) = .ok (m.weld d) := apply_of_ne_nil hne _
  have hagain : (m.weld d).faces ≠ [] → (m.weld d).apply (.weld d) = .ok (m.weld d) := by
    intro hfaces
    rw [apply_of_ne_nil hfaces]
    exact congrArg _ (weld_weld hm d)
  refine ⟨m.weld d, hwelded, fun i j hi hj hij hnear => hij (separate_weld hm d i j hi hj hnear),
    hagain, fun hfaces => apply_of_eq_nil hfaces _, ?_⟩
  intro scene h hlive
  have hlive' := Scene.mesh?_put hlive (m.weld d)
  refine ⟨scene.put h (m.weld d), ?_, hlive', ?_⟩
  · rw [Scene.apply_live hlive, hwelded]
  · rw [Scene.apply_live hlive']
    by_cases hfaces : (m.weld d).faces = []
    · rw [apply_of_eq_nil hfaces]
    · -- The welded mesh is put in its own place.
      rw [hagain hfaces]
      exact scene.put_put h _ _

/-- A row of corners each near the next, and two corners far away. -/
def beads : Mesh Float where
  vertices := #[⟨0, 0, 0⟩, ⟨2, 0, 0⟩, ⟨4, 0, 0⟩, ⟨20, 0, 0⟩, ⟨0, 20, 0⟩]
  faces := [[0, 1, 2, 3, 4]]

/-- The row becomes its first corner, and then nothing is left to weld. -/
theorem apply_weld_again_beads :
    beads.WellIndexed ∧ beads.faces ≠ [] ∧
      ∃ m', beads.apply (.weld 2.5) = .ok m' ∧ m'.faces = [[0, 1, 2]] ∧
        m'.apply (.weld 2.5) = .ok m' := by
  have hwell : beads.WellIndexed := by decide
  have hne : beads.faces ≠ [] := List.cons_ne_nil _ _
  obtain ⟨m', happly, -, hagain, -⟩ := apply_weld_again hwell hne 2.5
  obtain rfl : beads.weld 2.5 = m' := edit_eq_of_apply_eq_ok happly
  have hfaces : (beads.weld 2.5).faces = [[0, 1, 2]] := by decide +kernel
  exact ⟨hwell, hne, _, happly, hfaces, hagain (hfaces ▸ List.cons_ne_nil _ _)⟩

end Mesh

end CollisionMesh
