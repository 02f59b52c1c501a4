import CollisionMesh.Proofs.Compact
import CollisionMesh.Proofs.Cycle
import CollisionMesh.Proofs.LeastForest

namespace CollisionMesh

open Relation

/-!
# What welding does

Every corner moves to the least vertex of its class. So no vertex is new, what is
left has no two vertices near each other, and a mesh that has none does not change
its looks.

* `Mesh.clusters_iff` — the classes are those that the near pairs generate;
* `Mesh.Linked` — chains of near vertices; `Mesh.least_eq_least_iff_linked`, `Mesh.isLeast_linked` —
  the classes and their least vertices by chains, where distances are the same both ways;
* `Mesh.wellIndexed_weld`, `Mesh.vertices_weld_subset` — indices and vertices;
* `Mesh.Apart` — near vertices lie in the same place; `Mesh.apart_weld` — they do
  after welding; `Mesh.nodup_vertices_weld` — no two vertices lie in one place then;
* `Mesh.Proper` — loops of at least three corners whose neighbours lie apart;
  `Mesh.proper_weld` — all loops are so after welding;
* `Mesh.shape_weld_of_apart` — where both hold, welding changes no place of a corner.
-/

/-! ### Loops after welding -/

/-- The loops after welding are the clean ones of at least three corners. -/
theorem mem_weldFaces {representative : Nat → Nat} {faces : List Face} {face : Face} :
    face ∈ weldFaces representative faces ↔
      (∃ old ∈ faces, cleanLoop (old.map representative) = face) ∧ 3 ≤ face.length := by
  rw [weldFaces, List.mem_filter, List.mem_map, decide_eq_true_eq]

/-- Corners after welding are representatives of corners. -/
theorem exists_corner_of_mem_weldFaces {representative : Nat → Nat} {faces : List Face}
    {face : Face} (h : face ∈ weldFaces representative faces) {i : Nat} (hi : i ∈ face) :
    ∃ old ∈ faces, ∃ j ∈ old, representative j = i := by
  -- Cleaning only takes corners away.
  obtain ⟨⟨old, hold, rfl⟩, -⟩ := mem_weldFaces.mp h
  obtain ⟨j, hj, rfl⟩ := List.mem_map.mp ((cleanLoop_sublist _).subset hi)
  exact ⟨old, hold, j, hj, rfl⟩

/-- A loop of three corners stays one iff all three differ. -/
theorem three_le_length_cleanLoop_iff (a b c : Nat) :
    3 ≤ (cleanLoop [a, b, c]).length ↔ a ≠ b ∧ b ≠ c ∧ a ≠ c := by
  by_cases hab : a = b <;> by_cases hbc : b = c <;> by_cases hac : a = c <;>
    simp_all [cleanLoop, squeeze]

namespace Mesh

variable {α : Type} [Scalar α]

/-! ### Classes -/

/-- **Classes.** Two vertices have the same representative iff they are linked by a
    chain of vertices, each near the next. -/
theorem clusters_iff (m : Mesh α) (d : α) {i j : Nat} (hi : i < m.vertices.size)
    (hj : j < m.vertices.size) :
    (m.clusters d).least i = (m.clusters d).least j ↔
      EqvGen (LeastForest.Linked (n := m.vertices.size) (m.near d)) ⟨i, hi⟩ ⟨j, hj⟩ :=
  LeastForest.least_ofRelation_iff _ hi hj

/-- Near vertices have the same representative. -/
theorem least_eq_of_near {m : Mesh α} {d : α} {i j : Nat} (hi : i < m.vertices.size)
    (hj : j < m.vertices.size) (h : m.near d i j = true) :
    (m.clusters d).least i = (m.clusters d).least j :=
  (m.clusters_iff d hi hj).mpr (EqvGen.rel _ _ h)

/-- A chain of vertices leads from one to the other, each within the threshold of the next. -/
def Linked (d : α) (m : Mesh α) : Nat → Nat → Prop :=
  ReflTransGen fun i j => i < m.vertices.size ∧ j < m.vertices.size ∧
    (m.position i).distanceSq (m.position j) ≤ reachSq d

/-- Only vertices are linked to vertices. -/
theorem Linked.lt {m : Mesh α} {d : α} {i j : Nat} (h : m.Linked d i j)
    (hi : i < m.vertices.size) : j < m.vertices.size := by
  rcases h.cases_tail with rfl | ⟨_, -, -, hj, -⟩
  · exact hi
  · exact hj

/-- Chains lead both ways where distances are the same both ways. -/
theorem Linked.symm {m : Mesh α} {d : α} {i j : Nat}
    (hcomm : ∀ p q : Point α, p.distanceSq q = q.distanceSq p) (h : m.Linked d i j) :
    m.Linked d j i := by
  induction h with
  | refl => exact .refl
  | tail _ hstep ih => exact ih.head ⟨hstep.2.1, hstep.1, hcomm _ _ ▸ hstep.2.2⟩

/-- **Chains.** Two vertices have the same representative iff a chain links them. -/
theorem least_eq_least_iff_linked {m : Mesh α} {d : α} {i j : Nat}
    (hcomm : ∀ p q : Point α, p.distanceSq q = q.distanceSq p)
    (hi : i < m.vertices.size) (hj : j < m.vertices.size) :
    (m.clusters d).least i = (m.clusters d).least j ↔ m.Linked d i j := by
  constructor
  · intro h
    -- The classes allow steps backwards. These are steps, as distances are the same both ways.
    suffices hall : ∀ a b, EqvGen (LeastForest.Linked (n := m.vertices.size) (m.near d)) a b →
        m.Linked d a b from hall _ _ ((m.clusters_iff d hi hj).mp h)
    intro a b hab
    induction hab with
    | rel a b hab => exact .single ⟨a.isLt, b.isLt, of_decide_eq_true hab⟩
    | refl a => exact .refl
    | symm a b _ ih => exact ih.symm hcomm
    | trans a b c _ _ hab hbc => exact hab.trans hbc
  · intro h
    induction h with
    | refl => rfl
    | tail _ hstep ih =>
      exact (ih hstep.1).trans (least_eq_of_near hstep.1 hj (decide_eq_true hstep.2.2))

/-- The representative of a vertex is the first one that a chain leads to. -/
theorem isLeast_linked {m : Mesh α} {i : Nat}
    (hcomm : ∀ p q : Point α, p.distanceSq q = q.distanceSq p) (d : α)
    (hi : i < m.vertices.size) : IsLeast {j | m.Linked d i j} ((m.clusters d).least i) := by
  have hclass : {j | m.Linked d i j}
      = {j | j < m.vertices.size ∧ (m.clusters d).least j = (m.clusters d).least i} := by
    ext j
    constructor
    · intro h
      exact ⟨h.lt hi, ((least_eq_least_iff_linked hcomm hi (h.lt hi)).mpr h).symm⟩
    · rintro ⟨hj, h⟩
      exact (least_eq_least_iff_linked hcomm hi hj).mp h.symm
  rw [hclass]
  exact LeastForest.isLeast_least _ hi

/-- The welded mesh before it is compacted. -/
abbrev welded (d : α) (m : Mesh α) : Mesh α :=
  { m with faces := weldFaces (m.clusters d).least m.faces }

/-- Corners after welding are representatives of vertices. -/
theorem exists_least_of_mem_used {m : Mesh α} {d : α} (hm : m.WellIndexed) {i : Nat}
    (hi : i ∈ (m.welded d).used) :
    i < m.vertices.size ∧ (m.clusters d).least i = i := by
  obtain ⟨face, hface, hi⟩ := mem_used.mp hi
  obtain ⟨old, hold, j, hj, rfl⟩ := exists_corner_of_mem_weldFaces hface hi
  exact ⟨LeastForest.least_lt _ (hm old hold j hj), LeastForest.least_least _ j⟩

theorem wellIndexed_welded {m : Mesh α} (hm : m.WellIndexed) (d : α) :
    (m.welded d).WellIndexed := by
  intro face hface i hi
  exact (exists_least_of_mem_used hm (mem_used.mpr ⟨face, hface, hi⟩)).1

theorem wellIndexed_weld (m : Mesh α) (d : α) : (m.weld d).WellIndexed :=
  wellIndexed_compact _

/-- Welding makes no new vertex. -/
theorem vertices_weld_subset {m : Mesh α} (hm : m.WellIndexed) (d : α) {p : Point α}
    (hp : p ∈ (m.weld d).vertices) : p ∈ m.vertices :=
  vertices_compact_subset (wellIndexed_welded hm d) hp

/-! ### Vertices apart -/

/-- Only vertices in the same place are within the distance of each other. -/
def Apart (d : α) (m : Mesh α) : Prop :=
  ∀ p ∈ m.vertices, ∀ q ∈ m.vertices, p.distanceSq q ≤ reachSq d → p = q

/-- Every vertex is within the distance of itself. That can only fail where a
    coordinate is not a finite number. -/
def Close (d : α) (m : Mesh α) : Prop :=
  ∀ p ∈ m.vertices, p.distanceSq p ≤ reachSq d

/-- Every loop has at least three corners, and neighbours lie in different places. -/
def Proper (m : Mesh α) : Prop :=
  ∀ loop ∈ m.shape, 3 ≤ loop.length ∧ ∀ e ∈ cyclicPairs loop, e.1 ≠ e.2

/-- Corners after welding that are near each other are one vertex. -/
theorem eq_of_near_of_mem_used {m : Mesh α} {d : α} (hm : m.WellIndexed) {i j : Nat}
    (hi : i ∈ (m.welded d).used) (hj : j ∈ (m.welded d).used) (h : m.near d i j = true) :
    i = j := by
  obtain ⟨hi, hii⟩ := exists_least_of_mem_used hm hi
  obtain ⟨hj, hjj⟩ := exists_least_of_mem_used hm hj
  -- Vertices in use are their own representatives.
  rw [← hii, ← hjj]
  exact least_eq_of_near hi hj h

/-- Corners after welding that lie in one place are one vertex. -/
theorem eq_of_position_eq_of_mem_used {m : Mesh α} {d : α} (hm : m.WellIndexed) (hd : m.Close d)
    {i j : Nat} (hi : i ∈ (m.welded d).used) (hj : j ∈ (m.welded d).used)
    (h : m.position i = m.position j) : i = j := by
  apply eq_of_near_of_mem_used hm hi hj
  apply decide_eq_true
  rw [h]
  exact hd _ (m.position_mem (exists_least_of_mem_used hm hj).1)

/-- **Welding separates.** No two places of the welded mesh are near each other. -/
theorem apart_weld {m : Mesh α} (hm : m.WellIndexed) (d : α) : (m.weld d).Apart d := by
  intro p hp q hq hpq
  obtain ⟨i, hi, rfl⟩ := mem_vertices_compact.mp hp
  obtain ⟨j, hj, rfl⟩ := mem_vertices_compact.mp hq
  rw [eq_of_near_of_mem_used hm hi hj (decide_eq_true hpq)]

/-- After welding no two vertices lie in one place. -/
theorem nodup_vertices_weld {m : Mesh α} {d : α} (hm : m.WellIndexed) (hd : m.Close d) :
    (m.weld d).vertices.toList.Nodup := by
  show ((m.welded d).used.map m.position).Nodup
  refine List.Nodup.map_on ?_ (nodup_used _)
  intro i hi j hj hplace
  exact eq_of_position_eq_of_mem_used hm hd hi hj hplace

/-- Neighbours in a loop after welding lie in different places. -/
theorem proper_weld {m : Mesh α} (hm : m.WellIndexed) {d : α} (hd : m.Close d) :
    (m.weld d).Proper := by
  intro loop hloop
  rw [weld, shape_compact] at hloop
  obtain ⟨face, hface, rfl⟩ := List.mem_map.mp hloop
  have hused : ∀ i ∈ face, i ∈ (m.welded d).used := fun i hi => mem_used.mpr ⟨face, hface, hi⟩
  obtain ⟨⟨old, -, hold⟩, hlen⟩ := mem_weldFaces.mp hface
  refine ⟨by rw [positions, List.length_map]; exact hlen, ?_⟩
  rw [positions, cyclicPairs_map]
  intro e he
  obtain ⟨⟨i, j⟩, hij, rfl⟩ := List.mem_map.mp he
  obtain ⟨hi, hj⟩ := mem_of_mem_cyclicPairs hij
  -- In the same place they would be one vertex, but neighbours in a clean loop differ.
  intro hplace
  have hne : i ≠ j := edges_cleanLoop (by rw [hold]; omega) (i, j) (by rw [hold]; exact hij)
  exact hne (eq_of_position_eq_of_mem_used hm hd (hused i hi) (hused j hj) hplace)

/-! ### Welding where nothing is near -/

/-- Where only vertices in the same place are near, these are the classes. -/
theorem least_eq_iff_position_eq {m : Mesh α} {d : α} (hd : m.Apart d) (hc : m.Close d) {i j : Nat}
    (hi : i < m.vertices.size) (hj : j < m.vertices.size) :
    (m.clusters d).least i = (m.clusters d).least j ↔ m.position i = m.position j := by
  constructor
  · refine LeastForest.eq_of_least_ofRelation_eq (fun i j hi hj hnear => ?_) hi hj
    exact hd _ (m.position_mem hi) _ (m.position_mem hj) (of_decide_eq_true hnear)
  · intro h
    apply least_eq_of_near hi hj
    apply decide_eq_true
    rw [h]
    exact hc _ (m.position_mem hj)

/-- Where only vertices in the same place are near, a vertex lies where its
    representative does. -/
theorem position_least {m : Mesh α} {d : α} (hd : m.Apart d) (hc : m.Close d) {i : Nat}
    (hi : i < m.vertices.size) : m.position ((m.clusters d).least i) = m.position i :=
  (least_eq_iff_position_eq hd hc (LeastForest.least_lt _ hi) hi).mp (LeastForest.least_least _ i)

/-- The corners of a loop lie where their representatives do. -/
theorem positions_map_least {m : Mesh α} {d : α} (hm : m.WellIndexed) (hd : m.Apart d)
    (hc : m.Close d) {face : Face} (hface : face ∈ m.faces) :
    m.positions (face.map (m.clusters d).least) = m.positions face := by
  rw [positions, List.map_map]
  apply List.map_congr_left
  intro i hi
  exact position_least hd hc (hm face hface i hi)

/-- **Nothing to weld.** Where only vertices in the same place are near and neighbours
    in a loop lie apart, welding changes no place of a corner, and no face is lost. -/
theorem shape_weld_of_apart {m : Mesh α} {d : α} (hm : m.WellIndexed) (hd : m.Apart d)
    (hc : m.Close d) (hp : m.Proper) : (m.weld d).shape = m.shape := by
  -- Replaced by their representatives, neighbours still lie in different places. So they
  -- differ, and the loops are clean already.
  have hclean : ∀ face ∈ m.faces, cleanLoop (face.map (m.clusters d).least)
      = face.map (m.clusters d).least ∧ 3 ≤ (face.map (m.clusters d).least).length := by
    intro face hface
    obtain ⟨hlen, hne⟩ := hp _ (List.mem_map_of_mem hface)
    rw [← positions_map_least hm hd hc hface, positions, cyclicPairs_map] at hne
    rw [positions, List.length_map] at hlen
    refine ⟨cleanLoop_eq_self ?_, by rw [List.length_map]; exact hlen⟩
    intro e he heq
    exact hne _ (List.mem_map_of_mem he) (congrArg m.position heq)
  have hfaces : weldFaces (m.clusters d).least m.faces
      = m.faces.map fun face => face.map (m.clusters d).least := by
    rw [weldFaces, List.map_congr_left fun face hface => (hclean face hface).1]
    rw [List.filter_eq_self]
    intro face hface
    obtain ⟨old, hold, rfl⟩ := List.mem_map.mp hface
    exact decide_eq_true (hclean old hold).2
  rw [weld, shape_compact]
  show (weldFaces (m.clusters d).least m.faces).map m.positions = m.faces.map m.positions
  rw [hfaces, List.map_map]
  apply List.map_congr_left
  intro face hface
  exact positions_map_least hm hd hc hface

end Mesh

end CollisionMesh
