import CollisionMesh.Proofs.Halving
import CollisionMesh.Proofs.Loose
import CollisionMesh.Proofs.Passes
import CollisionMesh.Proofs.Splitting

namespace CollisionMesh

/-!
# Meshes on the lattice

What the passes make of a mesh on the lattice can be told from the names of its corners, however its
vertices are numbered. Welding changes no loop of different corners, splitting none that look down, and
a square is cut in two.

* `Mesh.Shows` — the loops that a mesh shows; `shows_ofTriangles` — those of loose triangles;
* `Mesh.Shows.weld`, `Mesh.Shows.splitEdges_eq`, `Mesh.Shows.triangulate` — welding, splitting and
  cutting;
* `Mesh.Shows.exists_numbering` — numbers for the names of corners.
-/

namespace Mesh

/-- The faces of a mesh lie on some loops of the lattice, in their order, and so do all its
    vertices. -/
structure Shows (m : Mesh ℝ) (loops : List (List (Nat × Nat))) : Prop where
  wellIndexed : m.WellIndexed
  onLattice : m.OnLattice
  shape_eq : m.shape = loops.map (List.map place)

/-- Where no two vertices lie in one place, a vertex is told from its place. -/
private theorem idxOf_position {m : Mesh ℝ} (hnodup : m.vertices.toList.Nodup) {i : Nat}
    (hi : i < m.vertices.size) : m.vertices.toList.idxOf (m.position i) = i := by
  have hget : m.position i = m.vertices.toList[i] :=
    (Array.getElem_eq_iff.mpr (m.getElem?_vertices hi)).symm
  rw [hget]
  exact hnodup.idxOf_getElem i hi

/-- So are the faces from the places of their corners. -/
private theorem faces_eq_map_shape {m : Mesh ℝ} (hm : m.WellIndexed)
    (hnodup : m.vertices.toList.Nodup) :
    m.faces = m.shape.map (List.map m.vertices.toList.idxOf) := by
  rw [shape, List.map_map]
  refine (List.map_id m.faces).symm.trans (List.map_congr_left fun face hface => ?_)
  rw [Function.comp_apply, positions, List.map_map]
  refine (List.map_id face).symm.trans (List.map_congr_left fun i hi => ?_)
  exact (idxOf_position hnodup (hm face hface i hi)).symm

namespace Shows

variable {m : Mesh ℝ} {loops loops' : List (List (Nat × Nat))}

theorem length_eq (h : m.Shows loops) : m.faces.length = loops.length := by
  have hlen := congrArg List.length h.shape_eq
  rwa [shape, List.length_map, List.length_map] at hlen

theorem faces_ne_nil (h : m.Shows loops) (hloops : loops ≠ []) : m.faces ≠ [] := by
  rw [← List.length_pos_iff] at hloops ⊢
  rwa [h.length_eq]

/-- After a pass only the shape has to be known: all vertices stay on the lattice. -/
theorem edit [Clipper ℝ] (h : m.Shows loops) (pass : Pass ℝ)
    (hshape : (pass.edit m).shape = loops'.map (List.map place)) : (pass.edit m).Shows loops' := by
  have hgrounded : m.Grounded m.vertices.toList :=
    ⟨h.wellIndexed, fun _ hp => Array.mem_toList_iff.mpr hp⟩
  have hafter := hgrounded.edit pass
  refine ⟨hafter.wellIndexed, fun p hp => ?_, hshape⟩
  exact h.onLattice p (Array.mem_toList_iff.mp (hafter.vertices p hp))

/-- A face lies on one of the loops. -/
theorem exists_loop (h : m.Shows loops) {face : Face} (hface : face ∈ m.faces) :
    ∃ loop ∈ loops, m.positions face = loop.map place := by
  have hmem : m.positions face ∈ m.shape := List.mem_map_of_mem hface
  rw [h.shape_eq] at hmem
  obtain ⟨loop, hloop, heq⟩ := List.mem_map.mp hmem
  exact ⟨loop, hloop, heq.symm⟩

/-- Faces on loops of different corners are proper. -/
theorem proper (h : m.Shows loops) (hloops : ∀ loop ∈ loops, loop.Nodup ∧ 3 ≤ loop.length) :
    m.Proper := by
  rw [Proper, h.shape_eq]
  intro points hpoints
  obtain ⟨loop, hloop, rfl⟩ := List.mem_map.mp hpoints
  obtain ⟨hnodup, hlen⟩ := hloops loop hloop
  refine ⟨by rwa [List.length_map], ?_⟩
  rintro ⟨p, q⟩ he heq
  rw [cyclicPairs_map] at he
  obtain ⟨⟨a, b⟩, hab, hpq⟩ := List.mem_map.mp he
  obtain ⟨rfl, rfl⟩ := Prod.mk.inj hpq
  obtain rfl := place_injective heq
  exact not_mem_cyclicPairs_swap hnodup hlen hab hab

/-- **Welding** a mesh whose loops have different corners changes none of them. -/
theorem weld [Clipper ℝ] (h : m.Shows loops)
    (hloops : ∀ loop ∈ loops, loop.Nodup ∧ 3 ≤ loop.length) {d : ℝ} (hd : d < 10) :
    (m.weld d).Shows loops := by
  have hshape : (m.weld d).shape = m.shape :=
    shape_weld_of_apart h.wellIndexed (h.onLattice.apart hd) (m.close d) (h.proper hloops)
  exact h.edit (.weld d) (hshape.trans h.shape_eq)

/-- Faces on loops with a negative area look down. -/
theorem normal?_eq (h : m.Shows loops) (hdown : ∀ loop ∈ loops, area loop < 0) {face : Face}
    (hface : face ∈ m.faces) : m.normal? face = some Vec.down := by
  obtain ⟨loop, hloop, heq⟩ := h.exists_loop hface
  rw [normal?, heq, unit?_newellNormal_place (hdown loop hloop)]

/-- **Splitting** a mesh whose faces all look down does nothing: no edge is sharp. -/
theorem splitEdges_eq (h : m.Shows loops) (hdown : ∀ loop ∈ loops, area loop < 0) {angle : ℝ}
    (hangle : 0 ≤ angle) : m.splitEdges angle = m := by
  refine splitEdges_of_not_sharp ?_
  rintro e ⟨f, g, hcrease⟩
  obtain ⟨u, v, hu, hv, hlt⟩ := hcrease.apart
  have hlooks : ∀ {f : Nat} {u : Vec ℝ}, m.direction? f = some u → u = Vec.down := by
    intro f u hf
    obtain ⟨face, hface, hnormal⟩ := Option.bind_eq_some_iff.mp hf
    rw [h.normal?_eq hdown (List.mem_of_getElem? hface)] at hnormal
    exact (Option.some.inj hnormal).symm
  obtain rfl := hlooks hu
  obtain rfl := hlooks hv
  rw [angleBetween_self Vec.isDirection_down] at hlt
  exact not_lt_of_ge hangle hlt

open Classical in
/-- **Numbers for names.** Where no two vertices lie in one place, every point of the lattice has a
    number of its own, by which the faces are the loops. -/
theorem exists_numbering (h : m.Shows loops) (hnodup : m.vertices.toList.Nodup) :
    ∃ num : Nat × Nat → Nat, Function.Injective num ∧ m.faces = loops.map (List.map num) ∧
      ∀ loop ∈ loops, ∀ p ∈ loop, m.position (num p) = place p := by
  -- A point that is a vertex has its index, any other a number beyond all indices.
  let num : Nat × Nat → Nat := fun p =>
    if place p ∈ m.vertices then m.vertices.toList.idxOf (place p)
    else m.vertices.size + Nat.pair p.1 p.2
  have hvertex : ∀ {p}, place p ∈ m.vertices →
      num p < m.vertices.size ∧ m.position (num p) = place p := by
    intro p hp
    obtain ⟨i, hi, heq⟩ := (m.mem_vertices_iff (place p)).mp hp
    have hnum : num p = i := by
      rw [← heq] at hp
      show (if place p ∈ m.vertices then m.vertices.toList.idxOf (place p) else _) = i
      rw [← heq, if_pos hp, idxOf_position hnodup hi]
    rw [hnum]
    exact ⟨hi, heq⟩
  have hcorner : ∀ loop ∈ loops, ∀ p ∈ loop, place p ∈ m.vertices := by
    intro loop hloop p hp
    have hmem : loop.map place ∈ m.shape := h.shape_eq ▸ List.mem_map_of_mem hloop
    exact mem_vertices_of_mem_shape h.wellIndexed hmem (List.mem_map_of_mem hp)
  refine ⟨num, ?_, ?_, fun loop hloop p hp => (hvertex (hcorner loop hloop p hp)).2⟩
  · intro p q hpq
    by_cases hp : place p ∈ m.vertices <;> by_cases hq : place q ∈ m.vertices
    · refine place_injective ?_
      rw [← (hvertex hp).2, ← (hvertex hq).2, hpq]
    · have hlt := (hvertex hp).1
      have hout : num q = m.vertices.size + Nat.pair q.1 q.2 := if_neg hq
      omega
    · have hlt := (hvertex hq).1
      have hout : num p = m.vertices.size + Nat.pair p.1 p.2 := if_neg hp
      omega
    · have houtp : num p = m.vertices.size + Nat.pair p.1 p.2 := if_neg hp
      have houtq : num q = m.vertices.size + Nat.pair q.1 q.2 := if_neg hq
      have hpair : Nat.pair p.1 p.2 = Nat.pair q.1 q.2 := by omega
      obtain ⟨h₁, h₂⟩ := Nat.pair_eq_pair.mp hpair
      exact Prod.ext h₁ h₂
  · rw [faces_eq_map_shape h.wellIndexed hnodup, h.shape_eq, List.map_map]
    refine List.map_congr_left fun loop hloop => ?_
    rw [Function.comp_apply, List.map_map]
    refine List.map_congr_left fun p hp => ?_
    exact (if_pos (hcorner loop hloop p hp)).symm

end Shows

end Mesh

/-- Loose triangles on the lattice. -/
theorem shows_ofTriangles (cells : List (Triple (Nat × Nat))) :
    (TriangleMesh.ofTriangles (cells.map (Triple.map place))).toMesh.Shows
      (cells.map Triple.toList) := by
  refine ⟨TriangleMesh.wellIndexed_ofTriangles _, ?_, ?_⟩
  · intro p hp
    obtain ⟨t, ht, hp⟩ := TriangleMesh.mem_vertices_ofTriangles.mp hp
    obtain ⟨cell, -, rfl⟩ := List.mem_map.mp ht
    rw [toList_map] at hp
    obtain ⟨q, -, hq⟩ := List.mem_map.mp hp
    exact ⟨q, hq⟩
  · rw [TriangleMesh.shape_ofTriangles, List.map_map, List.map_map]
    rfl

/-- The corners of a cut face lie where those of its loop do. -/
private theorem position_getD {m : Mesh ℝ} {face : Face} {loop : List (Nat × Nat)}
    (h : m.positions face = loop.map place) {i : Nat} (hi : i < face.length) :
    m.position (face.toArray.getD i 0) = place (loop.getD i (0, 0)) := by
  have hlen := congrArg List.length h
  rw [Mesh.positions, List.length_map, List.length_map] at hlen
  have hget := congrArg (fun points => points[i]?) h
  simp only [Mesh.positions, List.getElem?_map, List.getElem?_eq_getElem hi,
    List.getElem?_eq_getElem (hlen ▸ hi : i < loop.length), Option.map_some, Option.some.injEq] at hget
  rw [Array.getD_eq_getD_getElem?, List.getElem?_toArray, List.getElem?_eq_getElem hi,
    Option.getD_some, hget, List.getD_eq_getElem?_getD, List.getElem?_eq_getElem, Option.getD_some]

/-- **Cutting** a mesh that shows a square halves it. -/
theorem Mesh.Shows.triangulate [clipper : Clipper ℝ] (hclip : CutsConvex clipper) {n : Nat}
    (hn : 0 < n) {loop : List (Nat × Nat)} (hloop : loop ~r corners n) {m : Mesh ℝ}
    (h : m.Shows [loop]) :
    ∃ cells, Halves (corners n) cells ∧ m.triangulate.Shows (cells.map Triple.toList) := by
  obtain ⟨face, hfaces⟩ := List.length_eq_one_iff.mp h.length_eq
  have hplaces : m.positions face = loop.map place := by
    obtain ⟨loop', hmem, heq⟩ := h.exists_loop (hfaces ▸ List.mem_singleton_self face)
    rwa [List.mem_singleton.mp hmem] at heq
  have hfour : face.length = 4 := by
    have hlen := congrArg List.length hplaces
    rwa [positions, List.length_map, List.length_map, hloop.perm.length_eq] at hlen
  -- The halves are looked up among the corners of the square.
  have hlooked : (List.range 4).map (fun i => loop.getD i (0, 0)) = loop := by
    obtain ⟨a, b, c, d, rfl⟩ := List.length_eq_four.mp (hloop.perm.length_eq : loop.length = 4)
    rfl
  obtain ⟨a, b, c, d, hturn, hparts⟩ :=
    (halves_cutPolygon hclip hn hloop).map fun i => loop.getD i (0, 0)
  rw [hlooked] at hturn
  refine ⟨_, ⟨a, b, c, d, hturn.trans hloop, hparts⟩, h.edit .triangulate ?_⟩
  have hcut : m.triangulate.faces = (cutPolygon (loop.map place)).map fun t =>
      (t.map fun i => face.toArray.getD i 0).toList := by
    show CollisionMesh.triangulate (fun face => cutPolygon (m.positions face)) m.faces = _
    rw [hfaces, CollisionMesh.triangulate, List.flatMap_singleton, ← hplaces]
    obtain ⟨i, j, k, l, rfl⟩ := List.length_eq_four.mp hfour
    rfl
  show m.triangulate.faces.map m.positions = _
  rw [hcut, List.map_map, List.map_map, List.map_map]
  refine List.map_congr_left fun t ht => ?_
  have hcovers := (covers_iff.mp (covers_cutPolygon (loop.map place))).2 t ht
  rw [List.length_map, hloop.perm.length_eq] at hcovers
  rw [Function.comp_apply, Function.comp_apply, Function.comp_apply, positions, toList_map,
    toList_map, List.map_map, List.map_map]
  refine List.map_congr_left fun i hi => ?_
  exact position_getD hplaces (hfour ▸ hcovers i hi)

end CollisionMesh
