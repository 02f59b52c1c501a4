import CollisionMesh.Mesh.Edges
import CollisionMesh.Proofs.Cycle
import Mathlib.Algebra.BigOperators.Group.List.Basic
import Mathlib.Data.Prod.Basic

namespace CollisionMesh

/-!
# The faces along an edge

The users of an edge list every face as often as it has the edge, in face order. So they can
be spoken of face by face.

* `side_eq_side_iff` — edges without direction;
* `zipIdx_eq_map_range` — the faces with their places;
* `users_edgeUses`, `users_sideUses` — the users of an edge, with direction and without, face
  by face; `users_sideUses_append`, `users_sideUses_map` — faces after others and
  with other names for vertices;
* `mem_users_edgeUses`, `mem_users_sideUses` — the users of an edge are the faces that have it;
* `count_users_edgeUses`, `count_users_sideUses` — they list each as often as it has the edge;
* `twin?_eq_some_iff`, `twin?_swap` — a face is the twin of its twins.
-/

/-! ### Edges without direction -/

/-- Edges are the same without direction if they are the same, or one is the other backwards. -/
theorem side_eq_side_iff {d e : Nat × Nat} : side d = side e ↔ d = e ∨ d = e.swap := by
  obtain ⟨a, b⟩ := d
  obtain ⟨x, y⟩ := e
  simp only [side, Prod.swap_prod_mk]
  grind

@[simp] theorem side_side (e : Nat × Nat) : side (side e) = side e := by
  obtain ⟨a, b⟩ := e
  simp only [side]
  grind

/-! ### Faces in their places -/

/-- The corners in a place are those of the face there, if there is one. -/
theorem mem_getD_iff {faces : List Face} {f v : Nat} :
    v ∈ faces.toArray.getD f [] ↔ ∃ face, faces[f]? = some face ∧ v ∈ face := by
  rw [Array.getD_eq_getD_getElem?, List.getElem?_toArray]
  cases faces[f]? <;> simp

/-- So are the edges. -/
theorem mem_edges_getD_iff {faces : List Face} {f : Nat} {e : Nat × Nat} :
    e ∈ loopEdges (faces.toArray.getD f []) ↔ ∃ face, faces[f]? = some face ∧ e ∈ loopEdges face := by
  rw [Array.getD_eq_getD_getElem?, List.getElem?_toArray]
  cases faces[f]? <;> simp [cyclicPairs]

/-- Where no two faces share an edge, an edge tells its face. -/
theorem eq_of_mem_edges_getD {faces : List Face}
    (h : faces.Pairwise fun face face' => ∀ e ∈ loopEdges face, e ∉ loopEdges face') {f g : Nat}
    {e : Nat × Nat} (hf : e ∈ loopEdges (faces.toArray.getD f []))
    (hg : e ∈ loopEdges (faces.toArray.getD g [])) : f = g := by
  obtain ⟨face, hface, he⟩ := mem_edges_getD_iff.mp hf
  obtain ⟨face', hface', he'⟩ := mem_edges_getD_iff.mp hg
  obtain ⟨hf, rfl⟩ := List.getElem?_eq_some_iff.mp hface
  obtain ⟨hg, rfl⟩ := List.getElem?_eq_some_iff.mp hface'
  rcases Nat.lt_trichotomy f g with hlt | heq | hlt
  · exact (List.pairwise_iff_getElem.mp h f g hf hg hlt e he he').elim
  · exact heq
  · exact (List.pairwise_iff_getElem.mp h g f hg hf hlt e he' he).elim

/-- The faces by their places. -/
theorem eq_map_range (faces : List Face) :
    faces = (List.range faces.length).map fun f => faces.toArray.getD f [] := by
  apply List.ext_getElem (by simp)
  intro f hf _
  simp [hf]

/-- The faces with their places are the places with their faces. -/
theorem zipIdx_eq_map_range (faces : List Face) :
    faces.zipIdx = (List.range faces.length).map fun f => (faces.toArray.getD f [], f) := by
  apply List.ext_getElem (by simp)
  intro f hf _
  rw [List.length_zipIdx] at hf
  simp [hf]

/-! ### Users face by face -/

/-- The users of something that faces have, face by face. -/
private theorem users_flatMap (faces : List Face) (has : Face → List (Nat × Nat)) (e : Nat × Nat) :
    users (faces.zipIdx.flatMap fun (face, f) => (has face).map fun e => (e, f)) e
      = (List.range faces.length).flatMap fun f =>
          List.replicate ((has (faces.toArray.getD f [])).count e) f := by
  rw [users, zipIdx_eq_map_range, List.flatMap_map, List.filter_flatMap, List.map_flatMap]
  congr 1
  funext f
  -- Of the uses of one face those of the edge are kept, and each is turned into the face.
  rw [List.filter_map, List.map_map, List.count_eq_length_filter]
  exact List.map_const'

/-- The users of a directed edge, face by face. -/
theorem users_edgeUses (faces : List Face) (e : Nat × Nat) :
    users (edgeUses faces) e = (List.range faces.length).flatMap fun f =>
      List.replicate ((loopEdges (faces.toArray.getD f [])).count e) f :=
  users_flatMap faces loopEdges e

/-- The users of an edge without direction, face by face. -/
theorem users_sideUses (faces : List Face) (e : Nat × Nat) :
    users (sideUses faces) e = (List.range faces.length).flatMap fun f =>
      List.replicate (((loopEdges (faces.toArray.getD f [])).map side).count e) f := by
  rw [← users_flatMap faces (fun face => (loopEdges face).map side), sideUses, edgeUses,
    List.map_flatMap]
  congr 2
  funext entry
  simp

/-- The users of an edge among faces one after the other, where the second ones come after the
    first. -/
theorem users_sideUses_append (faces later : List Face) (e : Nat × Nat) :
    users (sideUses (faces ++ later)) e
      = users (sideUses faces) e ++ (users (sideUses later) e).map (faces.length + ·) := by
  have hfirst : ∀ f ∈ List.range faces.length,
      (faces ++ later).toArray.getD f [] = faces.toArray.getD f [] := by
    intro f hf
    simp only [Array.getD_eq_getD_getElem?, List.getElem?_toArray,
      List.getElem?_append_left (List.mem_range.mp hf)]
  have hlater : ∀ k, (faces ++ later).toArray.getD (faces.length + k) []
      = later.toArray.getD k [] := by
    intro k
    simp only [Array.getD_eq_getD_getElem?, List.getElem?_toArray,
      List.getElem?_append_right (Nat.le_add_right _ _), Nat.add_sub_cancel_left]
  rw [users_sideUses, users_sideUses, users_sideUses, List.length_append, List.range_add,
    List.flatMap_append, List.flatMap_map, List.map_flatMap]
  congr 1
  · exact List.flatMap_congr fun f hf => by rw [hfirst f hf]
  · exact List.flatMap_congr fun k _ => by rw [hlater k, List.map_replicate]

/-- The users of an edge where different vertices get different names. -/
theorem users_sideUses_map {rename : Nat → Nat} (hrename : rename.Injective) (faces : List Face)
    (e : Nat × Nat) :
    users (sideUses (faces.map fun face => face.map rename)) (side (e.map rename rename))
      = users (sideUses faces) (side e) := by
  have hside : ∀ d : Nat × Nat, side (d.map rename rename) = side (e.map rename rename)
      ↔ side d = side e := fun d => by
    have hswap : (e.map rename rename).swap = e.swap.map rename rename := rfl
    rw [side_eq_side_iff, side_eq_side_iff, hswap, (hrename.prodMap hrename).eq_iff,
      (hrename.prodMap hrename).eq_iff]
  rw [users_sideUses, users_sideUses, List.length_map]
  refine List.flatMap_congr fun f _ => congrArg (List.replicate · f) ?_
  have hface : (faces.map fun face => face.map rename).toArray.getD f []
      = (faces.toArray.getD f []).map rename := by
    simp only [Array.getD_eq_getD_getElem?, List.getElem?_toArray, List.getElem?_map]
    cases faces[f]? <;> rfl
  rw [hface, loopEdges, cyclicPairs_map, List.map_map, List.count_eq_countP, List.count_eq_countP,
    List.countP_map, List.countP_map]
  refine List.countP_congr fun d _ => ?_
  simp only [Function.comp_apply, beq_iff_eq, hside]

/-- A list with every number below `n` some times has it so many times. -/
private theorem count_flatMap_replicate {n : Nat} {times : Nat → Nat}
    (htimes : ∀ f, ¬ f < n → times f = 0) (f : Nat) :
    ((List.range n).flatMap fun k => List.replicate (times k) k).count f = times f := by
  rw [List.count_flatMap, List.sum_map_eq_nsmul_single f]
  · by_cases hf : f < n
    · simp [List.count_eq_one_of_mem List.nodup_range (List.mem_range.mpr hf)]
    · simp [htimes f hf]
  · intro k hk _
    simp [List.count_replicate, hk]

/-- Past the last face there is nothing in a place. -/
theorem getD_eq_nil {faces : List Face} {f : Nat} (h : ¬ f < faces.length) :
    faces.toArray.getD f [] = [] := by
  rw [Array.getD_eq_getD_getElem?, List.getElem?_toArray, List.getElem?_eq_none (Nat.le_of_not_lt h),
    Option.getD_none]

/-- The users of a directed edge list a face as often as it has the edge. -/
theorem count_users_edgeUses (faces : List Face) (e : Nat × Nat) (f : Nat) :
    (users (edgeUses faces) e).count f = (loopEdges (faces.toArray.getD f [])).count e := by
  rw [users_edgeUses]
  refine count_flatMap_replicate (fun k hk => ?_) f
  rw [getD_eq_nil hk]
  rfl

/-- So do those of an edge without direction. -/
theorem count_users_sideUses (faces : List Face) (e : Nat × Nat) (f : Nat) :
    (users (sideUses faces) e).count f
      = ((loopEdges (faces.toArray.getD f [])).map side).count e := by
  rw [users_sideUses]
  refine count_flatMap_replicate (fun k hk => ?_) f
  rw [getD_eq_nil hk]
  rfl

/-- The users of a directed edge are the faces that have it. -/
theorem mem_users_edgeUses {faces : List Face} {e : Nat × Nat} {f : Nat} :
    f ∈ users (edgeUses faces) e ↔ e ∈ loopEdges (faces.toArray.getD f []) := by
  rw [← List.count_pos_iff, count_users_edgeUses, List.count_pos_iff]

/-- The users of an edge without direction are the faces that have it in either. -/
theorem mem_users_sideUses {faces : List Face} {e : Nat × Nat} {f : Nat} :
    f ∈ users (sideUses faces) e ↔ ∃ d ∈ loopEdges (faces.toArray.getD f []), side d = e := by
  rw [← List.count_pos_iff, count_users_sideUses, List.count_pos_iff, List.mem_map]

/-! ### Twins -/

/-- An edge has a twin where exactly one face uses it and exactly one other face uses it
    backwards. -/
theorem twin?_eq_some_iff {users : Nat × Nat → List Nat} {e : Nat × Nat} {g : Nat} :
    twin? users e = some g ↔ ∃ f, users e = [f] ∧ users e.swap = [g] ∧ f ≠ g := by
  unfold twin?
  constructor
  · intro h
    split at h
    · next f g' hf hg =>
      split at h
      · next hne =>
        obtain rfl : g' = g := by simpa using h
        exact ⟨f, hf, hg, hne⟩
      · exact absurd h (by simp)
    · exact absurd h (by simp)
  · rintro ⟨f, hf, hg, hne⟩
    have hg : users (e.2, e.1) = [g] := hg
    rw [hf, hg]
    exact if_pos hne

/-- A face across an edge has that edge backwards, and the face is its twin there. -/
theorem twin?_swap {faces : List Face} {e : Nat × Nat} {f g : Nat}
    (he : e ∈ loopEdges (faces.toArray.getD f []))
    (ht : twin? (users (edgeUses faces)) e = some g) :
    e.swap ∈ loopEdges (faces.toArray.getD g []) ∧
      twin? (users (edgeUses faces)) e.swap = some f := by
  obtain ⟨f', hf, hg, hne⟩ := twin?_eq_some_iff.mp ht
  obtain rfl : f = f' := by
    have := mem_users_edgeUses.mpr he
    rwa [hf, List.mem_singleton] at this
  -- What it means to be a twin is the same on both sides of an edge.
  refine ⟨mem_users_edgeUses.mp (by rw [hg]; exact List.mem_singleton_self g), ?_⟩
  exact twin?_eq_some_iff.mpr ⟨g, hg, by rwa [Prod.swap_swap], hne.symm⟩

end CollisionMesh
