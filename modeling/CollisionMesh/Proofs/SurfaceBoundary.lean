import CollisionMesh.Proofs.Merge
import Mathlib.Tactic.Ring

namespace CollisionMesh

/-!
# Merging keeps the boundary of a surface

Faces wind along an edge as often as they run along it in one direction more than in the
other. Inside a region every edge is run along once in each direction, and the outline runs
along every other edge of the region just as its faces do. So a region winds along each edge
as its outline does, and merging changes no winding, whatever the faces are like.

* `winding` — how often faces run along an edge, less how often they run back;
* `count_regionEdges`, `count_boundary` — the edges of a region and those of its boundary;
* `winding_remains` — what a region leaves winds as its faces do;
* `length_merge_add` — how many faces go;
* `standing_of_mem_outlined`, `standing_of_not_mem` — what stands in the place of a face;
* `Mesh.mergeRegions_keeps_boundary` — what merging keeps, and where everything stands.
-/

/-- How often faces run along a directed edge, less how often they run back. -/
def winding (faces : List Face) (e : Nat × Nat) : Int :=
  (faces.flatMap loopEdges).count e - (faces.flatMap loopEdges).count e.swap

/-! ### Windings of lists of faces -/

/-- The order of the faces does not matter. -/
theorem winding_perm {faces faces' : List Face} (h : faces.Perm faces') (e : Nat × Nat) :
    winding faces e = winding faces' e := by
  have hedges := h.flatMap_right loopEdges
  rw [winding, winding, hedges.count_eq, hedges.count_eq]

/-- Windings of faces put together add up. -/
theorem winding_append (faces faces' : List Face) (e : Nat × Nat) :
    winding (faces ++ faces') e = winding faces e + winding faces' e := by
  simp only [winding, List.flatMap_append, List.count_append]
  push_cast
  ring

/-- Faces may be replaced, part by part, by others with the same winding. -/
theorem winding_flatMap_congr {β : Type} {parts : List β} {old new : β → List Face} {e : Nat × Nat}
    (h : ∀ part ∈ parts, winding (new part) e = winding (old part) e) :
    winding (parts.flatMap new) e = winding (parts.flatMap old) e := by
  induction parts with
  | nil => rfl
  | cons part rest ih =>
    rw [List.flatMap_cons, List.flatMap_cons, winding_append, winding_append,
      h part List.mem_cons_self, ih fun p hp => h p (List.mem_cons_of_mem part hp)]

/-! ### Edges of a region -/

section Region

variable {faces : List Face} {region : List Nat}

/-- The edges of the faces of a region, once for each use. -/
abbrev regionEdges (faces : List Face) (region : List Nat) : List (Nat × Nat) :=
  region.flatMap fun f => loopEdges (faces.toArray.getD f [])

/-- How often different numbers are in a list, together: as often as the list has one of them. -/
theorem sum_map_count {numbers : List Nat} (h : numbers.Nodup) (l : List Nat) :
    (numbers.map fun f => l.count f).sum = l.countP fun f => numbers.contains f := by
  induction l with
  | nil => simp
  | cons a rest ih =>
    have hone : (numbers.map fun f => if a == f then 1 else 0).sum
        = if numbers.contains a then 1 else 0 := by
      rw [List.sum_map_eq_nsmul_single a _ fun f hf _ => if_neg (by simpa using Ne.symm hf),
        h.count]
      simp
    simp only [List.count_cons, List.countP_cons]
    rw [List.sum_map_add, ih, hone]

/-- The faces of a region have an edge as often as the users of the edge are in the region. -/
theorem count_regionEdges (hregion : region.Nodup) (e : Nat × Nat) :
    (regionEdges faces region).count e
      = (users (edgeUses faces) e).countP fun f => region.contains f := by
  rw [← sum_map_count hregion, List.count_flatMap]
  congr 1
  exact List.map_congr_left fun f _ => (count_users_edgeUses faces e f).symm

/-- Whether the face across an edge is in the region. -/
def isInside (faces : List Face) (region : List Nat) (e : Nat × Nat) : Bool :=
  (twin? (users (edgeUses faces)) e).any region.contains

/-- The boundary is made of the edges of the region that are not inside. -/
theorem boundary_eq_filter :
    boundary faces.toArray (users (edgeUses faces)) region
      = (regionEdges faces region).filter fun e => !isInside faces region e := by
  rw [boundary, regionEdges, List.filter_flatMap]
  refine List.flatMap_congr fun f _ => List.filter_congr fun e _ => ?_
  rw [isInside]
  cases twin? (users (edgeUses faces)) e <;> rfl

/-- An edge inside belongs to the region once if it is inside backwards too, else not at all. -/
theorem count_regionEdges_of_isInside (hregion : region.Nodup) {e : Nat × Nat}
    (h : isInside faces region e = true) :
    (regionEdges faces region).count e = if isInside faces region e.swap then 1 else 0 := by
  obtain ⟨g, hg, -⟩ := (Option.any_eq_true _ _).mp h
  obtain ⟨f, hf, hswap, hne⟩ := twin?_eq_some_iff.mp hg
  -- The one face that has the edge is the one across it backwards.
  have hback : twin? (users (edgeUses faces)) e.swap = some f :=
    twin?_eq_some_iff.mpr ⟨g, hswap, by rwa [Prod.swap_swap], hne.symm⟩
  rw [count_regionEdges hregion, hf, isInside, hback, List.countP_singleton, Option.any_some]

/-- **A region and its boundary.** They run along an edge the same number of times more than
    back. -/
theorem count_boundary_sub (hregion : region.Nodup) (e : Nat × Nat) :
    ((boundary faces.toArray (users (edgeUses faces)) region).count e : Int)
        - (boundary faces.toArray (users (edgeUses faces)) region).count e.swap
      = (regionEdges faces region).count e - (regionEdges faces region).count e.swap := by
  have hcount : ∀ e, (boundary faces.toArray (users (edgeUses faces)) region).count e
      = if isInside faces region e then 0 else (regionEdges faces region).count e := by
    intro e
    rw [boundary_eq_filter]
    split
    · next h => exact List.count_eq_zero.mpr fun hmem => by simpa [h] using List.of_mem_filter hmem
    · next h => exact List.count_filter (by simpa using h)
  rw [hcount, hcount]
  -- An edge that is inside one way only does not belong to the region that way, so nothing is
  -- lost; one that is inside both ways is lost once each way.
  by_cases h : isInside faces region e = true <;>
    by_cases h' : isInside faces region e.swap = true
  · rw [if_pos h, if_pos h', count_regionEdges_of_isInside hregion h,
      count_regionEdges_of_isInside hregion h', Prod.swap_swap, if_pos h, if_pos h', sub_self,
      sub_self]
  · rw [if_pos h, if_neg h', count_regionEdges_of_isInside hregion h, if_neg h']
  · rw [if_neg h, if_pos h', count_regionEdges_of_isInside hregion h', Prod.swap_swap, if_neg h]
  · rw [if_neg h, if_neg h']

/-- **What a region leaves** winds as its faces do. -/
theorem winding_remains (hregion : region.Nodup) (e : Nat × Nat) :
    winding (remains faces.toArray (users (edgeUses faces)) region) e
      = winding (region.map fun f => faces.toArray.getD f []) e := by
  unfold remains
  split
  · next outline ho =>
    have hedges := perm_edges_outline? (outlineOf?_eq_some_iff.mp ho).2
    rw [winding, winding, List.flatMap_singleton, List.flatMap_map, hedges.count_eq,
      hedges.count_eq]
    exact count_boundary_sub hregion e
  · rfl

end Region

/-! ### Places and numbers of faces -/

section Parts

variable {faces : List Face} {users : Nat × Nat → List Nat} {parts : List (List Nat)}

/-- **Merging** changes no winding. -/
theorem winding_merge (hparts : parts.flatten.Perm (List.range faces.length)) (e : Nat × Nat) :
    winding (merge faces (outlined faces.toArray (CollisionMesh.users (edgeUses faces)) parts)) e
      = winding faces e := by
  have hnodup := (List.nodup_flatten.mp (hparts.nodup_iff.mpr List.nodup_range)).1
  calc winding (merge faces _) e
      = winding (parts.flatMap (remains faces.toArray (CollisionMesh.users (edgeUses faces)))) e :=
        winding_perm (perm_merge hparts) e
    _ = winding (parts.flatMap fun region => region.map fun f => faces.toArray.getD f []) e :=
        winding_flatMap_congr fun region hregion => winding_remains (hnodup region hregion) e
    _ = winding faces e := (winding_perm (perm_faces_flatMap hparts) e).symm

/-- A face of no outlined region stays in its place. -/
theorem standing_of_not_mem {f : Nat} (h : ∀ m ∈ outlined faces.toArray users parts, f ∉ m.1) :
    standing faces (outlined faces.toArray users parts) f = faces[f]? := by
  rw [standing, find?_outlined_eq_none h]

/-- In the places of an outlined region stands the outline, in the first of them. -/
theorem standing_of_mem_outlined (hparts : parts.flatten.Perm (List.range faces.length))
    (hsorted : ∀ region ∈ parts, region.Pairwise (· ≤ ·)) {region : List Nat} {outline : Face}
    (h : (region, outline) ∈ outlined faces.toArray users parts) {f : Nat} (hf : f ∈ region) :
    standing faces (outlined faces.toArray users parts) f
      = if ∀ g ∈ region, f ≤ g then some outline else none := by
  obtain ⟨hregion, hlen, -⟩ := mem_outlined.mp h
  have hfirst : region.head? = some f ↔ ∀ g ∈ region, f ≤ g := by
    obtain ⟨first, rest, rfl⟩ := List.exists_cons_of_length_pos (Nat.lt_of_succ_lt hlen)
    have hle := (List.pairwise_cons.mp (hsorted _ hregion)).1
    rw [List.head?_cons, Option.some.injEq]
    constructor
    · rintro rfl g hg
      rcases List.mem_cons.mp hg with rfl | hg
      · exact Nat.le_refl _
      · exact hle g hg
    · intro hall
      rcases List.mem_cons.mp hf with rfl | hf
      · rfl
      · exact Nat.le_antisymm (hle f hf) (hall first List.mem_cons_self)
  rw [standing, find?_outlined hparts h hf]
  exact if_congr hfirst rfl rfl

/-- Every merged region leaves one face of all that it had. -/
theorem length_flatMap_remains_add (faces : Array Face) (parts : List (List Nat)) :
    (parts.flatMap (remains faces users)).length
        + ((outlined faces users parts).map fun m => m.1.length - 1).sum
      = parts.flatten.length := by
  rw [outlined_eq_filterMap]
  induction parts with
  | nil => rfl
  | cons region rest ih =>
    rw [List.flatMap_cons, List.flatten_cons, List.length_append, List.length_append, ← ih, remains]
    cases ho : outlineOf? faces users region with
    | none =>
      rw [List.filterMap_cons_none (by rw [ho, Option.map_none]), List.length_map, Nat.add_assoc]
    | some outline =>
      have hlen := (outlineOf?_eq_some_iff.mp ho).1
      rw [List.filterMap_cons_some (by rw [ho, Option.map_some]), List.map_cons, List.sum_cons,
        List.length_singleton]
      show 1 + _ + (region.length - 1 + _) = _
      omega

/-- **How many faces go.** -/
theorem length_merge_add (hparts : parts.flatten.Perm (List.range faces.length)) :
    (merge faces (outlined faces.toArray users parts)).length
        + ((outlined faces.toArray users parts).map fun m => m.1.length - 1).sum
      = faces.length := by
  rw [(perm_merge hparts).length_eq, length_flatMap_remains_add, hparts.length_eq,
    List.length_range]

end Parts

namespace Mesh

variable {α : Type} [Scalar α]

/-- The number that is reported, region by region. -/
theorem mergedAway_eq (angle : α) (m : Mesh α) :
    m.mergedAway angle = ((m.mergedRegions angle).map fun m => m.1.length - 1).sum := by
  rw [mergedAway, List.sum_eq_foldl, List.foldl_map]

/-- **Merging keeps the boundary of the surface.** Whatever the faces are like, they wind along
    every edge as before. Place by place, a face of no merged region stays as it is, and of a
    merged region only the outline is left, in the place of its first face. The number of faces
    drops by the number that is reported. -/
theorem mergeRegions_keeps_boundary (angle : α) (m : Mesh α) :
    (∀ a b, winding (m.mergeRegions angle).faces (a, b) = winding m.faces (a, b)) ∧
    (∃ stands : Nat → Option Face,
      (m.mergeRegions angle).faces = (List.range m.faces.length).filterMap stands ∧
      (∀ f, (∀ merged ∈ m.mergedRegions angle, f ∉ merged.1) → stands f = m.faces[f]?) ∧
      ∀ region outline, (region, outline) ∈ m.mergedRegions angle → ∀ f ∈ region,
        stands f = if ∀ g ∈ region, f ≤ g then some outline else none) ∧
    (m.mergeRegions angle).faces.length + m.mergedAway angle = m.faces.length := by
  have hparts := m.perm_flatten_flatRegions angle (users (edgeUses m.faces))
  have hsorted : ∀ region ∈ m.flatRegions angle (users (edgeUses m.faces)),
      region.Pairwise (· ≤ ·) := fun region => pairwise_le_of_mem_regions
  rw [mergeRegions, mergedAway_eq, mergedRegions_eq]
  exact ⟨fun a b => winding_merge hparts (a, b),
    ⟨standing m.faces _, merge_eq_filterMap_standing _ _, fun f => standing_of_not_mem,
      fun region outline h f => standing_of_mem_outlined hparts hsorted h⟩,
    length_merge_add hparts⟩

end Mesh

end CollisionMesh
