import CollisionMesh.Proofs.Outline

namespace CollisionMesh

/-!
# What merging regions does

Faces are measured by how many triangles they are cut into. The outline of a connected
region is cut into no more triangles than its faces, so merging never makes the faces
heavier. Every face after merging was there before or runs along edges that were.

* `triangleCount` — how many triangles some faces are cut into;
* `standing` — the face that stands in the place of an old one after merging;
* `remains`, `perm_merge` — the faces after merging, region by region;
* `triangleCount_merge_le` — merging makes no more triangles;
* `merge_ne_nil`, `edges_of_mem_merge`, `three_le_length_of_mem_merge` — there is a face
  left, its edges are old ones, and it has three corners or more.
-/

/-! ### Counting triangles -/

/-- How many triangles some faces are cut into. -/
def triangleCount (faces : List Face) : Nat :=
  (faces.map fun face => face.length - 2).sum

@[simp] theorem triangleCount_nil : triangleCount [] = 0 := rfl

@[simp] theorem triangleCount_cons (face : Face) (faces : List Face) :
    triangleCount (face :: faces) = face.length - 2 + triangleCount faces := by
  rw [triangleCount, triangleCount, List.map_cons, List.sum_cons]

/-- Faces without any with fewer than three corners are at most the triangles that they
    are cut into. -/
theorem length_le_triangleCount {faces : List Face} (h : ∀ face ∈ faces, 3 ≤ face.length) :
    faces.length ≤ triangleCount faces := by
  induction faces with
  | nil => exact Nat.le_refl _
  | cons face faces ih =>
    have hface := h face List.mem_cons_self
    have := ih fun face' hface' => h face' (List.mem_cons_of_mem face hface')
    rw [List.length_cons, triangleCount_cons]
    omega

/-! ### What stands in the place of a face -/

/-- The face that stands in the place of an old one after merging, if any. -/
def standing (faces : List Face) (merged : List (List Nat × Face)) (f : Nat) : Option Face :=
  match merged.find? fun m => m.1.contains f with
  | none => faces[f]?
  | some (region, outline) => if region.head? = some f then some outline else none

/-- Merging goes through the places of the old faces. -/
theorem merge_eq_filterMap_standing (faces : List Face) (merged : List (List Nat × Face)) :
    merge faces merged = (List.range faces.length).filterMap (standing faces merged) := by
  rw [merge, zipIdx_eq_map_range, List.filterMap_map]
  apply List.filterMap_congr
  intro f hf
  have hf := List.mem_range.mp hf
  have hget : some (faces.toArray.getD f []) = faces[f]? := by
    rw [Array.getD_eq_getD_getElem?, List.getElem?_toArray, List.getElem?_eq_getElem hf,
      Option.getD_some]
  show (match merged.find? fun m => m.1.contains f with
    | none => some (faces.toArray.getD f [])
    | some (region, outline) => if region.head? = some f then some outline else none) = _
  rw [hget]
  rfl

/-! ### Regions that part the faces -/

section Parts

variable {faces : List Face} {users : Nat × Nat → List Nat} {parts : List (List Nat)}

/-- No face is in two regions. -/
private theorem region_unique (hparts : parts.flatten.Perm (List.range faces.length))
    {region region' : List Nat} (h : region ∈ parts) (h' : region' ∈ parts) {f : Nat}
    (hf : f ∈ region) (hf' : f ∈ region') : region = region' := by
  -- The regions together list every face once, so different regions share none.
  have hnodup : parts.flatten.Nodup := hparts.nodup_iff.mpr List.nodup_range
  by_contra hne
  have : Std.Symm (@List.Disjoint Nat) := ⟨fun _ _ hd a ha ha' => hd ha' ha⟩
  have hdisjoint : List.Disjoint region region' :=
    (List.nodup_flatten.mp hnodup).2.forall h h' hne
  exact hdisjoint hf hf'

/-- The regions with an outline are regions of several faces whose boundary is one. -/
theorem mem_outlined {faces : Array Face} {region : List Nat} {outline : Face} :
    (region, outline) ∈ outlined faces users parts ↔
      region ∈ parts ∧ 1 < region.length ∧
        outline? (boundary faces users region) = some outline := by
  rw [outlined, List.mem_filterMap]
  constructor
  · rintro ⟨region', hregion', h⟩
    split at h
    · next hlen =>
      obtain ⟨outline', ho, heq⟩ := Option.map_eq_some_iff.mp h
      obtain ⟨rfl, rfl⟩ := Prod.mk.inj heq
      exact ⟨hregion', hlen, ho⟩
    · exact absurd h (by simp)
  · rintro ⟨hregion, hlen, ho⟩
    exact ⟨region, hregion, by rw [if_pos hlen, ho, Option.map_some]⟩

/-- A face of an outlined region is found in just that region. -/
theorem find?_outlined (hparts : parts.flatten.Perm (List.range faces.length))
    {region : List Nat} {outline : Face}
    (h : (region, outline) ∈ outlined faces.toArray users parts) {f : Nat} (hf : f ∈ region) :
    (outlined faces.toArray users parts).find? (fun m => m.1.contains f)
      = some (region, outline) := by
  cases hfind : (outlined faces.toArray users parts).find? fun m => m.1.contains f with
  | none =>
    have := List.find?_eq_none.mp hfind _ h
    exact absurd (List.contains_iff_mem.mpr hf) this
  | some found =>
    -- Whatever region is found shares the face, so it is the same region with the same outline.
    obtain ⟨region', outline'⟩ := found
    have hmem' := List.mem_of_find?_eq_some hfind
    have hf' : f ∈ region' := by simpa using List.find?_some hfind
    obtain ⟨hregion, -, ho⟩ := mem_outlined.mp h
    obtain ⟨hregion', -, ho'⟩ := mem_outlined.mp hmem'
    obtain rfl := region_unique hparts hregion hregion' hf hf'
    rw [ho, Option.some.injEq] at ho'
    rw [ho']

/-- A face of no outlined region is found in none. -/
theorem find?_outlined_eq_none {f : Nat} (h : ∀ m ∈ outlined faces.toArray users parts, f ∉ m.1) :
    (outlined faces.toArray users parts).find? (fun m => m.1.contains f) = none := by
  rw [List.find?_eq_none]
  intro m hm
  rw [List.contains_iff_mem]
  exact h m hm

/-! ### What a region leaves -/

/-- The outline that a region is merged to, if it is. -/
def outlineOf? (faces : Array Face) (users : Nat × Nat → List Nat) (region : List Nat) :
    Option Face :=
  if 1 < region.length then outline? (boundary faces users region) else none

/-- The faces of a region after merging: its outline alone, or all as they were. -/
def remains (faces : Array Face) (users : Nat × Nat → List Nat) (region : List Nat) : List Face :=
  match outlineOf? faces users region with
  | some outline => [outline]
  | none => region.map fun f => faces.getD f []

theorem outlineOf?_eq_some_iff {faces : Array Face} {region : List Nat} {outline : Face} :
    outlineOf? faces users region = some outline ↔
      1 < region.length ∧ outline? (boundary faces users region) = some outline := by
  rw [outlineOf?]
  split <;> simp [*]

/-- The outlined regions are those with an outline, with it. -/
theorem outlined_eq_filterMap (faces : Array Face) (parts : List (List Nat)) :
    outlined faces users parts
      = parts.filterMap fun region => (outlineOf? faces users region).map fun o => (region, o) := by
  rw [outlined]
  congr 1
  funext region
  rw [outlineOf?]
  split <;> rfl

/-- What stands in the places of a region is what it leaves. -/
theorem filterMap_standing_region (hparts : parts.flatten.Perm (List.range faces.length))
    {region : List Nat} (hregion : region ∈ parts) :
    region.filterMap (standing faces (outlined faces.toArray users parts))
      = remains faces.toArray users region := by
  cases ho : outlineOf? faces.toArray users region with
  | some outline =>
    have hmem : (region, outline) ∈ outlined faces.toArray users parts :=
      mem_outlined.mpr ⟨hregion, outlineOf?_eq_some_iff.mp ho⟩
    have hstanding : ∀ f ∈ region, standing faces (outlined faces.toArray users parts) f
        = if region.head? = some f then some outline else none := by
      intro f hf
      rw [standing, find?_outlined hparts hmem hf]
    have hnodup : region.Nodup :=
      (List.nodup_flatten.mp (hparts.nodup_iff.mpr List.nodup_range)).1 region hregion
    rw [remains, ho, List.filterMap_congr hstanding]
    -- The outline stands in the place of the head of the region, and nothing in the others.
    obtain ⟨first, rest, rfl⟩ := List.exists_cons_of_length_pos
      (Nat.lt_of_succ_lt (outlineOf?_eq_some_iff.mp ho).1)
    rw [List.filterMap_cons_some (by rw [List.head?_cons, if_pos rfl]),
      List.filterMap_eq_nil_iff.mpr]
    intro f hf
    have hne : first ≠ f := fun heq => (List.nodup_cons.mp hnodup).1 (heq ▸ hf)
    rw [List.head?_cons, if_neg (by simpa using hne)]
  | none =>
    -- No region that is merged shares a face with this one.
    have hnot : ∀ f ∈ region, ∀ m ∈ outlined faces.toArray users parts, f ∉ m.1 := by
      rintro f hf ⟨region', outline⟩ hm hf'
      obtain ⟨hregion', hmerged⟩ := mem_outlined.mp hm
      obtain rfl := region_unique hparts hregion hregion' hf hf'
      rw [outlineOf?_eq_some_iff.mpr hmerged] at ho
      exact absurd ho (by simp)
    rw [remains, ho, ← List.filterMap_eq_map]
    apply List.filterMap_congr
    intro f hf
    have hlt : f < faces.length :=
      List.mem_range.mp (hparts.subset (List.mem_flatten_of_mem hregion hf))
    rw [standing, find?_outlined_eq_none (hnot f hf)]
    simp [hlt]

/-- **Merging region by region.** The faces after merging are, up to their order, what the
    regions leave. -/
theorem perm_merge (hparts : parts.flatten.Perm (List.range faces.length)) :
    (merge faces (outlined faces.toArray users parts)).Perm
      (parts.flatMap (remains faces.toArray users)) := by
  rw [merge_eq_filterMap_standing]
  refine (hparts.symm.filterMap _).trans (List.Perm.of_eq ?_)
  rw [List.filterMap_flatten, List.flatMap_def]
  congr 1
  exact List.map_congr_left fun region hregion => filterMap_standing_region hparts hregion

/-- The faces before merging, region by region. -/
theorem perm_faces_flatMap (hparts : parts.flatten.Perm (List.range faces.length)) :
    faces.Perm (parts.flatMap fun region => region.map fun f => faces.toArray.getD f []) := by
  rw [List.flatMap_def, ← List.map_flatten]
  exact (List.Perm.of_eq (eq_map_range faces)).trans (hparts.symm.map _)

/-! ### Counting triangles of regions -/

/-- The triangles of several lists of faces. -/
theorem triangleCount_flatMap {β : Type} (l : List β) (f : β → List Face) :
    triangleCount (l.flatMap f) = (l.map fun b => triangleCount (f b)).sum := by
  rw [triangleCount, List.map_flatMap, List.flatMap_def, List.sum_flatten, List.map_map]
  rfl

theorem triangleCount_perm {l l' : List Face} (h : l.Perm l') :
    triangleCount l = triangleCount l' :=
  (h.map _).sum_eq

/-- The corners of some faces, by the triangles that they are cut into. -/
private theorem sum_length_eq {faces : List Face} (hlen : ∀ face ∈ faces, 3 ≤ face.length) :
    (faces.map List.length).sum = triangleCount faces + 2 * faces.length := by
  induction faces with
  | nil => rfl
  | cons face rest ih =>
    have hface := hlen face List.mem_cons_self
    have := ih fun face' hface' => hlen face' (List.mem_cons_of_mem face hface')
    rw [triangleCount_cons]
    simp only [List.map_cons, List.sum_cons, List.length_cons]
    omega

/-- **Merging makes no more triangles.** Where the regions part the faces and are
    connected, the faces after merging are cut into at most as many triangles. -/
theorem triangleCount_merge_le (hparts : parts.flatten.Perm (List.range faces.length))
    (hgrown : ∀ region ∈ parts,
      ∃ l, Grown (Mesh.twinsOf faces.toArray (CollisionMesh.users (edgeUses faces))) l ∧ region.Perm l)
    (hlen : ∀ face ∈ faces, 3 ≤ face.length) :
    triangleCount (merge faces (outlined faces.toArray (CollisionMesh.users (edgeUses faces)) parts))
      ≤ triangleCount faces := by
  have hnodup := (List.nodup_flatten.mp (hparts.nodup_iff.mpr List.nodup_range)).1
  -- Both sides are summed region by region.
  rw [triangleCount_perm (perm_merge hparts), triangleCount_perm (perm_faces_flatMap hparts),
    triangleCount_flatMap, triangleCount_flatMap]
  apply List.sum_le_sum
  intro region hregion
  show triangleCount (remains _ _ region) ≤ _
  unfold remains
  split
  -- A region with an outline is weighed against its boundary, any other keeps its faces.
  · next outline ho =>
    have hold : ∀ face ∈ region.map fun f => faces.toArray.getD f [], 3 ≤ face.length := by
      intro face hface
      exact hlen face ((perm_faces_flatMap hparts).symm.subset
        (List.mem_flatMap.mpr ⟨region, hregion, hface⟩))
    have hboundary := length_boundary_le (hnodup region hregion) (hgrown region hregion)
    have hsum := sum_length_eq hold
    rw [List.map_map, List.length_map] at hsum
    rw [← (length_outline? (outlineOf?_eq_some_iff.mp ho).2).1] at hboundary
    simp only [triangleCount_cons, triangleCount_nil]
    simp only [Function.comp_def] at hsum
    omega
  · exact Nat.le_refl _

/-! ### The faces after merging -/

/-- A face after merging is an old one or the outline of a region. -/
theorem mem_faces_or_outline_of_mem_merge {face : Face}
    (h : face ∈ merge faces (outlined faces.toArray users parts)) :
    face ∈ faces ∨ ∃ region, outline? (boundary faces.toArray users region) = some face := by
  rw [merge_eq_filterMap_standing] at h
  obtain ⟨f, -, hf⟩ := List.mem_filterMap.mp h
  unfold standing at hf
  split at hf
  · exact .inl (List.mem_of_getElem? hf)
  · next region outline hfind =>
    split at hf
    · obtain rfl := Option.some.inj hf
      exact .inr ⟨region, (mem_outlined.mp (List.mem_of_find?_eq_some hfind)).2.2⟩
    · exact absurd hf (by simp)

/-- The edges of the boundary of a region are edges of faces. -/
theorem exists_face_of_mem_boundary {region : List Nat} {e : Nat × Nat}
    (h : e ∈ boundary faces.toArray users region) : ∃ face ∈ faces, e ∈ loopEdges face := by
  obtain ⟨f, -, he⟩ := List.mem_flatMap.mp h
  obtain ⟨face, hface, he⟩ := mem_edges_getD_iff.mp (List.mem_of_mem_filter he)
  exact ⟨face, List.mem_of_getElem? hface, he⟩

/-- **Merging makes no edge.** Every edge of a face after merging is an edge of a face
    before. -/
theorem edges_of_mem_merge {face : Face}
    (h : face ∈ merge faces (outlined faces.toArray users parts)) :
    ∀ e ∈ loopEdges face, ∃ old ∈ faces, e ∈ loopEdges old := by
  intro e he
  rcases mem_faces_or_outline_of_mem_merge h with h | ⟨region, ho⟩
  · exact ⟨face, h, he⟩
  · exact exists_face_of_mem_boundary (edges_outline? ho e he)

/-- Faces after merging have at least three corners if those before do. -/
theorem three_le_length_of_mem_merge (hlen : ∀ face ∈ faces, 3 ≤ face.length) {face : Face}
    (h : face ∈ merge faces (outlined faces.toArray users parts)) : 3 ≤ face.length := by
  rcases mem_faces_or_outline_of_mem_merge h with h | ⟨region, ho⟩
  · exact hlen face h
  · exact (length_outline? ho).2

/-- Merging leaves a face where there is one. -/
theorem merge_ne_nil (hparts : parts.flatten.Perm (List.range faces.length)) (h : faces ≠ []) :
    merge faces (outlined faces.toArray users parts) ≠ [] := by
  rw [merge_eq_filterMap_standing]
  have hzero : 0 < faces.length := List.length_pos_iff.mpr h
  cases hfind : (outlined faces.toArray users parts).find? fun m => m.1.contains 0 with
  | none =>
    -- The first face is in no outlined region and stays.
    have hmem : faces[0] ∈ (List.range faces.length).filterMap
        (standing faces (outlined faces.toArray users parts)) := by
      refine List.mem_filterMap.mpr ⟨0, List.mem_range.mpr hzero, ?_⟩
      rw [standing, hfind]
      exact List.getElem?_eq_getElem hzero
    exact List.ne_nil_of_mem hmem
  | some found =>
    -- The outline of the region of the face stands in the place of the region's head.
    obtain ⟨region, outline⟩ := found
    have hmem := List.mem_of_find?_eq_some hfind
    obtain ⟨hregion, hlen, -⟩ := mem_outlined.mp hmem
    obtain ⟨first, rest, rfl⟩ := List.exists_cons_of_length_pos (Nat.lt_of_succ_lt hlen)
    have hfirst : first ∈ List.range faces.length :=
      hparts.subset (List.mem_flatten_of_mem hregion List.mem_cons_self)
    have hmem' : outline ∈ (List.range faces.length).filterMap
        (standing faces (outlined faces.toArray users parts)) := by
      refine List.mem_filterMap.mpr ⟨first, hfirst, ?_⟩
      rw [standing, find?_outlined hparts hmem List.mem_cons_self]
      exact if_pos rfl
    exact List.ne_nil_of_mem hmem'

end Parts

namespace Mesh

variable {α : Type} [Scalar α]

/-- The merged regions, with the users of an edge looked up in the faces. -/
theorem mergedRegions_eq (angle : α) (m : Mesh α) :
    m.mergedRegions angle = outlined m.faces.toArray (users (edgeUses m.faces))
      (m.flatRegions angle (users (edgeUses m.faces))) := by
  have husers : (EdgeTable.ofUses (edgeUses m.faces)).users = users (edgeUses m.faces) :=
    funext fun e => EdgeTable.users_ofUses _ e
  rw [mergedRegions, husers]

/-- The flat regions part the faces. -/
theorem perm_flatten_flatRegions (angle : α) (users : Nat × Nat → List Nat) (m : Mesh α) :
    (m.flatRegions angle users).flatten.Perm (List.range m.faces.length) :=
  perm_flatten_regions _ _

/-- Merging flat regions, by the faces alone. -/
theorem exists_parts_mergeRegions (angle : α) (m : Mesh α) :
    ∃ parts : List (List Nat), parts.flatten.Perm (List.range m.faces.length) ∧
      (∀ region ∈ parts,
        ∃ l, Grown (twinsOf m.faces.toArray (users (edgeUses m.faces))) l ∧ region.Perm l) ∧
      (m.mergeRegions angle).faces
        = merge m.faces (outlined m.faces.toArray (users (edgeUses m.faces)) parts) := by
  refine ⟨_, m.perm_flatten_flatRegions angle (users (edgeUses m.faces)), ?_, ?_⟩
  · intro region hregion
    exact exists_grown_of_mem_regions hregion
  · rw [mergeRegions, mergedRegions_eq]

end Mesh

end CollisionMesh
