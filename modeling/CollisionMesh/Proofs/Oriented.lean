import CollisionMesh.Proofs.Passes
import Mathlib.Data.Finset.Card

namespace CollisionMesh

/-!
# Oriented meshes stay oriented

In an oriented mesh no directed edge belongs to two faces, so faces that meet along an edge run
along it in opposite directions. Merging gives an outline edges of its own region only. A vertex that
is taken out leaves an edge between its two neighbours, which no face had in either direction since
they were not neighbours before.

* `OrientedFaces` — faces of three different corners or more, no two with a common directed edge;
* `OrientedFaces.merge`, `OrientedFaces.straighten`, `OrientedFaces.map` — merging, straightening
  and renumbering keep that; `Removable.oriented` — so does taking one vertex out;
* `Mesh.Oriented` — oriented faces with their corners in the vertex list;
* `Mesh.straightened` — the vertices that dissolving takes out of all faces;
* `Mesh.apply_dissolve_of_oriented` — what dissolving makes of an oriented mesh.
-/

/-- Faces with at least three different corners each, where no directed edge belongs to two. -/
structure OrientedFaces (faces : List Face) : Prop where
  three_le : ∀ face ∈ faces, 3 ≤ face.toFinset.card
  apart : faces.Pairwise fun face face' => ∀ e ∈ loopEdges face, e ∉ loopEdges face'

namespace OrientedFaces

variable {faces : List Face}

/-- An edge is one of a single face. -/
theorem eq_of_mem_edges (h : OrientedFaces faces) {f g : Nat} {e : Nat × Nat}
    (hf : e ∈ loopEdges (faces.toArray.getD f [])) (hg : e ∈ loopEdges (faces.toArray.getD g [])) :
    f = g :=
  eq_of_mem_edges_getD h.apart hf hg

end OrientedFaces

/-! ### Merging -/

section Merging

/-- Where an old face is after merging: its own place or the first one of its region, if that has
    an outline. -/
def placeAfter (merged : List (List Nat × Face)) (f : Nat) : Nat :=
  match merged.find? fun m => m.1.contains f with
  | none => f
  | some (region, _) => region.head?.getD f

variable {faces : List Face} {users : Nat × Nat → List Nat} {parts : List (List Nat)}

/-- An edge of what stands in a place after merging is one of an old face that went there. -/
theorem exists_placeAfter_of_standing (hparts : parts.flatten.Perm (List.range faces.length))
    {f : Nat} {face : Face} (h : standing faces (outlined faces.toArray users parts) f = some face)
    {e : Nat × Nat} (he : e ∈ loopEdges face) :
    ∃ k, placeAfter (outlined faces.toArray users parts) k = f ∧
      e ∈ loopEdges (faces.toArray.getD k []) := by
  unfold standing at h
  split at h
  · next hfind =>
    exact ⟨f, by rw [placeAfter, hfind], mem_edges_getD_iff.mpr ⟨face, h, he⟩⟩
  · next region outline hfind =>
    split at h
    · next hhead =>
      obtain rfl := Option.some.inj h
      have hmem := List.mem_of_find?_eq_some hfind
      -- The outline runs along edges of its region, and all of that went to the first place.
      obtain ⟨k, hk, he⟩ := List.mem_flatMap.mp (edges_outline? (mem_outlined.mp hmem).2.2 e he)
      refine ⟨k, ?_, List.mem_of_mem_filter he⟩
      rw [placeAfter, find?_outlined hparts hmem hk]
      show region.head?.getD k = f
      rw [hhead, Option.getD_some]
    · exact absurd h (by simp)

/-- A merged face has different corners if the old ones have. -/
theorem nodup_of_mem_merge (h : ∀ face ∈ faces, face.Nodup) {face : Face}
    (hface : face ∈ merge faces (outlined faces.toArray users parts)) : face.Nodup := by
  rcases mem_faces_or_outline_of_mem_merge hface with hface | ⟨region, ho⟩
  · exact h face hface
  · exact nodup_outline? ho

/-- **Merging.** Outlines have different corners, and take over the edges of their regions only. -/
theorem OrientedFaces.merge (h : OrientedFaces faces)
    (hparts : parts.flatten.Perm (List.range faces.length)) :
    OrientedFaces (merge faces (outlined faces.toArray users parts)) := by
  constructor
  · intro face hface
    rcases mem_faces_or_outline_of_mem_merge hface with hface | ⟨region, ho⟩
    · exact h.three_le face hface
    · rw [List.toFinset_card_of_nodup (nodup_outline? ho)]
      exact (length_outline? ho).2
  · rw [merge_eq_filterMap_standing, List.pairwise_filterMap]
    refine List.nodup_range.imp ?_
    intro f g hfg face hface face' hface' e he he'
    -- The edge is one of an old face in either place, which is only one and went to only one.
    obtain ⟨k, rfl, hk⟩ := exists_placeAfter_of_standing hparts hface he
    obtain ⟨k', rfl, hk'⟩ := exists_placeAfter_of_standing hparts hface' he'
    exact hfg (congrArg _ (h.eq_of_mem_edges hk hk'))

end Merging

/-! ### Removing a vertex -/

/-- Along a list of two elements there is a step from its first element to the last, if these
    differ. -/
theorem mem_zip_of_forall_eq {x y : Nat} {l : List Nat} (hxy : y ≠ x)
    (hlast : (x :: l).getLast (List.cons_ne_nil x l) = y) (hl : ∀ i ∈ l, i = x ∨ i = y) :
    (x, y) ∈ (x :: l).zip l := by
  induction l with
  | nil => exact absurd hlast.symm hxy
  | cons i rest ih =>
    rcases hl i List.mem_cons_self with rfl | rfl
    · rw [List.getLast_cons_cons] at hlast
      exact List.mem_cons_of_mem _ (ih hlast fun j hj => hl j (List.mem_cons_of_mem _ hj))
    · exact List.mem_cons_self

namespace Removable

variable {straight : Nat → Nat → Nat → Bool} {faces : List Face} {v a b : Nat}

/-- The edge that a face gets in the place of the vertex is new in both directions. -/
theorem not_mem_edges (h : Removable straight faces v a b) {face : Face} (hface : face ∈ faces)
    {p q : Nat} (hto : (p, v) ∈ loopEdges face) (hfrom : (v, q) ∈ loopEdges face) {old : Face}
    (hold : old ∈ faces) : (p, q) ∉ loopEdges old ∧ (q, p) ∉ loopEdges old := by
  obtain ⟨-, -, hab⟩ := h.ne
  have hnew : (a, b) ∉ loopEdges old ∧ (b, a) ∉ loopEdges old :=
    ⟨fun he => h.apart (mem_neighbours.mpr ⟨hab.symm, old, hold, .inl he⟩),
      fun he => h.apart (mem_neighbours.mpr ⟨hab.symm, old, hold, .inr he⟩)⟩
  rcases h.eq_or_eq_of_edges hface hto hfrom with ⟨rfl, rfl⟩ | ⟨rfl, rfl⟩
  · exact hnew
  · exact hnew.symm

/-- A face that loses the vertex has three different corners left. -/
theorem three_le_card (h : Removable straight faces v a b) {face : Face} (hface : face ∈ faces)
    (hv : v ∈ face) : 3 ≤ (face.filter (· != v)).toFinset.card := by
  obtain ⟨x, l, hturn⟩ := exists_turnsAt_of_canSpare (h.spare face hface hv)
  obtain ⟨y, hy⟩ : ∃ y, (x :: l).getLast (List.cons_ne_nil x l) = y := ⟨_, rfl⟩
  have hyx : y ≠ x := hy ▸ hturn.last_ne
  have hkept : ∀ i, i ∈ x :: l → i ∈ (face.filter (· != v)).toFinset := by
    intro i hi
    rw [List.mem_toFinset, List.mem_filter, bne_iff_ne]
    exact ⟨(hturn.mem_iff i).mpr (.inr hi), fun heq => hturn.not_mem (heq ▸ hi)⟩
  -- Between the corners beside the vertex there is another one, else they were neighbours.
  have hthird : ∃ i ∈ l, i ≠ x ∧ i ≠ y := by
    by_contra hnone
    push Not at hnone
    have hstep : (x, y) ∈ (x :: l).zip l :=
      mem_zip_of_forall_eq hyx hy fun i hi => Classical.or_iff_not_imp_left.mpr (hnone i hi)
    exact (h.not_mem_edges hface (hturn.mem_edges_to.mpr hy.symm) (hturn.mem_edges_from.mpr rfl)
      hface).2 ((hturn.mem_edges_iff _).mpr (.inr (.inl hstep)))
  obtain ⟨i, hi, hix, hiy⟩ := hthird
  refine Finset.two_lt_card.mpr ⟨x, hkept x List.mem_cons_self, y, ?_, i,
    hkept i (List.mem_cons_of_mem x hi), hyx.symm, hix.symm, hiy.symm⟩
  exact hkept y (hy ▸ List.getLast_mem _)

/-- **Removing a vertex.** The faces that it leaves get an edge that no face has, in opposite
    directions, and keep three different corners. -/
theorem oriented (h : Removable straight faces v a b) (ho : OrientedFaces faces) :
    OrientedFaces (faces.map fun face => face.filter (· != v)) := by
  constructor
  · intro face hface
    obtain ⟨old, hold, rfl⟩ := List.mem_map.mp hface
    by_cases hv : v ∈ old
    · exact h.three_le_card hold hv
    · rw [filter_ne_of_not_mem hv]
      exact ho.three_le old hold
  -- Two faces share no old edge; a new one is not old, and where both get it they shared the edge
  -- to the vertex.
  · rw [List.pairwise_map]
    refine ho.apart.imp_of_mem ?_
    rintro face face' hface hface' hdisjoint ⟨p, q⟩ he he'
    obtain ⟨-, -, hold | ⟨hto, hfrom⟩⟩ := (mem_edges_filter_iff (h.spare face hface)).mp he <;>
      obtain ⟨-, -, hold' | ⟨hto', hfrom'⟩⟩ := (mem_edges_filter_iff (h.spare face' hface')).mp he'
    · exact hdisjoint _ hold hold'
    · exact (h.not_mem_edges hface' hto' hfrom' hface).1 hold
    · exact (h.not_mem_edges hface hto hfrom hface').1 hold'
    · exact hdisjoint _ hto hto'

end Removable

namespace OrientedFaces

variable {straight : Nat → Nat → Nat → Bool} {faces : List Face}

theorem straightenAt (h : OrientedFaces faces) (v : Nat) :
    OrientedFaces (CollisionMesh.straightenAt straight faces v) := by
  unfold CollisionMesh.straightenAt
  split
  · next hgoes =>
    obtain ⟨a, b, hab⟩ := removable_iff.mp hgoes
    exact hab.oriented h
  · exact h

/-- **Straightening.** Whatever counts as straight, straightened faces are oriented. -/
theorem straighten (h : OrientedFaces faces) (n : Nat) :
    OrientedFaces (CollisionMesh.straighten straight n faces) := by
  induction n with
  | zero => exact h
  | succ n ih =>
    rw [straighten_succ]
    exact ih.straightenAt n

/-! ### Renumbering -/

/-- Faces stay oriented where different corners get different numbers. -/
theorem map (h : OrientedFaces faces) {number : Nat → Nat}
    (hnumber : ∀ i ∈ faces.flatten, ∀ j ∈ faces.flatten, number i = number j → i = j) :
    OrientedFaces (faces.map fun face => face.map number) := by
  have hin : ∀ {face : Face}, face ∈ faces → ∀ {i}, i ∈ face → i ∈ faces.flatten :=
    fun hface _ hi => List.mem_flatten_of_mem hface hi
  constructor
  · intro face hface
    obtain ⟨old, hold, rfl⟩ := List.mem_map.mp hface
    obtain ⟨i, hi, j, hj, k, hk, hij, hik, hjk⟩ := Finset.two_lt_card.mp (h.three_le old hold)
    rw [List.mem_toFinset] at hi hj hk
    have hmem : ∀ {i}, i ∈ old → number i ∈ (old.map number).toFinset :=
      fun hi => List.mem_toFinset.mpr (List.mem_map_of_mem hi)
    exact Finset.two_lt_card.mpr ⟨_, hmem hi, _, hmem hj, _, hmem hk,
      fun heq => hij (hnumber i (hin hold hi) j (hin hold hj) heq),
      fun heq => hik (hnumber i (hin hold hi) k (hin hold hk) heq),
      fun heq => hjk (hnumber j (hin hold hj) k (hin hold hk) heq)⟩
  · rw [List.pairwise_map]
    refine h.apart.imp_of_mem ?_
    intro face face' hface hface' hdisjoint
    rw [loopEdges, loopEdges, cyclicPairs_map, cyclicPairs_map]
    intro e hmem hmem'
    obtain ⟨⟨i, j⟩, he, rfl⟩ := List.mem_map.mp hmem
    obtain ⟨⟨i', j'⟩, he', heq⟩ := List.mem_map.mp hmem'
    obtain ⟨hi, hj⟩ := mem_of_mem_cyclicPairs he
    obtain ⟨hi', hj'⟩ := mem_of_mem_cyclicPairs he'
    obtain ⟨hii, hjj⟩ := Prod.mk.inj heq
    obtain rfl := hnumber i' (hin hface' hi') i (hin hface hi) hii
    obtain rfl := hnumber j' (hin hface' hj') j (hin hface hj) hjj
    exact hdisjoint _ he he'

end OrientedFaces

namespace Mesh

variable {α : Type} {m : Mesh α}

/-- Oriented faces with their corners in the vertex list. -/
structure Oriented (m : Mesh α) : Prop where
  wellIndexed : m.WellIndexed
  faces : OrientedFaces m.faces

variable [Scalar α]

/-- Compacting leaves no vertex without a face. -/
theorem exists_face_of_lt_size_compact {i : Nat} (h : i < m.compact.vertices.size) :
    ∃ face ∈ m.compact.faces, i ∈ face := by
  have hlt : i < m.used.length := by
    simpa [compact] using h
  obtain ⟨face, hface, hi⟩ := mem_used.mp (List.getElem_mem hlt)
  refine ⟨_, List.mem_map_of_mem hface, List.mem_map.mpr ⟨_, hi, ?_⟩⟩
  exact m.nodup_used.idxOf_getElem i hlt

theorem Oriented.compact (h : m.Oriented) : m.compact.Oriented :=
  ⟨wellIndexed_compact m, h.faces.map idxOf_used_inj⟩

section Dissolving

variable {angle : α}

/-- The vertices that dissolving takes out because they lie straight between their neighbours. -/
def straightened (angle : α) (m : Mesh α) : List Nat :=
  gone ((m.mergeRegions angle).isStraight angle) m.vertices.size (m.mergeRegions angle).faces

/-- What dissolving compacts are the merged faces, all without the vertices that were taken out. -/
theorem faces_dissolved_eq_map (angle : α) (m : Mesh α) :
    (m.dissolved angle).faces
      = (m.mergeRegions angle).faces.map fun face => face.filter (· ∉ m.straightened angle) := by
  rw [faces_dissolved, straighten_eq_map, straightened]

theorem Oriented.dissolved (h : m.Oriented) (angle : α) : (m.dissolved angle).Oriented := by
  obtain ⟨parts, hparts, -, hfaces⟩ := m.exists_parts_mergeRegions angle
  refine ⟨wellIndexed_dissolved h.wellIndexed angle, ?_⟩
  rw [faces_dissolved, hfaces]
  exact (h.faces.merge hparts).straighten m.vertices.size

theorem nodup_of_mem_dissolved (h : ∀ face ∈ m.faces, face.Nodup) {face : Face}
    (hface : face ∈ (m.dissolved angle).faces) : face.Nodup := by
  obtain ⟨parts, -, -, hfaces⟩ := m.exists_parts_mergeRegions angle
  rw [faces_dissolved_eq_map, hfaces] at hface
  obtain ⟨old, hold, rfl⟩ := List.mem_map.mp hface
  exact (nodup_of_mem_merge h hold).filter _

theorem Oriented.dissolve (h : m.Oriented) (angle : α) : (m.dissolve angle).Oriented :=
  (h.dissolved angle).compact

theorem nodup_of_mem_dissolve (h : ∀ face ∈ m.faces, face.Nodup) {face : Face}
    (hface : face ∈ (m.dissolve angle).faces) : face.Nodup := by
  obtain ⟨old, hold, rfl⟩ := List.mem_map.mp hface
  refine (nodup_of_mem_dissolved h hold).map_on ?_
  intro i hi j hj
  exact idxOf_used_inj i (List.mem_flatten_of_mem hold hi) j (List.mem_flatten_of_mem hold hj)

/-- **Dissolving.** An oriented mesh with a face is dissolved into one, whatever the angle and
    whatever counts as within it. Its faces are the merged ones, all without the vertices that were
    taken out and renumbered so that every vertex is used by a face and keeps its place. -/
theorem apply_dissolve_of_oriented [Clipper α] (h : m.Oriented) (hne : m.faces ≠ []) (angle : α) :
    ∃ m', m.apply (.dissolve angle) = .ok m' ∧ m'.Oriented ∧ m'.faces ≠ [] ∧
      ((∀ face ∈ m.faces, face.Nodup) → ∀ face ∈ m'.faces, face.Nodup) ∧
      (∀ i < m'.vertices.size, ∃ face ∈ m'.faces, i ∈ face) ∧
      ∃ number : Nat → Nat,
        m'.faces = ((m.mergeRegions angle).faces.map fun face =>
          (face.filter (· ∉ m.straightened angle)).map number) ∧
        ∀ i ∈ (m.dissolved angle).used, m'.position (number i) = m.position i ∧
          ∀ j ∈ (m.dissolved angle).used, number i = number j → i = j := by
  refine ⟨m.dissolve angle, apply_of_ne_nil hne _, h.dissolve angle, faces_dissolve_ne_nil hne angle,
    fun hnodup face => nodup_of_mem_dissolve hnodup, fun i => exists_face_of_lt_size_compact,
    (m.dissolved angle).used.idxOf, ?_, ?_⟩
  · rw [dissolve, compact, faces_dissolved_eq_map, List.map_map]
    rfl
  · intro i hi
    exact ⟨position_compact hi, fun j _ heq => (List.idxOf_inj hi).mp heq⟩

/-- Two rectangles folded along a common side, with a vertex in the middle of it. -/
def folded : Mesh Float where
  vertices := #[⟨0, 0, 0⟩, ⟨10, 0, 0⟩, ⟨20, 0, 0⟩, ⟨20, 10, 0⟩, ⟨0, 10, 0⟩, ⟨0, 0, 10⟩, ⟨20, 0, 10⟩]
  faces := [[0, 1, 2, 3, 4], [2, 1, 0, 5, 6]]

/-- The folded rectangles stay oriented, with every vertex in use. -/
theorem apply_dissolve_of_oriented_folded :
    folded.Oriented ∧ folded.faces ≠ [] ∧
    ∃ m', folded.apply (.dissolve Tolerances.standard.dissolveAngle) = .ok m' ∧ m'.Oriented ∧
      m'.faces ≠ [] ∧ (∀ face ∈ m'.faces, face.Nodup) ∧
      ∀ i < m'.vertices.size, ∃ face ∈ m'.faces, i ∈ face := by
  have horiented : folded.Oriented := by
    refine ⟨?_, by decide, by decide⟩
    show ∀ face ∈ folded.faces, ∀ i ∈ face, i < 7
    decide
  have hne : folded.faces ≠ [] := List.cons_ne_nil _ _
  obtain ⟨m', happly, ho, hne', hnodup, hused, -⟩ :=
    apply_dissolve_of_oriented horiented hne Tolerances.standard.dissolveAngle
  exact ⟨horiented, hne, m', happly, ho, hne', hnodup (by decide), hused⟩

end Dissolving

end Mesh

end CollisionMesh
