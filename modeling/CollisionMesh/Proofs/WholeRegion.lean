import CollisionMesh.Proofs.Circuits
import CollisionMesh.Proofs.Seeds

namespace CollisionMesh

/-!
# A surface that is one region

Where all faces look the same way and hang together across their edges the first one is the seed of
a single region, and this has the outline of the surface.

* `regions_range_eq` — faces that all fit and hang together are one region;
* `NoEdgeTwice`, `NoEdgeTwice.twin?_eq_some_iff` — faces that run along no edge twice, and the
  faces across their edges;
* `openEdges`, `NoEdgeTwice.rim_range` — the edges that no face runs back along;
* `HangTogether` — faces that can be reached from each other across edges;
* `NoEdgeTwice.map`, `openEdges_map`, `HangTogether.map` — the same with other names for the corners;
* `Mesh.mergeRegions_of_hangTogether` — merging leaves the outline of such a surface.
-/

/-! ### One seed -/

/-- **One region.** Faces that all fit each other and hang together are a single region. -/
theorem regions_range_eq {twins : Nat → List Nat} {fits : Nat → Nat → Bool} {n : Nat} (hn : 0 < n)
    (hfits : ∀ f < n, ∀ g < n, fits f g = true)
    (hlinked : ∀ g < n, Relation.ReflTransGen (fun f g => g < n ∧ g ∈ twins f) 0 g) :
    regions twins fits (List.range n) = [List.range n] := by
  rw [regions_eq_iff _ _ List.pairwise_lt_range]
  obtain ⟨rest, hrange⟩ : ∃ rest, List.range n = 0 :: rest := by
    obtain ⟨k, rfl⟩ := Nat.exists_eq_add_of_lt hn
    rw [Nat.zero_add]
    exact ⟨_, List.range_succ_eq_map⟩
  have hlt : ∀ g ∈ rest, g < n :=
    fun g hg => List.mem_range.mp (hrange ▸ List.mem_cons_of_mem 0 hg)
  rw [hrange, partedBySeeds_cons]
  refine ⟨by rw [List.flatten_nil, List.append_nil], ⟨?_, ?_, ?_, ?_, ?_⟩, partedBySeeds_nil⟩
  · rw [← hrange]
    exact List.pairwise_lt_range
  · exact fun g hg => hfits 0 hn g (hlt g hg)
  · intro g hg
    refine Relation.ReflTransGen.mono (fun f k hfk => ?_) 0 g (hlinked g (hlt g hg))
    rw [← hrange]
    exact ⟨hfk.2, List.mem_range.mpr hfk.1⟩
  · exact fun f _ g hg => absurd hg List.not_mem_nil
  · exact fun g hg => absurd hg List.not_mem_nil

/-! ### Faces that run along no edge twice -/

section Loops

variable {β γ : Type} {faces : List (List β)}

/-- No directed edge is run along twice, and no face runs both ways along one. -/
structure NoEdgeTwice (faces : List (List β)) : Prop where
  nodup : (faces.flatMap cyclicPairs).Nodup
  oneWay : ∀ face ∈ faces, ∀ e ∈ cyclicPairs face, e.swap ∉ cyclicPairs face

/-- The edges of faces that no face runs back along. -/
def openEdges [DecidableEq β] (faces : List (List β)) : List (β × β) :=
  (faces.flatMap cyclicPairs).filter fun e => e.swap ∉ faces.flatMap cyclicPairs

theorem mem_openEdges [DecidableEq β] {e : β × β} : e ∈ openEdges faces ↔
    e ∈ faces.flatMap cyclicPairs ∧ e.swap ∉ faces.flatMap cyclicPairs := by
  rw [openEdges, List.mem_filter, decide_eq_true_iff]

/-- Open edges can be told from the edges, in any order. -/
theorem openEdges_perm [DecidableEq β] {faces' : List (List β)}
    (h : (faces.flatMap cyclicPairs).Perm (faces'.flatMap cyclicPairs)) :
    (openEdges faces).Perm (openEdges faces') := by
  refine (h.filter _).trans (List.Perm.of_eq (List.filter_congr fun e _ => ?_))
  rw [decide_eq_decide, h.mem_iff]

/-- Two faces that share an edge, which they run along in opposite directions. -/
def Across (faces : List (List β)) (f g : List β) : Prop :=
  f ∈ faces ∧ g ∈ faces ∧ ∃ e ∈ cyclicPairs f, e.swap ∈ cyclicPairs g

/-- From each face a way leads to each other one, across one edge after the other. -/
def HangTogether (faces : List (List β)) : Prop :=
  ∀ f ∈ faces, ∀ g ∈ faces, Relation.ReflTransGen (Across faces) f g

theorem Across.symm {f g : List β} (h : Across faces f g) : Across faces g f := by
  obtain ⟨hf, hg, e, he, hback⟩ := h
  exact ⟨hg, hf, e.swap, hback, by rwa [Prod.swap_swap]⟩

/-- The order of the faces does not matter. -/
theorem HangTogether.perm {faces' : List (List β)} (h : HangTogether faces)
    (hperm : faces'.Perm faces) : HangTogether faces' := by
  have hacross : Across faces' = Across faces := by
    funext f g
    rw [Across, Across, hperm.mem_iff, hperm.mem_iff]
  intro f hf g hg
  rw [hacross]
  exact h f (hperm.subset hf) g (hperm.subset hg)

/-- Faces hang together if one of them is linked to all. -/
theorem HangTogether.of_first {first : List β}
    (h : ∀ f ∈ faces, Relation.ReflTransGen (Across faces) first f) : HangTogether faces := by
  intro f hf g hg
  have : Std.Symm (Across faces) := ⟨fun _ _ => Across.symm⟩
  exact (Relation.ReflTransGen.stdSymm.symm _ _ (h f hf)).trans (h g hg)

/-! Faces with other names for their corners. -/

variable {num : β → γ}

private theorem swap_map (e : β × β) : (Prod.map num num e).swap = Prod.map num num e.swap := rfl

private theorem flatMap_edges_map (num : β → γ) (faces : List (List β)) :
    (faces.map (List.map num)).flatMap cyclicPairs =
      (faces.flatMap cyclicPairs).map (Prod.map num num) := by
  rw [List.flatMap_map, List.map_flatMap]
  exact List.flatMap_congr fun face _ => cyclicPairs_map num face

theorem NoEdgeTwice.map (h : NoEdgeTwice faces) (hnum : Function.Injective num) :
    NoEdgeTwice (faces.map (List.map num)) := by
  have hpair := hnum.prodMap hnum
  constructor
  · rw [flatMap_edges_map]
    exact h.nodup.map hpair
  · intro face hface e he hback
    obtain ⟨old, hold, rfl⟩ := List.mem_map.mp hface
    rw [cyclicPairs_map] at he hback
    obtain ⟨d, hd, rfl⟩ := List.mem_map.mp he
    rw [swap_map, List.mem_map_of_injective hpair] at hback
    exact h.oneWay old hold d hd hback

theorem openEdges_map [DecidableEq β] [DecidableEq γ] (hnum : Function.Injective num)
    (faces : List (List β)) :
    openEdges (faces.map (List.map num)) = (openEdges faces).map (Prod.map num num) := by
  rw [openEdges, openEdges, flatMap_edges_map, List.filter_map]
  refine congrArg _ (List.filter_congr fun e _ => ?_)
  rw [Function.comp_apply, decide_eq_decide, swap_map,
    List.mem_map_of_injective (hnum.prodMap hnum)]

theorem HangTogether.map (h : HangTogether faces) (num : β → γ) :
    HangTogether (faces.map (List.map num)) := by
  intro f' hf' g' hg'
  obtain ⟨f, hf, rfl⟩ := List.mem_map.mp hf'
  obtain ⟨g, hg, rfl⟩ := List.mem_map.mp hg'
  refine (h f hf g hg).lift (List.map num) ?_
  rintro f g ⟨hf, hg, e, he, hback⟩
  refine ⟨List.mem_map_of_mem hf, List.mem_map_of_mem hg, Prod.map num num e, ?_, ?_⟩
  · rw [cyclicPairs_map]
    exact List.mem_map_of_mem he
  · rw [cyclicPairs_map, swap_map]
    exact List.mem_map_of_mem hback

end Loops

namespace NoEdgeTwice

variable {faces : List Face} {e : Nat × Nat} {f g : Nat}

/-- An edge has the one face along it as its only user. -/
theorem users_eq (h : NoEdgeTwice faces) (he : e ∈ loopEdges (faces.toArray.getD f [])) :
    users (edgeUses faces) e = [f] := by
  have hone : ∀ g, (users (edgeUses faces) e).count g ≤ 1 := by
    intro g
    rw [count_users_edgeUses]
    by_cases hg : g < faces.length
    · refine List.nodup_iff_count_le_one.mp ?_ e
      refine (List.nodup_flatMap.mp h.nodup).1 _ ?_
      simp [hg]
    · rw [getD_eq_nil hg]
      exact Nat.zero_le 1
  have hapart : faces.Pairwise fun face face' => ∀ e ∈ loopEdges face, e ∉ loopEdges face' :=
    (List.nodup_flatMap.mp h.nodup).2.imp fun hdisjoint e he he' => hdisjoint he he'
  have honly : ∀ g ∈ users (edgeUses faces) e, g = f :=
    fun g hg => eq_of_mem_edges_getD hapart (mem_users_edgeUses.mp hg) he
  rw [List.eq_replicate_of_mem honly]
  have hcount : (users (edgeUses faces) e).length = (users (edgeUses faces) e).count f := by
    rw [List.count_eq_length.mpr fun g hg => (honly g hg).symm]
  have hpos : 0 < (users (edgeUses faces) e).count f :=
    List.count_pos_iff.mpr (mem_users_edgeUses.mpr he)
  rw [hcount, show (users (edgeUses faces) e).count f = 1 from by have := hone f; omega]
  rfl

/-- The face across an edge is the one that runs back along it. -/
theorem twin?_eq_some_iff (h : NoEdgeTwice faces) (he : e ∈ loopEdges (faces.toArray.getD f [])) :
    twin? (users (edgeUses faces)) e = some g ↔
      e.swap ∈ loopEdges (faces.toArray.getD g []) := by
  rw [CollisionMesh.twin?_eq_some_iff]
  constructor
  · rintro ⟨_, -, hback, -⟩
    exact mem_users_edgeUses.mp (by rw [hback]; exact List.mem_singleton_self g)
  · intro hback
    refine ⟨f, h.users_eq he, h.users_eq hback, ?_⟩
    rintro rfl
    obtain ⟨face, hface, he'⟩ := mem_edges_getD_iff.mp he
    obtain ⟨face', hface', hback'⟩ := mem_edges_getD_iff.mp hback
    obtain rfl := Option.some.inj (hface.symm.trans hface')
    exact h.oneWay face (List.mem_of_getElem? hface) e he' hback'

/-- **The rim of all faces** is made of their open edges. -/
theorem rim_range (h : NoEdgeTwice faces) :
    rim faces (List.range faces.length) = openEdges faces := by
  have hedges : regionEdges faces (List.range faces.length) = faces.flatMap loopEdges := by
    conv_rhs => rw [eq_map_range faces, List.flatMap_map]
  rw [rim, openEdges, hedges]
  refine List.filter_congr fun e he => ?_
  obtain ⟨face, hface, he⟩ := List.mem_flatMap.mp he
  obtain ⟨f, hf⟩ := List.getElem?_of_mem hface
  have he := mem_edges_getD_iff.mpr ⟨face, hf, he⟩
  rw [decide_eq_decide, not_iff_not]
  constructor
  · rintro ⟨g, hg, htwin⟩
    obtain ⟨face', hface', hback⟩ := mem_edges_getD_iff.mp ((h.twin?_eq_some_iff he).mp htwin)
    exact List.mem_flatMap.mpr ⟨face', List.mem_of_getElem? hface', hback⟩
  · intro hback
    obtain ⟨face', hface', hback⟩ := List.mem_flatMap.mp hback
    obtain ⟨g, hg⟩ := List.getElem?_of_mem hface'
    have hback := mem_edges_getD_iff.mpr ⟨face', hg, hback⟩
    refine ⟨g, List.mem_range.mpr (List.getElem?_eq_some_iff.mp hg).1, ?_⟩
    exact (h.twin?_eq_some_iff he).mpr hback

end NoEdgeTwice

/-! ### Surfaces that hang together -/

/-- Faces that hang together do so by their places. -/
private theorem linked_of_hangTogether {faces : List Face} (honce : NoEdgeTwice faces)
    (hne : ∀ face ∈ faces, face ≠ []) (htogether : HangTogether faces) {k : Nat}
    (hk : k < faces.length) :
    Relation.ReflTransGen (fun f g => g < faces.length ∧
      g ∈ Mesh.twinsOf faces.toArray (users (edgeUses faces)) f) 0 k := by
  have hzero : 0 < faces.length := Nat.lt_of_le_of_lt (Nat.zero_le k) hk
  -- Wherever a way over the faces leads, a way over their places leads to the same face.
  have hreached : ∃ j, faces[j]? = some faces[k] ∧ Relation.ReflTransGen (fun f g =>
      g < faces.length ∧ g ∈ Mesh.twinsOf faces.toArray (users (edgeUses faces)) f) 0 j := by
    have hway := htogether _ (List.getElem_mem hzero) _ (List.getElem_mem hk)
    generalize faces[k] = last at hway ⊢
    induction hway with
    | refl => exact ⟨0, List.getElem?_eq_getElem hzero, .refl⟩
    | @tail face face' _ hacross ih =>
      obtain ⟨i, hi, hway⟩ := ih
      obtain ⟨-, hface', e, he, hback⟩ := hacross
      obtain ⟨j, hj⟩ := List.getElem?_of_mem hface'
      refine ⟨j, hj, hway.tail ⟨(List.getElem?_eq_some_iff.mp hj).1, ?_⟩⟩
      have he' := mem_edges_getD_iff.mpr ⟨face, hi, he⟩
      have hback' := mem_edges_getD_iff.mpr ⟨face', hj, hback⟩
      exact List.mem_filterMap.mpr ⟨e, he', (honce.twin?_eq_some_iff he').mpr hback'⟩
  obtain ⟨j, hj, hway⟩ := hreached
  obtain ⟨e, he⟩ : ∃ e, e ∈ loopEdges faces[k] := by
    refine List.exists_mem_of_length_pos ?_
    rw [length_cyclicPairs]
    exact List.length_pos_iff.mpr (hne _ (List.getElem_mem hk))
  have hj' := honce.users_eq (mem_edges_getD_iff.mpr ⟨_, hj, he⟩)
  have hk' := honce.users_eq (mem_edges_getD_iff.mpr ⟨_, List.getElem?_eq_getElem hk, he⟩)
  obtain rfl : j = k := List.singleton_inj.mp (hj'.symm.trans hk')
  exact hway

namespace Mesh

variable {α : Type} [Scalar α]

/-- **A flat surface becomes one face.** Where all faces look the same way, run along no edge twice
    and hang together, and their open edges form a circuit, merging leaves that circuit alone. -/
theorem mergeRegions_of_hangTogether {angle : α} {m : Mesh α} {u : Vec α}
    (hflat : ∀ face ∈ m.faces, m.normal? face = some u) (hangle : angleBetween u u ≤ angle)
    (honce : NoEdgeTwice m.faces) (hne : ∀ face ∈ m.faces, face ≠ [])
    (htogether : HangTogether m.faces) (hmany : 1 < m.faces.length)
    (hcircuit : ∃ loop, IsCircuit (openEdges m.faces) loop) :
    ∃ outline, (m.mergeRegions angle).faces = [outline] ∧
      IsCircuit (openEdges m.faces) outline := by
  have hdirection : ∀ f < m.faces.length, m.direction? f = some u := by
    intro f hf
    rw [direction?, List.getElem?_eq_getElem hf]
    exact hflat _ (List.getElem_mem hf)
  have hregions : m.flatRegions angle (users (edgeUses m.faces)) =
      [List.range m.faces.length] := by
    refine regions_range_eq (Nat.lt_of_succ_lt hmany) (fun f hf g hg => ?_)
      fun g hg => linked_of_hangTogether honce hne htogether hg
    simp only [within, getD_normals, hdirection f hf, hdirection g hg]
    exact decide_eq_true hangle
  have hparts := m.perm_flatten_flatRegions angle (users (edgeUses m.faces))
  obtain ⟨outline, houtline⟩ := exists_outline?_iff.mpr hcircuit
  have hmerged : (merge m.faces (outlined m.faces.toArray (users (edgeUses m.faces))
      (m.flatRegions angle (users (edgeUses m.faces))))).Perm [outline] := by
    refine (perm_merge hparts).trans (List.Perm.of_eq ?_)
    rw [hregions, List.flatMap_singleton, remains, outlineOf?_eq_some_iff.mpr]
    rw [boundary_eq_rim, honce.rim_range, List.length_range]
    exact ⟨hmany, houtline⟩
  refine ⟨outline, ?_, (outline?_eq_some_iff.mp houtline).1⟩
  rw [mergeRegions, mergedRegions_eq]
  exact List.perm_singleton.mp hmerged

end Mesh

end CollisionMesh
