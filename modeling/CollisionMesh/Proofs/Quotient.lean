import CollisionMesh.Proofs.HalfTurn
import CollisionMesh.Proofs.Passes
import CollisionMesh.Proofs.Stretches

namespace CollisionMesh

/-!
# A mesh divided by nearness

Vertices are linked where a chain of vertices, in use or not, leads from one to the other, each
within the threshold of the next. Welding divides a mesh by this: every corner becomes the first
vertex that a chain leads to. How the vertices near a place are searched for does not matter, as
long as just these are found.

* `Mesh.IsQuotient` — a mesh divided by chains; `Mesh.isQuotient_iff` — it is the welded one;
* `Mesh.KeepsCorners`, `Mesh.exists_keepsCorners_weld` — which corners share a vertex, and where;
* `Mesh.weldBy`, `Mesh.FindsNear` — welding with another search for near vertices;
  `Mesh.weldBy_eq_weld` — it gives the same mesh;
* `Mesh.apply_weld_eq_quotient` — what welding does to any mesh.
-/

namespace Mesh

variable {α : Type} [Scalar α] {m m' : Mesh α} {d : α}

/-! ### The quotient -/

/-- Loops of at least three corners. -/
def lasting (loops : List Face) : List Face :=
  loops.filter fun loop => 3 ≤ loop.length

/-- The mesh `m'` is `m` divided by chains. Every vertex goes to the first one that a chain leads
to, the loops over these lose their repeats, and those of at least three corners are the faces of
`m'`, over the vertices that they use by first use. -/
structure IsQuotient (d : α) (m m' : Mesh α) (first : Nat → Nat) (loops : List Face) : Prop where
  isLeast : ∀ i < m.vertices.size, IsLeast {j | m.Linked d i j} (first i)
  cleaned : List.Forall₂ (fun face loop => Cleaned (face.map first) loop) m.faces loops
  vertices_eq : m'.vertices.toList = (lasting loops).flatten.eraseDups.map m.position
  faces_eq : m'.faces.map (List.map fun i => (lasting loops).flatten.eraseDups[i]?)
    = (lasting loops).map (List.map some)

omit [Scalar α] in
/-- Numbers that stand for the elements of loops by first use are their places there. -/
theorem map_idxOf_of_map_getElem? {faces loops : List Face} {order : List Nat} (horder : order.Nodup)
    (h : faces.map (List.map fun i => order[i]?) = loops.map (List.map some)) :
    faces = loops.map (List.map fun v => order.idxOf v) := by
  have hplaces : ∀ face ∈ faces, (face.map fun i => order[i]?).map
      (fun o => order.idxOf (o.getD 0)) = face := by
    intro face hface
    obtain ⟨loop, -, hloop⟩ := List.mem_map.mp (h ▸ List.mem_map_of_mem hface)
    rw [List.map_map]
    refine (List.map_congr_left fun i hi => ?_).trans (List.map_id' _)
    obtain ⟨v, -, hv⟩ := List.mem_map.mp (hloop ▸ List.mem_map_of_mem hi)
    obtain ⟨hlt, rfl⟩ := List.getElem?_eq_some_iff.mp hv.symm
    simp only [Function.comp_apply, hv.symm, Option.getD_some]
    exact horder.idxOf_getElem i hlt
  calc faces
      = faces.map fun face => (face.map fun i => order[i]?).map fun o => order.idxOf (o.getD 0) :=
        ((List.map_congr_left hplaces).trans (List.map_id' _)).symm
    _ = (faces.map (List.map fun i => order[i]?)).map (List.map fun o => order.idxOf (o.getD 0)) := by
        rw [List.map_map]
        rfl
    _ = loops.map (List.map fun v => order.idxOf v) := by
        rw [h, List.map_map]
        exact List.map_congr_left fun loop _ => List.map_map

/-- The loops of a quotient are those that cleaning leaves. -/
theorem IsQuotient.lasting_eq (hcomm : ∀ p q : Point α, p.distanceSq q = q.distanceSq p)
    (hm : m.WellIndexed) {first : Nat → Nat} {loops : List Face}
    (h : m.IsQuotient d m' first loops) :
    lasting loops = weldFaces (m.clusters d).least m.faces := by
  have hfirst : ∀ i < m.vertices.size, first i = (m.clusters d).least i := fun i hi =>
    (h.isLeast i hi).unique (isLeast_linked hcomm d hi)
  have hloops : ∀ {faces loops : List Face}, (∀ face ∈ faces, ∀ i ∈ face, i < m.vertices.size) →
      List.Forall₂ (fun face loop => Cleaned (face.map first) loop) faces loops →
      loops = faces.map fun face => cleanLoop (face.map (m.clusters d).least) := by
    intro faces loops hlt hcleaned
    induction hcleaned with
    | nil => rfl
    | cons hface _ ih =>
      obtain ⟨hface_lt, hlt⟩ := List.forall_mem_cons.mp hlt
      rw [List.map_cons, ← ih hlt, ← hface.cleanLoop_eq,
        List.map_congr_left fun i hi => hfirst i (hface_lt i hi)]
  rw [lasting, weldFaces, hloops hm h.cleaned]

/-- **The quotient is the welded mesh.** -/
theorem isQuotient_iff (hcomm : ∀ p q : Point α, p.distanceSq q = q.distanceSq p)
    (hm : m.WellIndexed) :
    (∃ first loops, m.IsQuotient d m' first loops) ↔ m.weld d = m' := by
  constructor
  · rintro ⟨first, loops, h⟩
    have hvertices := h.vertices_eq
    have hfaces := h.faces_eq
    rw [h.lasting_eq hcomm hm] at hvertices hfaces
    have hfaces := map_idxOf_of_map_getElem? (nodup_eraseDups _) hfaces
    have hvertices := congrArg List.toArray hvertices
    rw [Array.toArray_toList] at hvertices
    obtain ⟨vertices, faces⟩ := m'
    subst hvertices hfaces
    rfl
  · rintro rfl
    refine ⟨(m.clusters d).least,
      m.faces.map fun face => cleanLoop (face.map (m.clusters d).least),
      fun i hi => isLeast_linked hcomm d hi,
      List.forall₂_map_right_iff.mpr (List.forall₂_same.mpr fun _ _ => cleaned_cleanLoop _), rfl, ?_⟩
    -- The number of a vertex is its place among those in use.
    show ((m.welded d).faces.map (List.map fun i => (m.welded d).used.idxOf i)).map
      (List.map fun i => (m.welded d).used[i]?) = (m.welded d).faces.map (List.map some)
    rw [List.map_map]
    refine List.map_congr_left fun face hface => ?_
    rw [Function.comp_apply, List.map_map]
    exact List.map_congr_left fun i hi => List.getElem?_idxOf (mem_used.mpr ⟨face, hface, hi⟩)

/-! ### Corners -/

/-- The corners of `m'` are corners `kept` of `m` under other names. Two of them share a vertex iff
a chain links the vertices that they had, and they lie where the first vertex does that a chain
leads to from there. -/
structure KeepsCorners (d : α) (m m' : Mesh α) (kept : List Face) (number : Nat → Nat) : Prop where
  sublist : List.SublistForall₂ List.Sublist kept m.faces
  faces_eq : m'.faces = kept.map fun face => face.map number
  number_eq_iff : ∀ i ∈ kept.flatten, ∀ j ∈ kept.flatten, (number i = number j ↔ m.Linked d i j)
  position : ∀ i ∈ kept.flatten, ∀ k, IsLeast {j | m.Linked d i j} k →
    m'.vertices[number i]? = some (m.position k)

/-- What is left of faces are the representatives of some of their corners. -/
theorem exists_kept (representative : Nat → Nat) (faces : List Face) :
    ∃ kept, List.SublistForall₂ List.Sublist kept faces ∧
      weldFaces representative faces = kept.map fun face => face.map representative := by
  induction faces with
  | nil => exact ⟨[], .nil, rfl⟩
  | cons face rest ih =>
    obtain ⟨kept, hsub, hkept⟩ := ih
    obtain ⟨corners, hcorners, hclean⟩ :=
      List.sublist_map_iff.mp (cleanLoop_sublist (face.map representative))
    unfold weldFaces at hkept ⊢
    rw [List.map_cons, List.filter_cons]
    split
    · exact ⟨corners :: kept, .cons hcorners hsub, by rw [hkept, hclean]; rfl⟩
    · exact ⟨kept, .cons_right hsub, hkept⟩

theorem exists_keepsCorners_weld (hcomm : ∀ p q : Point α, p.distanceSq q = q.distanceSq p)
    (hm : m.WellIndexed) (d : α) : ∃ kept number, m.KeepsCorners d (m.weld d) kept number := by
  obtain ⟨kept, hsub, hkept⟩ := exists_kept (m.clusters d).least m.faces
  have hlt : ∀ i ∈ kept.flatten, i < m.vertices.size := by
    intro i hi
    obtain ⟨corners, hcorners, hi⟩ := List.mem_flatten.mp hi
    obtain ⟨faces, hforall, hfaces⟩ := List.sublistForall₂_iff.mp hsub
    obtain ⟨face, hface, hincl⟩ := exists_superset_of_forall₂ hforall hcorners
    exact hm face (hfaces.subset hface) i (hincl hi)
  have hused : ∀ i ∈ kept.flatten, (m.clusters d).least i ∈ (m.welded d).used := by
    intro i hi
    obtain ⟨corners, hcorners, hi⟩ := List.mem_flatten.mp hi
    refine mem_used.mpr ⟨_, ?_, List.mem_map_of_mem hi⟩
    show _ ∈ weldFaces _ _
    rw [hkept]
    exact List.mem_map_of_mem hcorners
  refine ⟨kept, fun i => (m.welded d).used.idxOf ((m.clusters d).least i), hsub, ?_, ?_, ?_⟩
  · show (weldFaces (m.clusters d).least m.faces).map
      (List.map fun i => (m.welded d).used.idxOf i) = _
    rw [hkept, List.map_map]
    exact List.map_congr_left fun face _ => List.map_map
  · intro i hi j hj
    rw [List.idxOf_inj (hused i hi), least_eq_least_iff_linked hcomm (hlt i hi) (hlt j hj)]
  · intro i hi k hk
    rw [hk.unique (isLeast_linked hcomm d (hlt i hi))]
    show ((m.welded d).used.map m.position).toArray[_]? = _
    rw [List.getElem?_toArray, List.getElem?_map, List.getElem?_idxOf (hused i hi), Option.map_some]

/-! ### Other searches -/

/-- The classes where the vertices near a place are searched for. -/
def clustersBy (m : Mesh α) (search : Point α → α → List (Fin m.vertices.size)) (d : α) :
    LeastForest m.vertices.size :=
  (List.finRange m.vertices.size).foldl (fun f (i : Fin m.vertices.size) =>
    (search (m.position i) (reachSq d)).foldl (fun f j => f.union i j) f) (.singletons _)

/-- Welding with a search for near vertices. -/
def weldBy (m : Mesh α) (search : Point α → α → List (Fin m.vertices.size)) (d : α) : Mesh α :=
  compact { m with faces := weldFaces (m.clustersBy search d).least m.faces }

/-- The search finds just the vertices within the threshold of a vertex, in any order. -/
def FindsNear (m : Mesh α) (search : Point α → α → List (Fin m.vertices.size)) (d : α) : Prop :=
  ∀ p ∈ m.vertices, ∀ j, j ∈ search p (reachSq d) ↔ (m.position j).distanceSq p ≤ reachSq d

/-- **Any search.** The order in which near vertices are found does not matter. -/
theorem weldBy_eq_weld (hcomm : ∀ p q : Point α, p.distanceSq q = q.distanceSq p)
    {search : Point α → α → List (Fin m.vertices.size)} (h : m.FindsNear search d) :
    m.weldBy search d = m.weld d := by
  have hunions : m.clustersBy search d = (LeastForest.singletons m.vertices.size).unions
      ((List.finRange m.vertices.size).flatMap fun i : Fin m.vertices.size =>
        (search (m.position i) (reachSq d)).map fun j => (i, j)) := by
    simp only [clustersBy, LeastForest.unions, List.foldl_flatMap, List.foldl_map]
  have hpairs : ∀ i j : Fin m.vertices.size,
      (i, j) ∈ ((List.finRange m.vertices.size).flatMap fun i : Fin m.vertices.size =>
        (search (m.position i) (reachSq d)).map fun j => (i, j)) ↔
      LeastForest.Linked (m.near d) i j := by
    intro i j
    rw [List.mem_flatMap]
    have hfound := h (m.position i) (m.position_mem i.isLt) j
    rw [hcomm, ← decide_eq_true_iff (p := _ ≤ _)] at hfound
    constructor
    · rintro ⟨i', -, hmem⟩
      obtain ⟨j', hj, heq⟩ := List.mem_map.mp hmem
      obtain ⟨rfl, rfl⟩ := Prod.mk.inj heq
      exact hfound.mp hj
    · intro hnear
      exact ⟨i, List.mem_finRange i, List.mem_map_of_mem (hfound.mpr hnear)⟩
  have hleast : (m.clustersBy search d).least = (m.clusters d).least := by
    refine LeastForest.least_eq_of_forall_iff fun i j hi hj => ?_
    rw [hunions, LeastForest.least_unions_iff hpairs hi hj, clusters_iff]
  rw [weldBy, hleast, weld]

/-! ### The result -/

/-- A threshold that is not above zero reaches as far as zero. -/
theorem reachSq_of_not_pos {d : α} (h : ¬ (0.0 : α) < d) : reachSq d = reachSq (0.0 : α) := by
  simp only [reachSq, if_neg h, ite_self]

theorem linked_eq_of_not_pos (m : Mesh α) (h : ¬ (0.0 : α) < d) :
    m.Linked d = m.Linked (0.0 : α) := by
  unfold Linked
  rw [reachSq_of_not_pos h]

/-- **The welded mesh.** On any mesh with faces welding succeeds. The result is the one mesh that is
the old one divided by chains. Its corners are old ones, and two of them share a vertex iff a chain
links their old vertices. Every search that finds just the near vertices leads to it, in whatever
order it finds them. A threshold that is negative or not a number links what zero links. -/
theorem apply_weld_eq_quotient [Clipper Float] {m : Mesh Float} (hm : m.WellIndexed)
    (hne : m.faces ≠ []) (d : Float) :
    ∃ m', m.apply (.weld d) = .ok m' ∧
      (∀ m'', (∃ first loops, m.IsQuotient d m'' first loops) ↔ m' = m'') ∧
      (∃ kept number, m.KeepsCorners d m' kept number) ∧
      (∀ search, m.FindsNear search d → m.weldBy search d = m') ∧
      (¬ (0.0 : Float) < d → m.Linked d = m.Linked (0.0 : Float)) := by
  have hcomm : ∀ p q : Point Float, p.distanceSq q = q.distanceSq p := distanceSq_comm Float.acos
  exact ⟨m.weld d, apply_of_ne_nil hne _, fun _ => isQuotient_iff hcomm hm,
    exists_keepsCorners_weld hcomm hm d, fun _ h => weldBy_eq_weld hcomm h,
    m.linked_eq_of_not_pos⟩

/-- Two corners far apart, and between them a vertex of no face. -/
def bridge : Mesh Float where
  vertices := #[⟨2, 0, 0⟩, ⟨0, 0, 0⟩, ⟨4, 0, 0⟩, ⟨20, 0, 0⟩, ⟨0, 20, 0⟩]
  faces := [[1, 3, 2, 4, 1], [1, 2, 3]]

/-- The vertices of the bridge near a place, the last first. -/
def bridge.search (p : Point Float) (r : Float) : List (Fin bridge.vertices.size) :=
  ((List.finRange bridge.vertices.size).filter fun j : Fin bridge.vertices.size =>
    (bridge.position j).distanceSq p ≤ r).reverse

/-- The vertex of no face links the two corners, so the second face disappears, and the corners lie
where that vertex did. -/
theorem apply_weld_eq_quotient_bridge :
    bridge.WellIndexed ∧ bridge.faces ≠ [] ∧ bridge.FindsNear bridge.search 2.5 ∧
      ∃ m', bridge.apply (.weld 2.5) = .ok m' ∧ m'.faces = [[0, 1, 0, 2]] ∧
        m'.vertices.toList.head? = some ⟨2, 0, 0⟩ ∧
        (∃ first loops, bridge.IsQuotient 2.5 m' first loops) ∧
        (∃ kept number, bridge.KeepsCorners 2.5 m' kept number) ∧
        bridge.weldBy bridge.search 2.5 = m' := by
  have hwell : bridge.WellIndexed := by decide
  have hne : bridge.faces ≠ [] := List.cons_ne_nil _ _
  have hsearch : bridge.FindsNear bridge.search 2.5 := by
    intro p _ j
    simp [bridge.search]
  obtain ⟨m', happly, hquotient, hcorners, hby, -⟩ := apply_weld_eq_quotient hwell hne 2.5
  obtain rfl : bridge.weld 2.5 = m' := edit_eq_of_apply_eq_ok happly
  exact ⟨hwell, hne, hsearch, _, happly, by decide +kernel, by decide +kernel,
    (hquotient _).mpr rfl, hcorners, hby _ hsearch⟩

end Mesh

end CollisionMesh
