import CollisionMesh.Proofs.EdgeUses
import CollisionMesh.Proofs.Flood
import Mathlib.Algebra.Order.BigOperators.Group.List
import Mathlib.Algebra.Order.Ring.Nat

namespace CollisionMesh

/-!
# Outlines of regions

An edge inside a region is used there twice, once in each direction. A region that
grew from one face by `k` more has at least `k` such edges, so at most the corners of
its faces less `2 * k` are left for its outline.

* `interior` — the edges of a face inside a region; `le_sum_interior` — how many there
  are at least;
* `length_boundary_le` — how many edges are left for the outline;
* `Returns` — a walk that comes back, however long; `walk_eq_some_iff` — the walk up to a bound;
  `Returns.nodup` — it visits no vertex twice;
* `edges_outline?`, `perm_edges_outline?`, `nodup_outline?` — an outline runs along the edges
  it was made of, along each once, and visits no vertex twice.
-/

/-! ### Edges inside a region -/

/-- How many edges of a face have a face of the region on their other side. -/
def interior (faces : Array Face) (users : Nat × Nat → List Nat) (region : List Nat) (f : Nat) :
    Nat :=
  (loopEdges (faces.getD f [])).countP fun e => (twin? users e).any region.contains

/-- The edges of the faces of a region are its boundary and the edges inside it. -/
theorem length_boundary_add (faces : Array Face) (users : Nat × Nat → List Nat)
    (region : List Nat) :
    (boundary faces users region).length + (region.map (interior faces users region)).sum
      = (region.map fun f => (faces.getD f []).length).sum := by
  rw [boundary, List.length_flatMap, ← List.sum_map_add]
  congr 1
  apply List.map_congr_left
  intro f _
  rw [← length_cyclicPairs (faces.getD f []), interior, ← List.countP_eq_length_filter,
    List.length_eq_countP_add_countP (fun e => (twin? users e).any region.contains), Nat.add_comm]
  congr 1
  -- An edge is on the boundary just where it is not inside.
  apply List.countP_congr
  intro e _
  cases twin? users e <;> simp

private theorem countP_lt_countP {β : Type} {p q : β → Bool} {l : List β}
    (hpq : ∀ x ∈ l, p x = true → q x = true) {x : β} (hx : x ∈ l) (hp : p x = false)
    (hq : q x = true) : l.countP p < l.countP q := by
  obtain ⟨s, t, rfl⟩ := List.append_of_mem hx
  have hs : s.countP p ≤ s.countP q :=
    List.countP_mono_left fun y hy => hpq y (List.mem_append_left _ hy)
  have ht : t.countP p ≤ t.countP q :=
    List.countP_mono_left fun y hy => hpq y (List.mem_append_right s (List.mem_cons_of_mem x hy))
  rw [List.countP_append, List.countP_append, List.countP_cons_of_neg (by rw [hp]; simp),
    List.countP_cons_of_pos hq]
  omega

/-- A greater region has more edges of a face inside. -/
theorem interior_mono {faces : Array Face} {users : Nat × Nat → List Nat} {region region' : List Nat}
    (h : region ⊆ region') (f : Nat) :
    interior faces users region f ≤ interior faces users region' f := by
  apply List.countP_mono_left
  intro e _ he
  rw [Option.any_eq_true_iff_get] at he ⊢
  obtain ⟨hsome, he⟩ := he
  exact ⟨hsome, List.contains_iff_mem.mpr (h (List.contains_iff_mem.mp he))⟩

section Growing

variable {faces : List Face}

/-- The edge across which a region grows is inside afterwards, seen from both sides. -/
theorem interior_append_of_twin {l : List Nat} {f g : Nat} (hf : f ∈ l) (hg : g ∉ l)
    (hfg : g ∈ Mesh.twinsOf faces.toArray (users (edgeUses faces)) f) :
    interior faces.toArray (users (edgeUses faces)) l f
        < interior faces.toArray (users (edgeUses faces)) (l ++ [g]) f ∧
      0 < interior faces.toArray (users (edgeUses faces)) (l ++ [g]) g := by
  obtain ⟨e, he, ht⟩ := List.mem_filterMap.mp hfg
  obtain ⟨he', ht'⟩ := twin?_swap he ht
  constructor
  -- Seen from `f` the edge was on the boundary before and is inside now.
  · refine countP_lt_countP ?_ he ?_ ?_
    · intro e' _ h
      rw [Option.any_eq_true_iff_get] at h ⊢
      obtain ⟨hsome, h⟩ := h
      exact ⟨hsome, List.contains_iff_mem.mpr
        (List.mem_append_left _ (List.contains_iff_mem.mp h))⟩
    · rw [ht, Option.any_some]
      simpa using hg
    · rw [ht, Option.any_some]
      simp
  -- Seen from `g` it is the same edge backwards.
  · refine List.countP_pos_iff.mpr ⟨e.swap, he', ?_⟩
    rw [ht', Option.any_some]
    simp [hf]

/-- **Inside edges.** A region that grew from one face by some more has an edge inside for
    each of them, used twice. -/
theorem le_sum_interior {l : List Nat}
    (h : Grown (Mesh.twinsOf faces.toArray (users (edgeUses faces))) l) (hl : l.Nodup) :
    2 * l.length
      ≤ (l.map (interior faces.toArray (users (edgeUses faces)) l)).sum + 2 := by
  induction h with
  | seed f => simp
  | @step l f g _ hf hg ih =>
    obtain ⟨hl, -, hdisjoint⟩ := List.nodup_append.mp hl
    -- Each new face brings two edges more inside: one of its own and one of the face that it
    -- grew from.
    have hgl : g ∉ l := fun hmem => hdisjoint g hmem g List.mem_cons_self rfl
    obtain ⟨hfaces, hnew⟩ := interior_append_of_twin hf hgl hg
    have hold : (l.map (interior faces.toArray (users (edgeUses faces)) l)).sum
        < (l.map (interior faces.toArray (users (edgeUses faces)) (l ++ [g]))).sum :=
      List.sum_lt_sum _ _ (fun f' _ => interior_mono (List.subset_append_left l [g]) f')
        ⟨f, hf, hfaces⟩
    have := ih hl
    rw [List.map_append, List.sum_append, List.length_append]
    simp only [List.map_cons, List.map_nil, List.sum_singleton, List.length_singleton]
    omega

/-- **Boundary edges.** A connected region of `k` faces leaves at most the number of their
    corners less `2 * (k - 1)` for its boundary. -/
theorem length_boundary_le {region : List Nat} (hregion : region.Nodup)
    (h : ∃ l, Grown (Mesh.twinsOf faces.toArray (users (edgeUses faces))) l ∧ region.Perm l) :
    (boundary faces.toArray (users (edgeUses faces)) region).length + 2 * region.length
      ≤ (region.map fun f => (faces.toArray.getD f []).length).sum + 2 := by
  obtain ⟨l, hgrown, hperm⟩ := h
  have hsum : (region.map (interior faces.toArray (users (edgeUses faces)) region)).sum
      = (l.map (interior faces.toArray (users (edgeUses faces)) l)).sum := by
    -- What is inside depends on the faces of the region, not on their order.
    have hsame : interior faces.toArray (users (edgeUses faces)) region
        = interior faces.toArray (users (edgeUses faces)) l :=
      funext fun f => le_antisymm (interior_mono hperm.subset f) (interior_mono hperm.symm.subset f)
    rw [hsame]
    exact (hperm.map _).sum_eq
  have hinside := le_sum_interior hgrown (hperm.nodup_iff.mp hregion)
  have hsplit := length_boundary_add faces.toArray (users (edgeUses faces)) region
  rw [hperm.length_eq]
  omega

end Growing

/-! ### Walks that come back -/

/-- A walk along `next` from some vertex back to `start`, with the vertices on the way. -/
inductive Returns (next : Nat → Option Nat) (start : Nat) : Nat → List Nat → Prop where
  /-- At the start there is nothing left to walk. -/
  | home : Returns next start start []
  /-- From any other vertex the walk goes on to the next one. -/
  | step {current v : Nat} {way : List Nat} : current ≠ start → next current = some v →
      Returns next start v way → Returns next start current (current :: way)

section Walks

variable {next : Nat → Option Nat} {start current : Nat} {way : List Nat}

/-- The walk up to a bound gives the ways back of at most so many vertices. -/
theorem walk_eq_some_iff {steps : Nat} :
    walk next start steps current = some way ↔ Returns next start current way ∧ way.length ≤ steps := by
  induction steps generalizing current way with
  | zero =>
    rw [walk]
    constructor
    · intro h
      split at h
      · next hhome =>
        obtain rfl := Option.some.inj h
        exact ⟨hhome ▸ .home, Nat.le_refl _⟩
      · exact absurd h (by simp)
    · rintro ⟨h, hlen⟩
      obtain rfl := List.eq_nil_of_length_eq_zero (Nat.le_zero.mp hlen)
      cases h
      exact if_pos rfl
  | succ steps ih =>
    rw [walk]
    constructor
    · intro h
      split at h
      · next hhome =>
        obtain rfl := Option.some.inj h
        exact ⟨hhome ▸ .home, Nat.zero_le _⟩
      · next hne =>
        obtain ⟨v, hv, h⟩ := Option.bind_eq_some_iff.mp h
        obtain ⟨rest, hrest, rfl⟩ := Option.map_eq_some_iff.mp h
        obtain ⟨hreturns, hlen⟩ := ih.mp hrest
        exact ⟨.step hne hv hreturns, Nat.succ_le_succ hlen⟩
    · rintro ⟨h, hlen⟩
      cases h with
      | home => exact if_pos rfl
      | step hne hv hrest =>
        rw [if_neg hne, hv, Option.bind_some, ih.mpr ⟨hrest, Nat.le_of_succ_le_succ hlen⟩,
          Option.map_some]

namespace Returns

/-- The vertices of a way back follow each other, up to the start. -/
theorem isChain (h : Returns next start current way) :
    (way ++ [start]).head? = some current ∧
      (way ++ [start]).IsChain fun a b => next a = some b := by
  induction h with
  | home => exact ⟨rfl, List.isChain_singleton _⟩
  | step _ hnext _ ih =>
    -- One step further, the walk goes on from the vertex that the edge leads to.
    obtain ⟨hhead, hchain⟩ := ih
    refine ⟨rfl, List.isChain_cons.mpr ⟨?_, hchain⟩⟩
    intro y hy
    exact hnext.trans (hhead.symm.trans hy)

theorem start_not_mem (h : Returns next start current way) : start ∉ way := by
  induction h with
  | home => exact List.not_mem_nil
  | step hne _ _ ih =>
    rw [List.mem_cons, not_or]
    exact ⟨Ne.symm hne, ih⟩

/-- There is one way back at most. -/
theorem unique (h : Returns next start current way) {way' : List Nat}
    (h' : Returns next start current way') : way = way' := by
  induction h generalizing way' with
  | home =>
    cases h' with
    | home => rfl
    | step hne _ _ => exact absurd rfl hne
  | step hne hnext _ ih =>
    cases h' with
    | home => exact absurd rfl hne
    | step _ hnext' hrest' =>
      obtain rfl := Option.some.inj (hnext.symm.trans hnext')
      rw [ih hrest']

/-- A way back goes on from each of its vertices. -/
theorem exists_suffix (h : Returns next start current way) {v : Nat} (hv : v ∈ way) :
    ∃ later, later <:+ way ∧ Returns next start v later := by
  induction h with
  | home => exact absurd hv List.not_mem_nil
  | step hne hnext hrest ih =>
    rcases List.mem_cons.mp hv with rfl | hv
    · exact ⟨_, List.suffix_rfl, .step hne hnext hrest⟩
    · obtain ⟨later, hsuffix, hlater⟩ := ih hv
      exact ⟨later, hsuffix.trans (List.suffix_cons _ _), hlater⟩

/-- A way back visits different vertices, none of them the start. -/
theorem nodup (h : Returns next start current way) : (start :: way).Nodup := by
  refine List.nodup_cons.mpr ⟨h.start_not_mem, ?_⟩
  induction h with
  | home => exact List.nodup_nil
  | @step current v way hne hnext hrest ih =>
    refine List.nodup_cons.mpr ⟨fun hmem => ?_, ih⟩
    -- The way on from the second visit is the one from the first, though it is shorter.
    obtain ⟨later, hsuffix, hlater⟩ := hrest.exists_suffix hmem
    have hle := hsuffix.length_le
    rw [hlater.unique (.step hne hnext hrest), List.length_cons] at hle
    exact Nat.not_succ_le_self _ hle

end Returns

end Walks

/-! ### Outlines -/

/-- An outline goes from the first edge back to its start, over all edges. -/
theorem exists_returns_of_outline? {edges : List (Nat × Nat)} {face : Face}
    (h : outline? edges = some face) :
    ∃ start second rest vertices, edges = (start, second) :: rest ∧ face = start :: vertices ∧
      Returns (fun v => edges.lookup v) start second vertices ∧
      vertices.length = rest.length ∧ 3 ≤ edges.length := by
  unfold outline? at h
  split at h
  · exact absurd h (by simp)
  · next start second rest =>
    split at h
    · split at h
      · next vertices hwalk =>
        split at h
        · next hlen =>
          exact ⟨start, second, rest, vertices, rfl, (Option.some.inj h).symm,
            (walk_eq_some_iff.mp hwalk).1, hlen⟩
        · exact absurd h (by simp)
      · exact absurd h (by simp)
    · exact absurd h (by simp)

/-- An outline has a corner for each edge that it was made of, and at least three. -/
theorem length_outline? {edges : List (Nat × Nat)} {face : Face} (h : outline? edges = some face) :
    face.length = edges.length ∧ 3 ≤ face.length := by
  obtain ⟨start, second, rest, vertices, rfl, rfl, -, hlen, hthree⟩ := exists_returns_of_outline? h
  -- The first edge gives the start, and every later one a vertex of the walk.
  rw [List.length_cons] at hthree ⊢
  rw [List.length_cons]
  omega

/-- No vertex is twice on an outline. -/
theorem nodup_outline? {edges : List (Nat × Nat)} {face : Face} (h : outline? edges = some face) :
    face.Nodup := by
  obtain ⟨start, second, rest, vertices, -, rfl, hreturns, -⟩ := exists_returns_of_outline? h
  exact hreturns.nodup

private theorem mem_of_lookup_eq_some {edges : List (Nat × Nat)} {a b : Nat}
    (h : edges.lookup a = some b) : (a, b) ∈ edges := by
  obtain ⟨s, t, rfl, -⟩ := List.lookup_eq_some_iff.mp h
  simp

/-- **Outlines run along the boundary.** Every edge of an outline is one of those that it
    was made of. -/
theorem edges_outline? {edges : List (Nat × Nat)} {face : Face} (h : outline? edges = some face) :
    ∀ e ∈ loopEdges face, e ∈ edges := by
  obtain ⟨start, second, rest, vertices, hedges, rfl, hreturns, -⟩ := exists_returns_of_outline? h
  obtain ⟨hhead, hchain⟩ := hreturns.isChain
  -- The edges of the outline are the first one and the steps of the walk, and every step
  -- looks up an edge.
  refine (forall_cyclicPairs_cons (fun a b => (a, b) ∈ edges) start vertices).mpr
    (List.isChain_cons.mpr ⟨?_, hchain.imp fun a b hab => mem_of_lookup_eq_some hab⟩)
  intro y hy
  rw [hhead] at hy
  obtain rfl := Option.some.inj hy
  rw [hedges]
  exact List.mem_cons_self

/-- **Outlines cover the boundary.** An outline runs along each of the edges that it was made of
    just once. -/
theorem perm_edges_outline? {edges : List (Nat × Nat)} {face : Face} (h : outline? edges = some face) :
    (loopEdges face).Perm edges := by
  -- No two edges of the outline start at the same vertex.
  have hstarts : (loopEdges face).map Prod.fst = face := by
    rw [loopEdges, cyclicPairs_eq_zip]
    exact List.map_fst_zip (by simp)
  have hnodup : (loopEdges face).Nodup :=
    List.Nodup.of_map Prod.fst (hstarts.symm ▸ nodup_outline? h)
  refine (List.subperm_of_subset hnodup (edges_outline? h)).perm_of_length_le ?_
  rw [length_cyclicPairs, (length_outline? h).1]

end CollisionMesh
