import CollisionMesh.Proofs.SurfaceBoundary
import Mathlib.Data.Set.List

namespace CollisionMesh

/-!
# Edges that form a circuit

A region has an outline just where the edges of its boundary form one closed walk that visits no
vertex twice. The walk along them is bounded by their number, and the bound cuts nothing off: a
walk that comes back at all has visited different vertices, each with an edge of its own.

* `Returns.of_isChain` — how a walk comes back; `walk_lookup_eq_some_iff` — along edges the bound on
  its steps does not matter;
* `IsCircuit` — the edges of a closed walk through different vertices; `IsCircuit.of_names`,
  `IsCircuit.exists_names` — where the vertices have names;
* `outline?_eq_some_iff`, `exists_outline?_iff` — outlines are circuits, and every circuit is found;
* `outline?_boundary_iff` — the outline of any region of any faces.
-/

/-! ### Walks that come back -/

section Walks

variable {next : Nat → Option Nat} {start current : Nat} {way : List Nat}

/-- From every vertex of a way back there is a next one. -/
theorem Returns.isSome_next (h : Returns next start current way) {v : Nat} (hv : v ∈ way) :
    (next v).isSome := by
  induction h with
  | home => exact absurd hv List.not_mem_nil
  | step _ hnext _ ih =>
    rcases List.mem_cons.mp hv with rfl | hv
    · rw [hnext, Option.isSome_some]
    · exact ih hv

/-- A chain of next vertices that ends at the start is a way back. -/
theorem Returns.of_isChain (hchain : (way ++ [start]).IsChain fun a b => next a = some b)
    (hhead : (way ++ [start]).head? = some current) (hstart : start ∉ way) :
    Returns next start current way := by
  induction way generalizing current with
  | nil =>
    obtain rfl : start = current := Option.some.inj hhead
    exact .home
  | cons v rest ih =>
    obtain rfl : v = current := Option.some.inj hhead
    rw [List.mem_cons, not_or] at hstart
    obtain ⟨hnext, hrest⟩ := List.isChain_cons.mp hchain
    -- The chain goes on with a first vertex, which is the next one.
    obtain ⟨w, hw⟩ : ∃ w, (rest ++ [start]).head? = some w := by
      cases rest with
      | nil => exact ⟨start, rfl⟩
      | cons w later => exact ⟨w, rfl⟩
    exact .step (Ne.symm hstart.1) (hnext w hw) (ih hrest hw hstart.2)

end Walks

private theorem mem_map_fst_of_lookup {edges : List (Nat × Nat)} {a : Nat}
    (h : (edges.lookup a).isSome) : a ∈ edges.map Prod.fst := by
  obtain ⟨b, hb⟩ := Option.isSome_iff_exists.mp h
  obtain ⟨s, t, rfl, -⟩ := List.lookup_eq_some_iff.mp hb
  simp

/-- **The bound does not matter.** Along some edges, the first of which leaves the start, the walk
    in as many steps as there are other edges finds every way back, however long. -/
theorem walk_lookup_eq_some_iff {start second : Nat} {rest : List (Nat × Nat)} {current : Nat}
    {way : List Nat} :
    walk (fun v => ((start, second) :: rest).lookup v) start rest.length current = some way ↔
      Returns (fun v => ((start, second) :: rest).lookup v) start current way := by
  rw [walk_eq_some_iff]
  refine and_iff_left_of_imp fun h => ?_
  -- The start and the vertices on the way are different, and an edge leaves each of them.
  have hsub : start :: way ⊆ ((start, second) :: rest).map Prod.fst := by
    intro v hv
    rcases List.mem_cons.mp hv with rfl | hv
    · exact List.mem_cons_self
    · exact mem_map_fst_of_lookup (h.isSome_next hv)
  have hle := (List.subperm_of_subset h.nodup hsub).length_le
  rw [List.length_map] at hle
  exact Nat.le_of_succ_le_succ hle

/-! ### Circuits -/

/-- A closed walk through different vertices that uses each of some directed edges once, of which
    there are at least three. -/
structure IsCircuit (edges : List (Nat × Nat)) (loop : Face) : Prop where
  nodup : loop.Nodup
  three_le : 3 ≤ edges.length
  perm : (loopEdges loop).Perm edges

namespace IsCircuit

variable {edges : List (Nat × Nat)} {loop : Face}

/-- A circuit has a corner for each edge. -/
theorem length_eq (h : IsCircuit edges loop) : loop.length = edges.length := by
  rw [← h.perm.length_eq, length_cyclicPairs]

/-- A circuit may be turned. -/
theorem rotate (h : IsCircuit edges loop) (k : Nat) : IsCircuit edges (loop.rotate k) := by
  refine ⟨List.nodup_rotate.mpr h.nodup, h.three_le, ?_⟩
  exact (perm_cyclicPairs ⟨k, rfl⟩).symm.trans h.perm

/-- The edges of a circuit leave its vertices, each once. -/
theorem map_fst_perm (h : IsCircuit edges loop) : (edges.map Prod.fst).Perm loop := by
  have hperm := h.perm.map Prod.fst
  rw [map_fst_cyclicPairs] at hperm
  exact hperm.symm

theorem nodup_map_fst (h : IsCircuit edges loop) : (edges.map Prod.fst).Nodup :=
  h.map_fst_perm.nodup_iff.mpr h.nodup

/-! Circuits through vertices that have names. -/

section Names

variable {β : Type} {num : β → Nat} {named : List (β × β)}

/-- A closed walk along named edges is a circuit of them. -/
theorem of_names (hnum : Function.Injective num) {names : List β} (hnodup : names.Nodup)
    (hthree : 3 ≤ names.length) (hperm : (cyclicPairs names).Perm named) :
    IsCircuit (named.map (Prod.map num num)) (names.map num) := by
  refine ⟨hnodup.map hnum, ?_, ?_⟩
  · rw [List.length_map, ← hperm.length_eq, length_cyclicPairs]
    exact hthree
  · rw [loopEdges, cyclicPairs_map]
    exact hperm.map _

/-- A circuit of named edges goes through named vertices. -/
theorem exists_names (h : IsCircuit (named.map (Prod.map num num)) loop)
    (hnum : Function.Injective num) :
    ∃ names : List β, names.map num = loop ∧ names.Nodup ∧ (cyclicPairs names).Perm named := by
  obtain ⟨names, rfl⟩ : ∃ names : List β, names.map num = loop := by
    have hrange : loop ∈ Set.range (List.map num) := by
      rw [Set.range_list_map]
      intro v hv
      obtain ⟨e, he, rfl⟩ := List.mem_map.mp (h.map_fst_perm.symm.subset hv)
      obtain ⟨⟨p, q⟩, -, rfl⟩ := List.mem_map.mp he
      exact ⟨p, rfl⟩
    exact hrange
  refine ⟨names, rfl, List.Nodup.of_map num h.nodup, ?_⟩
  have hperm := h.perm
  rw [loopEdges, cyclicPairs_map] at hperm
  exact (List.map_perm_map_iff (hnum.prodMap hnum)).mp hperm

end Names

end IsCircuit

private theorem lookup_eq_some_of_mem {edges : List (Nat × Nat)} (h : (edges.map Prod.fst).Nodup)
    {a b : Nat} (hab : (a, b) ∈ edges) : edges.lookup a = some b := by
  obtain ⟨s, t, rfl⟩ := List.append_of_mem hab
  refine List.lookup_eq_some_iff.mpr ⟨s, t, rfl, ?_⟩
  rintro p hp
  rw [List.map_append, List.nodup_append] at h
  rw [bne_iff_ne]
  exact Ne.symm (h.2.2 p.1 (List.mem_map_of_mem hp) a (by simp))

/-- **Outlines are circuits.** What is found from the first edge on is the circuit of the edges from
    there. -/
theorem outline?_eq_some_iff {edges : List (Nat × Nat)} {loop : Face} :
    outline? edges = some loop ↔
      IsCircuit edges loop ∧ loop.head? = edges.head?.map Prod.fst := by
  constructor
  · intro h
    obtain ⟨hlen, hthree⟩ := length_outline? h
    refine ⟨⟨nodup_outline? h, hlen ▸ hthree, perm_edges_outline? h⟩, ?_⟩
    obtain ⟨start, second, rest, vertices, rfl, rfl, -⟩ := exists_returns_of_outline? h
    rfl
  · rintro ⟨h, hhead⟩
    obtain ⟨⟨start, second⟩, rest, rfl⟩ :=
      List.exists_cons_of_length_pos (Nat.lt_of_lt_of_le (by decide) h.three_le)
    obtain ⟨way, rfl⟩ : ∃ way, loop = start :: way := by
      cases loop with
      | nil => exact absurd hhead (by simp)
      | cons v way =>
        obtain rfl : v = start := Option.some.inj hhead
        exact ⟨way, rfl⟩
    have hlen : way.length = rest.length := Nat.succ.inj h.length_eq
    -- Along the circuit every edge is the one that looking up finds.
    have hlookup : ∀ e ∈ loopEdges (start :: way),
        ((start, second) :: rest).lookup e.1 = some e.2 :=
      fun e he => lookup_eq_some_of_mem h.nodup_map_fst (h.perm.subset he)
    obtain ⟨hfirst, hchain⟩ := List.isChain_cons.mp ((forall_cyclicPairs_cons
      (fun a b => ((start, second) :: rest).lookup a = some b) start way).mp hlookup)
    have hsecond : (way ++ [start]).head? = some second := by
      cases way with
      | nil => exact (hfirst start rfl).symm.trans (by simp)
      | cons v later => exact (hfirst v rfl).symm.trans (by simp)
    have hwalk := walk_lookup_eq_some_iff.mpr
      (Returns.of_isChain hchain hsecond (List.nodup_cons.mp h.nodup).1)
    have hstarts : (((start, second) :: rest).map (·.1)).Nodup := h.nodup_map_fst
    simp only [outline?]
    rw [if_pos hstarts, hwalk]
    exact if_pos ⟨hlen, h.three_le⟩

/-- **Every circuit is found.** There is an outline just where the edges form a circuit. -/
theorem exists_outline?_iff {edges : List (Nat × Nat)} :
    (∃ loop, outline? edges = some loop) ↔ ∃ loop, IsCircuit edges loop := by
  constructor
  · rintro ⟨loop, h⟩
    exact ⟨loop, (outline?_eq_some_iff.mp h).1⟩
  · rintro ⟨loop, h⟩
    -- The circuit is turned so that the first edge leaves its first vertex.
    obtain ⟨⟨start, second⟩, rest, rfl⟩ :=
      List.exists_cons_of_length_pos (Nat.lt_of_lt_of_le (by decide) h.three_le)
    obtain ⟨s, t, rfl⟩ := List.append_of_mem (h.map_fst_perm.subset List.mem_cons_self)
    refine ⟨_, outline?_eq_some_iff.mpr ⟨h.rotate s.length, ?_⟩⟩
    rw [List.rotate_append_length_eq]
    rfl

/-! ### Regions -/

/-- An edge inside a region: the face across it belongs to the region. -/
def Inside (faces : List Face) (region : List Nat) (e : Nat × Nat) : Prop :=
  ∃ g ∈ region, twin? (users (edgeUses faces)) e = some g

theorem isInside_iff {faces : List Face} {region : List Nat} {e : Nat × Nat} :
    isInside faces region e = true ↔ Inside faces region e := by
  rw [isInside, Option.any_eq_true, Inside]
  exact exists_congr fun g => by rw [List.contains_iff_mem, and_comm]

instance (faces : List Face) (region : List Nat) : DecidablePred (Inside faces region) :=
  fun _ => decidable_of_iff _ isInside_iff

/-- The edges of the faces of a region that are not inside, once for each use. -/
def rim (faces : List Face) (region : List Nat) : List (Nat × Nat) :=
  (regionEdges faces region).filter fun e => ¬ Inside faces region e

theorem boundary_eq_rim (faces : List Face) (region : List Nat) :
    boundary faces.toArray (users (edgeUses faces)) region = rim faces region := by
  rw [boundary_eq_filter, rim]
  refine List.filter_congr fun e _ => ?_
  rw [Bool.eq_iff_iff, decide_eq_true_iff, ← isInside_iff, Bool.not_eq_true', Bool.not_eq_true]

/-- **The outline of a region.** Whatever the faces are like, a region of them has an outline iff its
    edges that are not inside form one circuit, and then the outline is that circuit from the first
    of these edges on. The walk along them ends within its bound, which cuts off no way back to the
    start: not having come back by then it never would, be it for a dead end or for a circle
    elsewhere. -/
theorem outline?_boundary_iff (faces : List Face) (region : List Nat) :
    ((outline? (boundary faces.toArray (users (edgeUses faces)) region)).isSome ↔
      ∃ loop, IsCircuit (rim faces region) loop) ∧
    (∀ loop, outline? (boundary faces.toArray (users (edgeUses faces)) region) = some loop ↔
      IsCircuit (rim faces region) loop ∧
        loop.head? = (rim faces region).head?.map Prod.fst) ∧
    ∀ start second rest, rim faces region = (start, second) :: rest → ∀ way,
      walk (fun v => (rim faces region).lookup v) start rest.length second = some way ↔
        Returns (fun v => (rim faces region).lookup v) start second way := by
  rw [boundary_eq_rim, Option.isSome_iff_exists]
  refine ⟨exists_outline?_iff, fun loop => outline?_eq_some_iff, ?_⟩
  intro start second rest hrim way
  rw [hrim]
  exact walk_lookup_eq_some_iff

/-- Four faces around a hole have no outline: the walk around the outside comes back before it has used
    the edges of the hole. -/
example : outline? (boundary (List.toArray [[0, 1, 5, 4], [1, 2, 6, 5], [2, 3, 7, 6], [3, 0, 4, 7]])
    (users (edgeUses [[0, 1, 5, 4], [1, 2, 6, 5], [2, 3, 7, 6], [3, 0, 4, 7]])) [0, 1, 2, 3]) = none := by
  decide

end CollisionMesh
