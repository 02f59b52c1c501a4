import CollisionMesh.Proofs.Neighbours

namespace CollisionMesh

/-!
# Straightening one loop down to its corners

Where the edges of a loop run along the sides of a polygon of at least four sides, the vertices inside
a side go one after the other, whatever their order, and the corners stay.

* `Sides` — steps along straight sides that meet in corners;
* `Cornered` — a loop along such sides with at least four corners; `Cornered.straightenAt` — one
  vertex is tried;
* `Cornered.straighten` — all vertices are tried.
-/

/-- Steps that run along straight sides: two steps over a vertex that is no corner are one step of
    the same side, and straight; over a corner the way bends. -/
structure Sides (straight : Nat → Nat → Nat → Bool) (step : Nat → Nat → Prop) (corner : Nat → Prop) :
    Prop where
  through : ∀ u v w, step u v → step v w → ¬ corner v →
    step u w ∧ straight u v w = true ∧ straight w v u = true
  bend : ∀ u v w, step u v → step v w → corner v →
    straight u v w = false ∧ straight w v u = false

/-- A loop of different vertices along the sides, with at least four corners. -/
structure Cornered (step : Nat → Nat → Prop) (corner : Nat → Prop) [DecidablePred corner]
    (loop : Face) : Prop where
  nodup : loop.Nodup
  edges : ∀ e ∈ loopEdges loop, step e.1 e.2
  four_le : 4 ≤ (loop.filter (corner ·)).length

namespace Cornered

variable {straight : Nat → Nat → Nat → Bool} {step : Nat → Nat → Prop} {corner : Nat → Prop}
  [DecidablePred corner] {loop : Face} {v : Nat}

/-- Leaving out `v` unless it is a corner changes nothing where it is one or is not there. -/
private theorem filter_corner_or_eq_self (h : v ∈ loop → corner v) :
    loop.filter (fun u => corner u ∨ u ≠ v) = loop := by
  refine List.filter_eq_self.mpr fun u hu => decide_eq_true ?_
  by_cases huv : u = v
  · subst huv
    exact .inl (h hu)
  · exact .inr huv

private theorem filter_corner_or_of_not (h : ¬ corner v) :
    loop.filter (fun u => corner u ∨ u ≠ v) = loop.filter (· != v) := by
  refine List.filter_congr fun u _ => ?_
  rw [Bool.eq_iff_iff, decide_eq_true_iff, bne_iff_ne]
  exact or_iff_right_of_imp fun hu huv => h (huv ▸ hu)

/-- Besides a vertex that is no corner there are at least four. -/
private theorem four_le_length_filter (h : Cornered step corner loop) (hv : ¬ corner v) :
    4 ≤ (loop.filter (· != v)).length := by
  refine Nat.le_trans h.four_le (List.Sublist.length_le ?_)
  refine List.monotone_filter_right loop fun u hu => ?_
  rw [bne_iff_ne]
  rintro rfl
  exact hv (of_decide_eq_true hu)

/-- A vertex that is no corner can be spared. -/
theorem canSpare (h : Cornered step corner loop) (hv : ¬ corner v) (hmem : v ∈ loop) :
    canSpare loop v = true := by
  have hfour : 4 ≤ loop.length :=
    Nat.le_trans (h.four_le_length_filter hv) (List.length_filter_le _ _)
  exact canSpare_of_nodup h.nodup hmem (Nat.lt_of_succ_le hfour)

/-- Its neighbours are the vertices before it and after it, which are no neighbours of each other. -/
theorem exists_neighbours (h : Cornered step corner loop) (hv : ¬ corner v) (hmem : v ∈ loop) :
    ∃ p q, (p, v) ∈ loopEdges loop ∧ (v, q) ∈ loopEdges loop ∧ p ≠ q ∧
      (∀ x, x ∈ neighbours [loop] v ↔ x = p ∨ x = q) ∧ q ∉ neighbours [loop] p := by
  have hspare := h.canSpare hv hmem
  obtain ⟨p, q, hto, hfrom, hp, hq, hpq⟩ := exists_passage_of_canSpare hspare
  obtain ⟨c, l, hturn⟩ := exists_turnsAt_of_canSpare hspare
  obtain rfl := hturn.mem_edges_from.mp hfrom
  have hlast := hturn.mem_edges_to.mp hto
  refine ⟨p, q, hto, hfrom, hpq, ?_, ?_⟩
  · intro x
    rw [mem_neighbours]
    simp only [List.mem_singleton, exists_eq_left, hturn.mem_edges_from, hturn.mem_edges_to, ← hlast]
    constructor
    · rintro ⟨-, hx⟩
      exact hx.symm
    · rintro (rfl | rfl)
      · exact ⟨hp, .inr rfl⟩
      · exact ⟨hq, .inl rfl⟩
  · -- Without the vertex the loop runs from `p` to `q`, so neither it nor the old one runs back.
    have hclosed := (mem_edges_erase_iff (e := (p, q)) hspare).mpr (.inr ⟨hto, hfrom⟩)
    rw [mem_neighbours]
    rintro ⟨-, face, hface, hedge⟩
    obtain rfl := List.mem_singleton.mp hface
    rcases hedge with hedge | hedge
    · exact hq (eq_of_mem_cyclicPairs h.nodup hedge hto)
    · refine not_mem_cyclicPairs_swap (h.nodup.filter _)
        (Nat.le_of_succ_le (h.four_le_length_filter hv)) hclosed ?_
      exact (mem_edges_erase_iff (e := (q, p)) hspare).mpr (.inl ⟨hedge, hq, hp⟩)

/-- Two neighbours are listed in index order, either way round. -/
private theorem neighbours_eq_pair {faces : List Face} {p q : Nat}
    (h : ∀ x, x ∈ neighbours faces v ↔ x = p ∨ x = q) (hpq : p ≠ q) :
    ∃ a b, (a = p ∧ b = q ∨ a = q ∧ b = p) ∧ neighbours faces v = [a, b] := by
  obtain ⟨a, b, hab, hlt⟩ : ∃ a b, (a = p ∧ b = q ∨ a = q ∧ b = p) ∧ a < b := by
    rcases Nat.lt_or_gt_of_ne hpq with hlt | hlt
    · exact ⟨p, q, .inl ⟨rfl, rfl⟩, hlt⟩
    · exact ⟨q, p, .inr ⟨rfl, rfl⟩, hlt⟩
  refine ⟨a, b, hab, ?_⟩
  refine List.Pairwise.eq_of_mem_iff (pairwise_neighbours faces v) (by simpa using hlt) ?_
  intro x
  rw [h, List.mem_cons, List.mem_singleton]
  rcases hab with ⟨rfl, rfl⟩ | ⟨rfl, rfl⟩
  · exact Iff.rfl
  · exact or_comm

/-- A vertex inside a side goes. -/
theorem removable (h : Cornered step corner loop) (hsides : Sides straight step corner)
    (hv : ¬ corner v) (hmem : v ∈ loop) : removable straight [loop] v = true := by
  obtain ⟨p, q, hto, hfrom, hpq, hneighbours, hapart⟩ := h.exists_neighbours hv hmem
  obtain ⟨-, hpvq, hqvp⟩ := hsides.through p v q (h.edges _ hto) (h.edges _ hfrom) hv
  obtain ⟨a, b, hab, hlisted⟩ := neighbours_eq_pair hneighbours hpq
  refine removable_iff.mpr ⟨a, b, hlisted, ?_, ?_, ?_⟩
  · rcases hab with ⟨rfl, rfl⟩ | ⟨rfl, rfl⟩
    · exact hapart
    · rwa [mem_neighbours_comm]
  · rcases hab with ⟨rfl, rfl⟩ | ⟨rfl, rfl⟩
    · exact hpvq
    · exact hqvp
  · intro face hface _
    obtain rfl := List.mem_singleton.mp hface
    exact h.canSpare hv hmem

/-- A corner stays: the way bends there. -/
theorem not_removable (h : Cornered step corner loop) (hsides : Sides straight step corner)
    (hv : corner v) (hmem : v ∈ loop) : CollisionMesh.removable straight [loop] v = false := by
  rw [Bool.eq_false_iff, ne_eq, removable_iff]
  rintro ⟨a, b, hab⟩
  have hface : loop ∈ [loop] := List.mem_singleton_self loop
  obtain ⟨p, q, hto, hfrom, -⟩ := exists_passage_of_canSpare (hab.spare loop hface hmem)
  obtain ⟨hpvq, hqvp⟩ := hsides.bend p v q (h.edges _ hto) (h.edges _ hfrom) hv
  have hstraight := hab.straight_eq
  rcases hab.eq_or_eq_of_edges hface hto hfrom with ⟨rfl, rfl⟩ | ⟨rfl, rfl⟩
  · exact absurd hstraight (by rw [hpvq]; exact Bool.false_ne_true)
  · exact absurd hstraight (by rw [hqvp]; exact Bool.false_ne_true)

/-- **One vertex.** It goes unless it is a corner. -/
theorem straightenAt (h : Cornered step corner loop) (hsides : Sides straight step corner) (v : Nat) :
    straightenAt straight [loop] v = [loop.filter fun u => corner u ∨ u ≠ v] := by
  rw [CollisionMesh.straightenAt]
  by_cases hmem : v ∈ loop
  · by_cases hv : corner v
    · rw [h.not_removable hsides hv hmem, filter_corner_or_eq_self fun _ => hv]
      rfl
    · rw [if_pos (h.removable hsides hv hmem), filter_corner_or_of_not hv]
      rfl
  · rw [filter_corner_or_eq_self fun hv => absurd hv hmem, List.map_singleton,
      filter_ne_of_not_mem hmem, ite_self]

/-- What is left still runs along the sides. -/
theorem filter (h : Cornered step corner loop) (hsides : Sides straight step corner) (v : Nat) :
    Cornered step corner (loop.filter fun u => corner u ∨ u ≠ v) := by
  refine ⟨h.nodup.filter _, ?_, ?_⟩
  · by_cases hstays : v ∈ loop → corner v
    · rw [filter_corner_or_eq_self hstays]
      exact h.edges
    · obtain ⟨hmem, hv⟩ := Classical.not_imp.mp hstays
      rw [filter_corner_or_of_not hv]
      rintro e he
      rcases (mem_edges_erase_iff (h.canSpare hv hmem)).mp he with ⟨he, -⟩ | ⟨hto, hfrom⟩
      · exact h.edges e he
      · exact (hsides.through _ v _ (h.edges _ hto) (h.edges _ hfrom) hv).1
  · rw [List.filter_filter]
    refine Nat.le_trans h.four_le (List.Sublist.length_le ?_)
    refine List.monotone_filter_right loop fun u hu => ?_
    rw [hu, Bool.true_and]
    exact decide_eq_true (.inl (of_decide_eq_true hu))

/-- **All vertices.** Of a loop along the sides the corners are left and the vertices that were not
    tried. -/
theorem straighten (h : Cornered step corner loop) (hsides : Sides straight step corner) (n : Nat) :
    straighten straight n [loop] = [loop.filter fun v => corner v ∨ n ≤ v] ∧
      Cornered step corner (loop.filter fun v => corner v ∨ n ≤ v) := by
  induction n with
  | zero =>
    have hall : loop.filter (fun v => corner v ∨ 0 ≤ v) = loop :=
      List.filter_eq_self.mpr fun v _ => decide_eq_true (.inr (Nat.zero_le v))
    rw [hall]
    exact ⟨rfl, h⟩
  | succ n ih =>
    obtain ⟨heq, hleft⟩ := ih
    have hfilter : (loop.filter fun v => corner v ∨ n ≤ v).filter (fun v => corner v ∨ v ≠ n) =
        loop.filter fun v => corner v ∨ n + 1 ≤ v := by
      rw [List.filter_filter]
      refine List.filter_congr fun v _ => ?_
      rw [Bool.eq_iff_iff, Bool.and_eq_true, decide_eq_true_iff, decide_eq_true_iff,
        decide_eq_true_iff]
      by_cases hv : corner v
      · simp [hv]
      · simp only [hv, false_or]
        omega
    rw [straighten_succ, heq, hleft.straightenAt hsides n, hfilter, ← hfilter]
    exact ⟨rfl, hleft.filter hsides n⟩

end Cornered

end CollisionMesh
