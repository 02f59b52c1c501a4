import CollisionMesh.Proofs.Cycle
import CollisionMesh.Proofs.FirstUse
import CollisionMesh.Proofs.Merge
import Mathlib.Data.List.Forall2

namespace CollisionMesh

/-!
# What removing straight corners does

Faces lose corners, at most down to three, and no face is lost. The only new edges join
the two neighbours of a corner that was removed because it lay straight between them. All this is
said of the faces alone, with the neighbours of a vertex looked up in them when it is tried.

* `neighbours`, `removable`, `straighten` — the straightening by the faces alone;
* `mem_neighbours` — neighbours share an edge;
* `Removable`, `removable_iff` — what it takes to remove a vertex;
  `Removable.eq_or_eq_of_edges` — faces lead over it from one neighbour to the other;
* `sublist_straighten` — every face keeps some of its corners in their order;
* `gone`, `straighten_eq_map` — which vertices go; they leave all faces;
* `three_le_length_straighten` — at least three of them;
* `edges_straighten` — what holds of all edges, and of the neighbours on both sides of a
  straight corner, holds of all edges afterwards.
-/

/-! ### Straightening by the faces alone -/

/-- The vertices that share an edge with `v`, in index order. -/
def neighbours (faces : List Face) (v : Nat) : List Nat :=
  ((faces.flatMap loopEdges).filterMap fun (a, b) =>
    if a = b then none else if a = v then some b else if b = v then some a else none)
    |>.eraseDups.mergeSort

/-- Whether `v` may go: it has two neighbours that are not neighbours of each other,
    it lies straight between them, and every face that uses it can spare it. -/
def removable (straight : Nat → Nat → Nat → Bool) (faces : List Face) (v : Nat) : Bool :=
  match neighbours faces v with
  | [a, b] =>
    !(neighbours faces a).contains b && straight a v b &&
      faces.all fun face => !face.contains v || canSpare face v
  | _ => false

/-- The faces without `v` if it may go, else as they are. -/
def straightenAt (straight : Nat → Nat → Nat → Bool) (faces : List Face) (v : Nat) : List Face :=
  if removable straight faces v then faces.map fun face => face.filter (· != v) else faces

/-- The faces after the vertices below `n` were tried in index order. -/
def straighten (straight : Nat → Nat → Nat → Bool) (n : Nat) (faces : List Face) : List Face :=
  (List.range n).foldl (straightenAt straight) faces

/-! ### Faces with fewer corners -/

/-- Faces that each lost some corners, compared with those before that lost some too. -/
theorem forall₂_sublist_trans {faces₁ faces₂ faces₃ : List Face}
    (h₁ : List.Forall₂ List.Sublist faces₁ faces₂) (h₂ : List.Forall₂ List.Sublist faces₂ faces₃) :
    List.Forall₂ List.Sublist faces₁ faces₃ := by
  induction h₁ generalizing faces₃ with
  | nil => exact h₂
  | cons hsub _ ih =>
    cases h₂ with
    | cons hsub' hrest => exact .cons (hsub.trans hsub') (ih hrest)

/-- The corners of faces that each lost some are corners of the faces before. -/
theorem exists_superset_of_forall₂ {faces old : List Face}
    (h : List.Forall₂ List.Sublist faces old) {face : Face} (hface : face ∈ faces) :
    ∃ face' ∈ old, face ⊆ face' := by
  induction h with
  | nil => exact absurd hface List.not_mem_nil
  | cons hsub _ ih =>
    rcases List.mem_cons.mp hface with rfl | hface
    · exact ⟨_, List.mem_cons_self, hsub.subset⟩
    · obtain ⟨face', hmem, hsub⟩ := ih hface
      exact ⟨face', List.mem_cons_of_mem _ hmem, hsub⟩

/-- Faces that each lost some corners are cut into no more triangles. -/
theorem triangleCount_le_of_forall₂ {faces old : List Face}
    (h : List.Forall₂ List.Sublist faces old) : triangleCount faces ≤ triangleCount old := by
  induction h with
  | nil => exact Nat.le_refl _
  | cons hsub _ ih =>
    have := hsub.length_le
    rw [triangleCount_cons, triangleCount_cons]
    omega

/-! ### One vertex -/

/-- The neighbours of a vertex are the other ends of its edges. -/
theorem mem_neighbours {faces : List Face} {v b : Nat} :
    b ∈ neighbours faces v ↔
      b ≠ v ∧ ∃ face ∈ faces, (v, b) ∈ loopEdges face ∨ (b, v) ∈ loopEdges face := by
  rw [neighbours, List.mem_mergeSort, List.mem_eraseDups, List.mem_filterMap]
  constructor
  · rintro ⟨⟨x, y⟩, he, hb⟩
    obtain ⟨face, hface, he⟩ := List.mem_flatMap.mp he
    dsimp only at hb
    split at hb
    · exact absurd hb (by simp)
    · next hxy =>
      split at hb
      · next hx =>
        obtain rfl := Option.some.inj hb
        exact ⟨fun h => hxy (hx.trans h.symm), face, hface, .inl (hx ▸ he)⟩
      · split at hb
        · next hy =>
          obtain rfl := Option.some.inj hb
          exact ⟨fun h => hxy (h.trans hy.symm), face, hface, .inr (hy ▸ he)⟩
        · exact absurd hb (by simp)
  · rintro ⟨hne, face, hface, he | he⟩
    · refine ⟨(v, b), List.mem_flatMap.mpr ⟨face, hface, he⟩, ?_⟩
      dsimp only
      rw [if_neg hne.symm, if_pos rfl]
    · refine ⟨(b, v), List.mem_flatMap.mpr ⟨face, hface, he⟩, ?_⟩
      dsimp only
      rw [if_neg hne, if_neg hne, if_pos rfl]

/-- No vertex is listed twice as a neighbour. -/
theorem pairwise_neighbours (faces : List Face) (v : Nat) :
    (neighbours faces v).Pairwise (· < ·) := by
  have hsorted : (neighbours faces v).Pairwise (· ≤ ·) := List.pairwise_mergeSort' (· ≤ ·) _
  have hnodup : (neighbours faces v).Nodup :=
    (List.mergeSort_perm _ _).nodup_iff.mpr (nodup_eraseDups _)
  exact hsorted.and hnodup |>.imp fun h => Nat.lt_of_le_of_ne h.1 h.2

/-- Neighbours are neighbours of each other. -/
theorem mem_neighbours_comm {faces : List Face} {v b : Nat} :
    b ∈ neighbours faces v ↔ v ∈ neighbours faces b := by
  rw [mem_neighbours, mem_neighbours]
  constructor
  · rintro ⟨hne, face, hface, he⟩
    exact ⟨hne.symm, face, hface, he.symm⟩
  · rintro ⟨hne, face, hface, he⟩
    exact ⟨hne.symm, face, hface, he.symm⟩

/-- What it takes to remove a vertex between two others: they are its neighbours and not those of
    each other, it lies straight between them, and its faces can spare it. -/
structure Removable (straight : Nat → Nat → Nat → Bool) (faces : List Face) (v a b : Nat) : Prop where
  neighbours_eq : neighbours faces v = [a, b]
  apart : b ∉ neighbours faces a
  straight_eq : straight a v b = true
  spare : ∀ face ∈ faces, v ∈ face → canSpare face v = true

theorem removable_iff {straight : Nat → Nat → Nat → Bool} {faces : List Face} {v : Nat} :
    removable straight faces v = true ↔ ∃ a b, Removable straight faces v a b := by
  unfold removable
  constructor
  · intro h
    split at h
    · next a b hab =>
      simp only [Bool.and_eq_true, Bool.not_eq_true', List.contains_eq_mem, decide_eq_false_iff_not,
        List.all_eq_true, Bool.or_eq_true] at h
      obtain ⟨⟨hapart, hstraight⟩, hspare⟩ := h
      exact ⟨a, b, hab, hapart, hstraight, fun face hface hv =>
        (hspare face hface).resolve_left fun hnot => hnot hv⟩
    · exact absurd h (by simp)
  · rintro ⟨a, b, h⟩
    rw [h.neighbours_eq]
    simp only [Bool.and_eq_true, Bool.not_eq_true', List.contains_eq_mem, decide_eq_false_iff_not,
      List.all_eq_true, Bool.or_eq_true]
    refine ⟨⟨h.apart, h.straight_eq⟩, ?_⟩
    intro face hface
    exact (Classical.em (v ∈ face)).symm.imp_right (h.spare face hface)

namespace Removable

variable {straight : Nat → Nat → Nat → Bool} {faces : List Face} {v a b x : Nat}

theorem mem_neighbours_iff (h : Removable straight faces v a b) :
    x ∈ neighbours faces v ↔ x = a ∨ x = b := by
  rw [h.neighbours_eq]
  simp

/-- The two neighbours differ from each other and from the vertex. -/
theorem ne (h : Removable straight faces v a b) : a ≠ v ∧ b ≠ v ∧ a ≠ b := by
  have hlt : [a, b].Pairwise (· < ·) := h.neighbours_eq ▸ pairwise_neighbours faces v
  refine ⟨(mem_neighbours.mp (h.mem_neighbours_iff.mpr (.inl rfl))).1,
    (mem_neighbours.mp (h.mem_neighbours_iff.mpr (.inr rfl))).1, ?_⟩
  exact Nat.ne_of_lt (List.rel_of_pairwise_cons hlt List.mem_cons_self)

/-- A face that leads over the vertex leads from one of its neighbours to the other. -/
theorem eq_or_eq_of_edges (h : Removable straight faces v a b) {face : Face} (hface : face ∈ faces)
    {p q : Nat} (hto : (p, v) ∈ loopEdges face) (hfrom : (v, q) ∈ loopEdges face) :
    p = a ∧ q = b ∨ p = b ∧ q = a := by
  obtain ⟨c, l, hturn⟩ :=
    exists_turnsAt_of_canSpare (h.spare face hface (mem_of_mem_cyclicPairs hto).2)
  have hpv : p ≠ v := hturn.mem_edges_to.mp hto ▸ hturn.ne_last
  have hqv : q ≠ v := hturn.mem_edges_from.mp hfrom ▸ hturn.ne_first
  have hpq : p ≠ q := by
    rw [hturn.mem_edges_to.mp hto, hturn.mem_edges_from.mp hfrom]
    exact hturn.last_ne
  have hp := h.mem_neighbours_iff.mp (mem_neighbours.mpr ⟨hpv, face, hface, .inr hto⟩)
  have hq := h.mem_neighbours_iff.mp (mem_neighbours.mpr ⟨hqv, face, hface, .inl hfrom⟩)
  rcases hp with rfl | rfl <;> rcases hq with rfl | rfl
  · exact absurd rfl hpq
  · exact .inl ⟨rfl, rfl⟩
  · exact .inr ⟨rfl, rfl⟩
  · exact absurd rfl hpq

end Removable

section Step

variable {straight : Nat → Nat → Nat → Bool} {faces : List Face} {v : Nat}

/-- A face after one vertex was tried is an old face, or an old face without the vertex, which
    could go. -/
theorem mem_straightenAt {face : Face} (h : face ∈ straightenAt straight faces v) :
    face ∈ faces ∨ ∃ a b, Removable straight faces v a b ∧
      ∃ old ∈ faces, v ∈ old ∧ face = old.filter (· != v) := by
  unfold straightenAt at h
  split at h
  · next hgoes =>
    obtain ⟨a, b, hab⟩ := removable_iff.mp hgoes
    obtain ⟨old, hold, rfl⟩ := List.mem_map.mp h
    by_cases hv : v ∈ old
    · exact .inr ⟨a, b, hab, old, hold, hv, rfl⟩
    -- A face without the vertex does not change, whether it could spare it or not.
    · rw [filter_ne_of_not_mem hv]
      exact .inl hold
  · exact .inl h

theorem sublist_straightenAt :
    List.Forall₂ List.Sublist (straightenAt straight faces v) faces := by
  have hrefl : List.Forall₂ List.Sublist faces faces :=
    List.forall₂_same.mpr fun face _ => List.Sublist.refl face
  unfold straightenAt
  split
  · rw [List.forall₂_map_left_iff]
    exact List.forall₂_same.mpr fun face _ => List.filter_sublist
  · exact hrefl

theorem three_le_length_straightenAt (h : ∀ face ∈ faces, 3 ≤ face.length) :
    ∀ face ∈ straightenAt straight faces v, 3 ≤ face.length := by
  intro face hface
  rcases mem_straightenAt hface with hface | ⟨a, b, hab, old, hold, hv, rfl⟩
  · exact h face hface
  · obtain ⟨s, t, rfl, hs, ht, hlen, -⟩ := exists_split_of_canSpare (hab.spare old hold hv)
    rw [filter_ne_append_cons hs ht]
    simp only [List.length_append] at hlen ⊢
    omega

/-- A new edge joins the two neighbours of the vertex that went, in one or the other
    direction. -/
theorem edges_straightenAt {r : Nat → Nat → Prop}
    (hstraight : ∀ a v b, straight a v b = true → r a b ∧ r b a)
    (h : ∀ face ∈ faces, ∀ e ∈ loopEdges face, r e.1 e.2) :
    ∀ face ∈ straightenAt straight faces v, ∀ e ∈ loopEdges face, r e.1 e.2 := by
  intro face hface e he
  rcases mem_straightenAt hface with hface | ⟨a, b, hab, old, hold, -, rfl⟩
  · exact h face hface e he
  · obtain ⟨-, -, hmem | ⟨hto, hfrom⟩⟩ := (mem_edges_filter_iff (hab.spare old hold)).mp he
    · exact h old hold e hmem
    · obtain ⟨hr, hr'⟩ := hstraight a v b hab.straight_eq
      rcases hab.eq_or_eq_of_edges hold hto hfrom with ⟨h₁, h₂⟩ | ⟨h₁, h₂⟩
      · rwa [h₁, h₂]
      · rwa [h₁, h₂]

end Step

/-! ### All vertices in turn -/

section Run

variable {straight : Nat → Nat → Nat → Bool} {faces : List Face} {n : Nat}

/-- **Faces stay.** Every face keeps some of its corners, in their order. -/
theorem sublist_straighten : List.Forall₂ List.Sublist (straighten straight n faces) faces := by
  unfold straighten
  refine List.foldlRecOn (motive := fun current => List.Forall₂ List.Sublist current faces) _ _
    (List.forall₂_same.mpr fun face _ => List.Sublist.refl face) ?_
  intro current hcurrent v _
  exact forall₂_sublist_trans sublist_straightenAt hcurrent

/-- One vertex more is tried. -/
theorem straighten_succ (straight : Nat → Nat → Nat → Bool) (n : Nat) (faces : List Face) :
    straighten straight (n + 1) faces = straightenAt straight (straighten straight n faces) n := by
  rw [straighten, List.range_succ, List.foldl_concat]
  rfl

/-- The vertices below `n` that may go when they are tried. -/
def gone (straight : Nat → Nat → Nat → Bool) (n : Nat) (faces : List Face) : List Nat :=
  (List.range n).filter fun v => removable straight (straighten straight v faces) v

theorem gone_succ (straight : Nat → Nat → Nat → Bool) (n : Nat) (faces : List Face) :
    gone straight (n + 1) faces = gone straight n faces ++
      if removable straight (straighten straight n faces) n then [n] else [] := by
  rw [gone, List.range_succ, List.filter_append, List.filter_singleton, Bool.cond_eq_ite]
  rfl

/-- **Vertices go everywhere.** A vertex that may go leaves all faces; nothing else changes. -/
theorem straighten_eq_map (straight : Nat → Nat → Nat → Bool) (n : Nat) (faces : List Face) :
    straighten straight n faces
      = faces.map fun face => face.filter (· ∉ gone straight n faces) := by
  induction n with
  | zero => simp [straighten, gone]
  | succ n ih =>
    rw [straighten_succ, straightenAt, gone_succ]
    by_cases hgoes : removable straight (straighten straight n faces) n = true
    · rw [if_pos hgoes, if_pos hgoes, ih, List.map_map]
      apply List.map_congr_left
      intro face _
      rw [Function.comp_apply, List.filter_filter]
      apply List.filter_congr
      intro i _
      rw [Bool.eq_iff_iff]
      simp [and_comm]
    · rw [if_neg hgoes, if_neg hgoes, List.append_nil, ← ih]

/-- Every face keeps at least three corners. -/
theorem three_le_length_straighten (h : ∀ face ∈ faces, 3 ≤ face.length) :
    ∀ face ∈ straighten straight n faces, 3 ≤ face.length := by
  unfold straighten
  refine List.foldlRecOn (motive := fun current => ∀ face ∈ current, 3 ≤ List.length face) _ _ h ?_
  intro current hcurrent v _
  exact three_le_length_straightenAt hcurrent

/-- **Edges after straightening.** What holds of all edges, and of the neighbours on both
    sides of any straight corner, holds of all edges afterwards. -/
theorem edges_straighten {r : Nat → Nat → Prop}
    (hstraight : ∀ a v b, straight a v b = true → r a b ∧ r b a)
    (h : ∀ face ∈ faces, ∀ e ∈ loopEdges face, r e.1 e.2) :
    ∀ face ∈ straighten straight n faces, ∀ e ∈ loopEdges face, r e.1 e.2 := by
  unfold straighten
  refine List.foldlRecOn (motive := fun current => ∀ face ∈ current, ∀ e ∈ loopEdges face,
    r e.1 e.2) _ _ h ?_
  intro current hcurrent v _
  exact edges_straightenAt hstraight hcurrent

end Run

end CollisionMesh
