import CollisionMesh.Mesh.Straighten
import CollisionMesh.Mesh.Weld
import Mathlib.Data.List.Chain
import Mathlib.Data.List.Rotate

namespace CollisionMesh

/-!
# Closed loops and their edges

A loop is read as a list and its edges are the pairs of neighbours, once round.
Where a loop starts does not matter, and a property of all its edges is a chain
along the list that comes back to its start.

* `cyclicPairs_eq_zip`, `cyclicPairs_rotate`, `cyclicPairs_map` — edges under
  turning and under a change of the corners;
* `mem_cyclicPairs_iff`, `mem_cyclicPairs_map_range` — edges by the places of their ends;
* `not_mem_cyclicPairs_swap` — a loop of different corners runs back along no edge;
* `forall_cyclicPairs_cons` — a property of all edges as a chain;
* `edges_cleanLoop`, `cleanLoop_eq_self` — cleaning makes neighbours differ and
  leaves a loop alone where they do;
* `canSpare_append_cons_iff`, `canSpare_of_nodup` — the corners that a loop can spare;
* `TurnsAt` — a loop by what comes after a corner that it can spare; `mem_edges_filter_iff` — its
  edges after the corner was taken out.
-/

variable {β γ : Type}

/-! ### Edges -/

/-- The edges pair a loop with itself turned by one. -/
theorem cyclicPairs_eq_zip (l : List β) : cyclicPairs l = l.zip (l.rotate 1) := by
  cases l with
  | nil => rfl
  | cons b rest => rw [List.rotate_cons_succ, List.rotate_zero]; rfl

/-- A loop has as many edges as corners. -/
@[simp] theorem length_cyclicPairs (l : List β) : (cyclicPairs l).length = l.length := by
  rw [cyclicPairs_eq_zip, List.length_zip, List.length_rotate, Nat.min_self]

/-- Turning a loop turns its edges. -/
theorem cyclicPairs_rotate (l : List β) (k : Nat) :
    cyclicPairs (l.rotate k) = (cyclicPairs l).rotate k := by
  -- Both sides zip the turned loop with the loop turned by one more.
  rw [cyclicPairs_eq_zip, cyclicPairs_eq_zip, List.rotate_rotate, Nat.add_comm,
    ← List.rotate_rotate]
  exact (List.zipWith_rotate_distrib Prod.mk l (l.rotate 1) k (by simp)).symm

/-- The edges do not depend on where the loop starts. -/
theorem mem_cyclicPairs_append_comm {l m : List β} {e : β × β} :
    e ∈ cyclicPairs (l ++ m) ↔ e ∈ cyclicPairs (m ++ l) := by
  have h := cyclicPairs_rotate (l ++ m) l.length
  rw [List.rotate_append_length_eq] at h
  rw [h, List.mem_rotate]

/-- The edges of a loop with changed corners. -/
theorem cyclicPairs_map (f : β → γ) (l : List β) :
    cyclicPairs (l.map f) = (cyclicPairs l).map (Prod.map f f) := by
  rw [cyclicPairs_eq_zip, cyclicPairs_eq_zip, ← List.map_rotate, List.zip_map]

/-- Up to their order the edges do not depend on where the loop starts. -/
theorem perm_cyclicPairs {l m : List β} (h : l ~r m) : (cyclicPairs l).Perm (cyclicPairs m) := by
  obtain ⟨k, rfl⟩ := h
  rw [cyclicPairs_rotate]
  exact (List.rotate_perm _ k).symm

/-- The edges leave the corners in turn. -/
theorem map_fst_cyclicPairs (l : List β) : (cyclicPairs l).map Prod.fst = l := by
  rw [cyclicPairs_eq_zip]
  exact List.map_fst_zip (by simp)

theorem nodup_cyclicPairs {l : List β} (h : l.Nodup) : (cyclicPairs l).Nodup := by
  refine List.Nodup.of_map Prod.fst ?_
  rwa [map_fst_cyclicPairs]

/-- The edges lead from each place to the next one, round the end. -/
theorem mem_cyclicPairs_iff {l : List β} {a b : β} :
    (a, b) ∈ cyclicPairs l ↔ ∃ i, l[i]? = some a ∧ l[(i + 1) % l.length]? = some b := by
  rw [cyclicPairs_eq_zip, List.mem_iff_getElem?]
  refine exists_congr fun i => ?_
  rw [List.getElem?_zip_eq_some]
  refine and_congr_right fun ha => ?_
  rw [List.getElem?_rotate (List.getElem?_eq_some_iff.mp ha).1]

/-- Where all corners differ, one edge leaves each of them. -/
theorem eq_of_mem_cyclicPairs {l : List β} (hl : l.Nodup) {a b c : β} (hb : (a, b) ∈ cyclicPairs l)
    (hc : (a, c) ∈ cyclicPairs l) : b = c := by
  obtain ⟨i, hi, hi'⟩ := mem_cyclicPairs_iff.mp hb
  obtain ⟨j, hj, hj'⟩ := mem_cyclicPairs_iff.mp hc
  obtain rfl := (List.getElem?_inj (List.getElem?_eq_some_iff.mp hi).1 hl).mp (hi.trans hj.symm)
  exact Option.some.inj (hi'.symm.trans hj')

/-- A loop of at least three different corners runs back along none of its edges. -/
theorem not_mem_cyclicPairs_swap {l : List β} (hl : l.Nodup) (hthree : 3 ≤ l.length) {a b : β}
    (h : (a, b) ∈ cyclicPairs l) : (b, a) ∉ cyclicPairs l := by
  intro hback
  obtain ⟨i, hi, hi'⟩ := mem_cyclicPairs_iff.mp h
  obtain ⟨j, hj, hj'⟩ := mem_cyclicPairs_iff.mp hback
  have hlt := (List.getElem?_eq_some_iff.mp hi).1
  obtain rfl := (List.getElem?_inj (List.getElem?_eq_some_iff.mp hi').1 hl).mp (hi'.trans hj.symm)
  have hji := (List.getElem?_inj hlt hl).mp (hi.trans hj'.symm)
  -- Two steps from the place of `a` lead back to it only round a loop of at most two.
  rcases Nat.lt_or_ge (i + 1) l.length with hi1 | hi1
  · rw [Nat.mod_eq_of_lt hi1] at hji
    rcases Nat.lt_or_ge (i + 1 + 1) l.length with hi2 | hi2
    · rw [Nat.mod_eq_of_lt hi2] at hji
      omega
    · rw [Nat.mod_eq_sub_mod hi2, Nat.mod_eq_of_lt (by omega)] at hji
      omega
  · rw [Nat.mod_eq_sub_mod hi1, Nat.mod_eq_of_lt (by omega : i + 1 - l.length < _),
      Nat.mod_eq_of_lt (by omega)] at hji
    omega

/-- The edges of a loop that is given by the numbers of its corners. -/
theorem mem_cyclicPairs_map_range {f : Nat → β} {m : Nat} (hclosed : f m = f 0) {a b : β} :
    (a, b) ∈ cyclicPairs ((List.range m).map f) ↔ ∃ k < m, f k = a ∧ f (k + 1) = b := by
  rw [mem_cyclicPairs_iff, List.length_map, List.length_range]
  refine exists_congr fun k => ?_
  by_cases hk : k < m
  · have hnext : f ((k + 1) % m) = f (k + 1) := by
      rcases Nat.eq_or_lt_of_le (Nat.succ_le_of_lt hk) with hlast | hlt
      · have hlast : k + 1 = m := hlast
        rw [hlast, Nat.mod_self, hclosed]
      · rw [Nat.mod_eq_of_lt hlt]
    have hmod : (k + 1) % m < m := Nat.mod_lt _ (Nat.zero_lt_of_lt hk)
    simp [hk, hmod, hnext]
  · simp [hk]

/-- Edges run between corners. -/
theorem mem_of_mem_cyclicPairs {l : List β} {e : β × β} (h : e ∈ cyclicPairs l) :
    e.1 ∈ l ∧ e.2 ∈ l := by
  rw [cyclicPairs_eq_zip] at h
  obtain ⟨h₁, h₂⟩ := List.of_mem_zip h
  exact ⟨h₁, List.mem_rotate.mp h₂⟩

/-- Every corner starts an edge. -/
theorem exists_edge_from {l : List β} {a : β} (h : a ∈ l) : ∃ b, (a, b) ∈ cyclicPairs l := by
  obtain ⟨s, t, rfl⟩ := List.append_of_mem h
  -- The loop is turned so that `a` stands first; its successor is the next element, or `a`
  -- itself in a loop of one corner.
  have hmem : ∃ b, (a, b) ∈ cyclicPairs (a :: t ++ s) := by
    cases ht : t ++ s with
    | nil => exact ⟨a, by simp [cyclicPairs, ht]⟩
    | cons b rest => exact ⟨b, by simp [cyclicPairs, ht]⟩
  obtain ⟨b, hb⟩ := hmem
  exact ⟨b, mem_cyclicPairs_append_comm.mp hb⟩

/-- A property of neighbours along a list that ends with `c`, by the pairs. -/
theorem forall_zip_append_iff (r : β → β → Prop) (l : List β) (a c : β) :
    (∀ e ∈ (a :: l).zip (l ++ [c]), r e.1 e.2) ↔ (a :: (l ++ [c])).IsChain r := by
  induction l generalizing a with
  | nil => simp
  | cons b l ih =>
    have hzip : (a :: b :: l).zip (b :: l ++ [c]) = (a, b) :: (b :: l).zip (l ++ [c]) := rfl
    rw [hzip, List.forall_mem_cons, ih b, List.cons_append, List.isChain_cons_cons]

/-- A property of all edges is a chain along the loop, back to its start. -/
theorem forall_cyclicPairs_cons (r : β → β → Prop) (a : β) (l : List β) :
    (∀ e ∈ cyclicPairs (a :: l), r e.1 e.2) ↔ (a :: (l ++ [a])).IsChain r :=
  forall_zip_append_iff r l a a

/-! ### Cleaning -/

/-- A squeezed list starts as the list does. -/
@[simp] theorem head?_squeeze (l : List Nat) : (squeeze l).head? = l.head? := by
  fun_induction squeeze l with
  | case1 => rfl
  | case2 a => rfl
  | case3 a rest ih => simpa using ih
  | case4 a b rest h ih => rfl

/-- Squeezing leaves some of the elements, in their order. -/
theorem squeeze_sublist (l : List Nat) : (squeeze l).Sublist l := by
  fun_induction squeeze l with
  | case1 => exact .slnil
  | case2 a => exact List.Sublist.refl _
  | case3 a rest ih => exact ih.cons a
  | case4 a b rest h ih => exact ih.cons_cons a

/-- Neighbours in a squeezed list differ. -/
theorem isChain_squeeze (l : List Nat) : (squeeze l).IsChain (· ≠ ·) := by
  fun_induction squeeze l with
  | case1 => exact List.isChain_nil
  | case2 a => exact List.isChain_singleton a
  | case3 a rest ih => exact ih
  | case4 a b rest h ih =>
    rw [List.isChain_cons]
    -- The head of the squeezed rest is that of the rest, which `a` differs from.
    refine ⟨?_, ih⟩
    intro y hy
    rw [head?_squeeze] at hy
    have : b = y := by simpa using hy
    exact this ▸ h

/-- A list whose neighbours differ is squeezed already. -/
theorem squeeze_eq_self {l : List Nat} (h : l.IsChain (· ≠ ·)) : squeeze l = l := by
  fun_induction squeeze l with
  | case1 => rfl
  | case2 a => rfl
  | case3 a rest ih => exact absurd rfl (List.isChain_cons_cons.mp h).1
  | case4 a b rest hab ih => rw [ih (List.isChain_cons_cons.mp h).2]

/-- Cleaning leaves some of the corners, in their order. -/
theorem cleanLoop_sublist (face : Face) : (cleanLoop face).Sublist face := by
  simp only [cleanLoop]
  split
  · exact (List.dropLast_sublist _).trans (squeeze_sublist face)
  · exact squeeze_sublist face

/-- Neighbours in a clean loop of at least two corners differ. -/
theorem edges_cleanLoop {face : Face} (hlen : 2 ≤ (cleanLoop face).length) :
    ∀ e ∈ loopEdges (cleanLoop face), e.1 ≠ e.2 := by
  unfold cleanLoop at hlen ⊢
  have hchain := isChain_squeeze face
  obtain ⟨l, hl⟩ : ∃ l, squeeze face = l := ⟨_, rfl⟩
  simp only [hl] at hlen hchain ⊢
  split at hlen
  · next h =>
    -- One repeat was taken off the end, and what stands there now differs from it.
    rw [if_pos h]
    obtain ⟨a, l, rfl⟩ := List.exists_cons_of_length_pos (show 0 < l.length by omega)
    obtain ⟨m, c, rfl⟩ : ∃ m c, l = m ++ [c] := by
      exact (List.eq_nil_or_concat' l).resolve_left (by rintro rfl; simp at h)
    have hac : a = c := by
      have := h.2
      rw [List.head?_cons, ← List.cons_append, List.getLast?_append] at this
      simpa using this
    subst hac
    rw [← List.cons_append, List.dropLast_concat] at hlen ⊢
    exact (forall_cyclicPairs_cons (· ≠ ·) a m).mpr hchain
  · next h =>
    rw [if_neg h]
    obtain ⟨a, l, rfl⟩ := List.exists_cons_of_length_pos (show 0 < l.length by omega)
    -- No repeat at the end, so the last corner differs from the first.
    rw [forall_cyclicPairs_cons (· ≠ ·) a l, ← List.cons_append, List.isChain_append]
    refine ⟨hchain, List.isChain_singleton a, ?_⟩
    intro x hx y hy hxy
    have hya : a = y := by simpa using hy
    refine h ⟨by omega, ?_⟩
    rw [List.head?_cons, Option.mem_def.mp hx, hxy, hya]

/-- A loop whose neighbours differ is clean already. -/
theorem cleanLoop_eq_self {face : Face} (h : ∀ e ∈ loopEdges face, e.1 ≠ e.2) :
    cleanLoop face = face := by
  unfold cleanLoop
  cases face with
  | nil => rfl
  | cons a l =>
    -- Neighbours differ along the loop, so squeezing does nothing, and its ends differ, so
    -- nothing is taken off the end either.
    have hchain := (forall_cyclicPairs_cons (· ≠ ·) a l).mp h
    rw [← List.cons_append, List.isChain_append] at hchain
    obtain ⟨hl, -, hback⟩ := hchain
    rw [squeeze_eq_self hl, if_neg]
    rintro ⟨-, hend⟩
    exact hback a (by rw [← hend]; rfl) a rfl rfl

/-! ### Taking a corner out -/

/-- A loop can spare a corner that it holds once, between two different corners. -/
theorem canSpare_append_cons_iff {s t : List Nat} {v : Nat} (hs : v ∉ s) :
    canSpare (s ++ v :: t) v = true ↔
      v ∉ t ∧ 3 ≤ (t ++ s).length ∧ (t ++ s).getLast? ≠ (t ++ s).head? := by
  -- The scan for `v` stops at its first occurrence.
  have hs' : ∀ a ∈ s, (a != v) = true := by
    intro a ha
    exact bne_iff_ne.mpr fun hav => hs (hav ▸ ha)
  have hdrop : (s ++ v :: t).dropWhile (· != v) = v :: t := by
    rw [List.dropWhile_append_of_pos hs']
    simp
  have htake : (s ++ v :: t).takeWhile (· != v) = s := by
    rw [List.takeWhile_append_of_pos hs']
    simp
  -- It is the only one iff `v` counts once.
  have hcount : (s ++ v :: t).count v = 1 ↔ v ∉ t := by
    rw [List.count_append, List.count_cons_self, List.count_eq_zero_of_not_mem hs, Nat.zero_add,
      Nat.succ_inj, List.count_eq_zero]
  have hlen : 3 < (s ++ v :: t).length ↔ 3 ≤ (t ++ s).length := by
    simp only [List.length_append, List.length_cons]
    omega
  simp only [canSpare, Bool.and_eq_true, decide_eq_true_eq, beq_iff_eq, hcount, hlen]
  rw [hdrop, htake, List.getLast?_append, List.head?_append, and_assoc, and_left_comm]
  exact and_congr_right fun _ => and_congr_right fun _ => bne_iff_ne

/-- A loop that can spare `v` holds it once, between two different corners. -/
theorem exists_split_of_canSpare {face : Face} {v : Nat} (h : canSpare face v = true) :
    ∃ s t, face = s ++ v :: t ∧ v ∉ s ∧ v ∉ t ∧ 3 ≤ (t ++ s).length ∧
      (t ++ s).getLast? ≠ (t ++ s).head? := by
  have hcount : face.count v = 1 := by
    simp only [canSpare, Bool.and_eq_true, beq_iff_eq] at h
    exact h.1.2
  have hmem : v ∈ face := List.count_pos_iff.mp (by omega)
  obtain ⟨s, t, rfl, hs⟩ := List.eq_append_cons_of_mem hmem
  exact ⟨s, t, rfl, hs, (canSpare_append_cons_iff hs).mp h⟩

/-- A loop of different corners can spare each of them, if three others are left. -/
theorem canSpare_of_nodup {face : Face} (hface : face.Nodup) {v : Nat} (hv : v ∈ face)
    (hlen : 3 < face.length) : canSpare face v = true := by
  obtain ⟨s, t, rfl, hs⟩ := List.eq_append_cons_of_mem hv
  have hturned : (v :: (t ++ s)).Nodup := List.nodup_append_comm.mp hface
  obtain ⟨hv, hothers⟩ := List.nodup_cons.mp hturned
  have hlen : 3 ≤ (t ++ s).length := by
    simp only [List.length_append, List.length_cons] at hlen ⊢
    omega
  refine (canSpare_append_cons_iff hs).mpr ⟨fun ht => hv (List.mem_append_left s ht), hlen, ?_⟩
  -- The corners beside `v` are the last and the first of the others, once round from it.
  rw [List.getLast?_eq_getElem?, List.head?_eq_getElem?, ne_eq,
    List.getElem?_inj (by omega) hothers]
  omega

/-- A loop that does not hold `v` is left as it is without it. -/
theorem filter_ne_of_not_mem {face : Face} {v : Nat} (h : v ∉ face) :
    face.filter (· != v) = face :=
  List.filter_eq_self.mpr fun _ hi => bne_iff_ne.mpr fun hiv => h (hiv ▸ hi)

/-- What is left of a loop without its one corner `v`. -/
theorem filter_ne_append_cons {s t : List Nat} {v : Nat} (hs : v ∉ s) (ht : v ∉ t) :
    (s ++ v :: t).filter (· != v) = s ++ t := by
  rw [List.filter_append, List.filter_cons_of_neg (by simp), filter_ne_of_not_mem hs,
    filter_ne_of_not_mem ht]

/-- The pairs along a list that ends with `c`: the steps along it, and the last one. -/
theorem zip_concat (a : β) (l : List β) (c : β) :
    (a :: l).zip (l ++ [c]) = (a :: l).zip l ++ [((a :: l).getLast (List.cons_ne_nil a l), c)] := by
  induction l generalizing a with
  | nil => rfl
  | cons b l ih => simpa using ih b

/-- The edges of a loop by its first corner: the steps along the list, and the one back. -/
theorem cyclicPairs_cons (a : β) (l : List β) :
    cyclicPairs (a :: l) = (a :: l).zip l ++ [((a :: l).getLast (List.cons_ne_nil a l), a)] :=
  zip_concat a l a

/-- A loop that holds `v` once: after it come the corners `a :: l`, once round, the last of which
    is not `a`. -/
structure TurnsAt (face : Face) (v a : Nat) (l : List Nat) : Prop where
  not_mem : v ∉ a :: l
  last_ne : (a :: l).getLast (List.cons_ne_nil a l) ≠ a
  mem_iff : ∀ i, i ∈ face ↔ i = v ∨ i ∈ a :: l
  mem_edges_iff : ∀ e, e ∈ loopEdges face ↔
    e = (v, a) ∨ e ∈ (a :: l).zip l ∨ e = ((a :: l).getLast (List.cons_ne_nil a l), v)
  mem_edges_erase_iff : ∀ e, e ∈ loopEdges (face.filter (· != v)) ↔
    e ∈ (a :: l).zip l ∨ e = ((a :: l).getLast (List.cons_ne_nil a l), a)

/-- A loop that can spare a corner can be turned so that it stands first. -/
theorem exists_turnsAt_of_canSpare {face : Face} {v : Nat} (h : canSpare face v = true) :
    ∃ a l, TurnsAt face v a l := by
  obtain ⟨s, t, rfl, hs, ht, hlen, hends⟩ := exists_split_of_canSpare h
  obtain ⟨a, l, hal⟩ := List.exists_cons_of_length_pos (show 0 < (t ++ s).length by omega)
  rw [hal] at hends
  refine ⟨a, l, ?_, ?_, ?_, ?_, ?_⟩
  · rw [← hal, List.mem_append, not_or]
    exact ⟨ht, hs⟩
  · intro hlast
    rw [List.getLast?_eq_some_getLast (List.cons_ne_nil a l), hlast] at hends
    exact hends rfl
  · intro i
    rw [← hal]
    simp only [List.mem_append, List.mem_cons]
    tauto
  · intro e
    rw [mem_cyclicPairs_append_comm, List.cons_append, hal, cyclicPairs_cons]
    simp
  · intro e
    rw [filter_ne_append_cons hs ht, mem_cyclicPairs_append_comm, hal, cyclicPairs_cons]
    simp

namespace TurnsAt

variable {face : Face} {v a : Nat} {l : List Nat}

/-- The steps beside the corner do not touch it. -/
theorem ne_of_mem_zip (h : TurnsAt face v a l) {e : Nat × Nat} (he : e ∈ (a :: l).zip l) :
    e.1 ≠ v ∧ e.2 ≠ v := by
  obtain ⟨h₁, h₂⟩ := List.of_mem_zip he
  exact ⟨fun heq => h.not_mem (heq ▸ h₁), fun heq => h.not_mem (heq ▸ List.mem_cons_of_mem a h₂)⟩

theorem ne_first (h : TurnsAt face v a l) : a ≠ v :=
  fun heq => h.not_mem (heq ▸ List.mem_cons_self)

theorem ne_last (h : TurnsAt face v a l) : (a :: l).getLast (List.cons_ne_nil a l) ≠ v :=
  fun heq => h.not_mem (heq ▸ List.getLast_mem _)

/-- The edge to the corner comes from the last one. -/
theorem mem_edges_to (h : TurnsAt face v a l) {x : Nat} :
    (x, v) ∈ loopEdges face ↔ x = (a :: l).getLast (List.cons_ne_nil a l) := by
  rw [h.mem_edges_iff]
  constructor
  · rintro (heq | hstep | heq)
    · exact absurd (congrArg Prod.snd heq).symm h.ne_first
    · exact absurd rfl (h.ne_of_mem_zip hstep).2
    · exact congrArg Prod.fst heq
  · rintro rfl
    exact .inr (.inr rfl)

/-- The edge from the corner leads to the first one after it. -/
theorem mem_edges_from (h : TurnsAt face v a l) {y : Nat} : (v, y) ∈ loopEdges face ↔ y = a := by
  rw [h.mem_edges_iff]
  constructor
  · rintro (heq | hstep | heq)
    · exact congrArg Prod.snd heq
    · exact absurd rfl (h.ne_of_mem_zip hstep).1
    · exact absurd (congrArg Prod.fst heq).symm h.ne_last
  · rintro rfl
    exact .inl rfl

end TurnsAt

section

variable {face : Face} {v : Nat}

/-- The edges on both sides of a corner that a loop can spare join it to different corners. -/
theorem exists_passage_of_canSpare (h : canSpare face v = true) :
    ∃ p q, (p, v) ∈ loopEdges face ∧ (v, q) ∈ loopEdges face ∧ p ≠ v ∧ q ≠ v ∧ p ≠ q := by
  obtain ⟨a, l, hturn⟩ := exists_turnsAt_of_canSpare h
  exact ⟨_, a, hturn.mem_edges_to.mpr rfl, hturn.mem_edges_from.mpr rfl, hturn.ne_last,
    hturn.ne_first, hturn.last_ne⟩

/-- The edges of a loop without a corner `v` that it can spare: those that do not touch it, and the
    one that joins the corners beside it. -/
theorem mem_edges_erase_iff (h : canSpare face v = true) {e : Nat × Nat} :
    e ∈ loopEdges (face.filter (· != v)) ↔
      (e ∈ loopEdges face ∧ e.1 ≠ v ∧ e.2 ≠ v) ∨
        ((e.1, v) ∈ loopEdges face ∧ (v, e.2) ∈ loopEdges face) := by
  obtain ⟨a, l, hturn⟩ := exists_turnsAt_of_canSpare h
  rw [hturn.mem_edges_erase_iff, hturn.mem_edges_to, hturn.mem_edges_from, hturn.mem_edges_iff,
    Prod.ext_iff (y := ((a :: l).getLast (List.cons_ne_nil a l), a))]
  refine or_congr_left ?_
  constructor
  · intro hstep
    exact ⟨.inr (.inl hstep), hturn.ne_of_mem_zip hstep⟩
  · rintro ⟨rfl | hstep | rfl, h₁, h₂⟩
    · exact absurd rfl h₁
    · exact hstep
    · exact absurd rfl h₂

/-- **Taking a corner out.** The edges of a loop without `v`, which it can spare if it has it at all:
    those that do not touch it, and the one that joins the corners beside it. -/
theorem mem_edges_filter_iff (h : v ∈ face → canSpare face v = true) {e : Nat × Nat} :
    e ∈ loopEdges (face.filter (· != v)) ↔ e.1 ≠ v ∧ e.2 ≠ v ∧
      (e ∈ loopEdges face ∨ (e.1, v) ∈ loopEdges face ∧ (v, e.2) ∈ loopEdges face) := by
  by_cases hv : v ∈ face
  · obtain ⟨a, l, hturn⟩ := exists_turnsAt_of_canSpare (h hv)
    rw [mem_edges_erase_iff (h hv)]
    constructor
    · rintro (⟨hold, h₁, h₂⟩ | ⟨hto, hfrom⟩)
      · exact ⟨h₁, h₂, .inl hold⟩
      · refine ⟨?_, ?_, .inr ⟨hto, hfrom⟩⟩
        · rw [hturn.mem_edges_to.mp hto]
          exact hturn.ne_last
        · rw [hturn.mem_edges_from.mp hfrom]
          exact hturn.ne_first
    · rintro ⟨h₁, h₂, hold | hnew⟩
      · exact .inl ⟨hold, h₁, h₂⟩
      · exact .inr hnew
  · rw [filter_ne_of_not_mem hv]
    constructor
    · intro he
      obtain ⟨h₁, h₂⟩ := mem_of_mem_cyclicPairs he
      exact ⟨fun heq => hv (heq ▸ h₁), fun heq => hv (heq ▸ h₂), .inl he⟩
    · rintro ⟨-, -, hold | ⟨hto, -⟩⟩
      · exact hold
      · exact absurd (mem_of_mem_cyclicPairs hto).2 hv

end

end CollisionMesh
