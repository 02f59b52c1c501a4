import CollisionMesh.Mesh.Region
import Mathlib.Data.List.Sort
import Mathlib.Logic.Relation

namespace CollisionMesh

/-!
# What a flood reaches

A flood takes every face at most once, and after the first one only faces that lie
across an edge of a face it took before. So a region is connected, and the regions
part the faces.

* `Grown` — lists of faces that grow across edges from a first one;
* `perm_flood` — a flood takes some of the faces and leaves the others;
* `grown_flood`, `fits_of_mem_flood` — it takes them by growing, and only such as fit;
* `left_sublist`, `not_mem_twins_of_left` — what it leaves, and that it could not be taken;
* `Grown.reflTransGen` — every face of a list that grew can be reached from the first;
* `perm_flatten_regions`, `exists_flood_of_mem_regions` — the regions together are all faces, and
  each is what a flood takes; `pairwise_le_of_mem_regions`, `exists_grown_of_mem_regions` — so it is
  in face order and can be listed by growing.
-/

variable (twins : Nat → List Nat)

/-- Faces listed by growing: each but the first is a twin of one before it. -/
inductive Grown : List Nat → Prop where
  /-- A single face. -/
  | seed (f : Nat) : Grown [f]
  /-- A face more, across an edge of one that is in the list. -/
  | step {l : List Nat} {f g : Nat} : Grown l → f ∈ l → g ∈ twins f → Grown (l ++ [g])

variable {twins}

/-- Growing by some twins of a face in the list. -/
theorem Grown.append {l : List Nat} (h : Grown twins l) {f : Nat} (hf : f ∈ l) {found : List Nat}
    (hfound : ∀ g ∈ found, g ∈ twins f) : Grown twins (l ++ found) := by
  induction found generalizing l with
  | nil => rwa [List.append_nil]
  | cons g rest ih =>
    rw [List.append_cons]
    refine ih (h.step hf (hfound g List.mem_cons_self)) (List.mem_append_left _ hf) ?_
    intro g' hg'
    exact hfound g' (List.mem_cons_of_mem g hg')

/-- From the first face on a way leads to each other one, across one edge after the other, and does not
    leave the list. -/
theorem Grown.reflTransGen {l : List Nat} (h : Grown twins l) {seed : Nat} (hseed : l.head? = some seed)
    {g : Nat} (hg : g ∈ l) : Relation.ReflTransGen (fun f g => g ∈ twins f ∧ g ∈ l) seed g := by
  induction h generalizing g with
  | seed f =>
    obtain rfl : f = seed := Option.some.inj hseed
    rw [List.mem_singleton.mp hg]
  | @step l f g' hl hf hg' ih =>
    have hhead : l.head? = some seed := by
      cases l with
      | nil => exact absurd hf List.not_mem_nil
      | cons a rest => exact hseed
    have hold : ∀ k ∈ l, Relation.ReflTransGen (fun f g => g ∈ twins f ∧ g ∈ l ++ [g']) seed k :=
      fun k hk => Relation.ReflTransGen.mono
        (fun a b hab => ⟨hab.1, List.mem_append_left _ hab.2⟩) _ _ (ih hhead hk)
    rcases List.mem_append.mp hg with hmem | hmem
    · exact hold g hmem
    · rw [List.mem_singleton.mp hmem]
      exact (hold f hf).tail ⟨hg', by simp⟩

/-- Every pending face is either found or missed. -/
theorem perm_found_append_missed (fits : Nat → Bool) (f : Nat) (pending : List Nat) :
    (found twins fits f pending ++ missed twins fits f pending).Perm pending :=
  List.filter_append_perm _ pending

/-- **A flood loses and repeats nothing.** What it reaches and what it leaves are the
    queue and the pending faces together. -/
theorem perm_flood (fits : Nat → Bool) (queue pending : List Nat) :
    ((flood twins fits queue pending).1 ++ (flood twins fits queue pending).2).Perm
      (queue ++ pending) := by
  fun_induction flood twins fits queue pending with
  | case1 pending => exact List.Perm.refl _
  | case2 pending f queue rest ih =>
    show (f :: (rest.1 ++ rest.2)).Perm (f :: (queue ++ pending))
    refine List.Perm.cons f (ih.trans ?_)
    -- The first face of the queue is taken, and pending faces only change from the one list to
    -- the other.
    rw [List.append_assoc]
    exact (perm_found_append_missed fits f pending).append_left queue

/-- A flood goes on growing what was reached before it, `taken` and its queue. -/
theorem grown_append_flood (fits : Nat → Bool) (queue pending : List Nat) :
    ∀ taken, Grown twins (taken ++ queue) →
      Grown twins (taken ++ (flood twins fits queue pending).1) := by
  fun_induction flood twins fits queue pending with
  | case1 pending =>
    intro taken h
    exact h
  | case2 pending f queue rest ih =>
    intro taken h
    show Grown twins (taken ++ f :: rest.1)
    have hfound : ∀ g ∈ found twins fits f pending, g ∈ twins f := by
      intro g hg
      have := (List.mem_filter.mp hg).2
      rw [Bool.and_eq_true, List.contains_iff_mem] at this
      exact this.2
    -- The first face of the queue moves to `taken`, and what it found joins the queue.
    have hnext := h.append (List.mem_append_right taken List.mem_cons_self) hfound
    rw [List.append_assoc, List.cons_append, List.append_cons] at hnext
    rw [List.append_cons]
    exact ih _ hnext

/-- **A flood grows.** From a single face it reaches a list that grows from it. -/
theorem grown_flood (fits : Nat → Bool) (seed : Nat) (pending : List Nat) :
    Grown twins (flood twins fits [seed] pending).1 :=
  grown_append_flood fits [seed] pending [] (Grown.seed seed)

/-- What a flood leaves stays in its order. -/
theorem left_sublist (fits : Nat → Bool) (queue pending : List Nat) :
    (flood twins fits queue pending).2.Sublist pending := by
  fun_induction flood twins fits queue pending with
  | case1 => exact List.Sublist.refl _
  | case2 pending f queue rest ih => exact ih.trans List.filter_sublist

/-- What a flood takes from the pending faces fits. -/
theorem fits_of_mem_flood {fits : Nat → Bool} {queue pending : List Nat} {g : Nat}
    (hg : g ∈ (flood twins fits queue pending).1) : g ∈ queue ∨ fits g = true := by
  fun_induction flood twins fits queue pending with
  | case1 => exact .inl hg
  | case2 pending f queue rest ih =>
    rcases List.mem_cons.mp hg with rfl | hg
    · exact .inl List.mem_cons_self
    · rcases ih hg with hqueue | hfits
      · rcases List.mem_append.mp hqueue with hqueue | hfound
        · exact .inl (List.mem_cons_of_mem f hqueue)
        · have hfound := (List.mem_filter.mp hfound).2
          rw [Bool.and_eq_true] at hfound
          exact .inr hfound.1
      · exact .inr hfits

/-- **A flood goes on as long as it can.** It leaves no face that fits across an edge of one that it
    took. -/
theorem not_mem_twins_of_left {fits : Nat → Bool} {queue pending : List Nat} {f g : Nat}
    (hf : f ∈ (flood twins fits queue pending).1) (hg : g ∈ (flood twins fits queue pending).2)
    (hfits : fits g = true) : g ∉ twins f := by
  fun_induction flood twins fits queue pending with
  | case1 => exact absurd hf List.not_mem_nil
  | case2 pending f' queue rest ih =>
    rcases List.mem_cons.mp hf with rfl | hf
    · -- What is left was missed when the first face of the queue was taken.
      have hmissed := (List.mem_filter.mp ((left_sublist fits _ _).subset hg)).2
      rw [hfits, Bool.true_and, Bool.not_eq_true', List.contains_eq_mem,
        decide_eq_false_iff_not] at hmissed
      exact hmissed
    · exact ih hf hg

/-- **Regions part the faces.** Together they are the pending faces, each once. -/
theorem perm_flatten_regions (fits : Nat → Nat → Bool) (pending : List Nat) :
    (regions twins fits pending).flatten.Perm pending := by
  fun_induction regions twins fits pending with
  | case1 => exact List.Perm.refl _
  | case2 seed pending ih =>
    rw [List.flatten_cons]
    refine ((List.mergeSort_perm _ _).append ih).trans ?_
    exact perm_flood (fits seed) [seed] pending

/-- Each region is what a flood takes from a seed, in face order. -/
theorem exists_flood_of_mem_regions {fits : Nat → Nat → Bool} {pending : List Nat}
    {region : List Nat} (h : region ∈ regions twins fits pending) :
    ∃ seed free, region = (flood twins (fits seed) [seed] free).1.mergeSort := by
  fun_induction regions twins fits pending with
  | case1 => exact absurd h List.not_mem_nil
  | case2 seed pending ih =>
    rcases List.mem_cons.mp h with rfl | h
    · exact ⟨seed, pending, rfl⟩
    · exact ih h

/-- Regions are in face order. -/
theorem pairwise_le_of_mem_regions {fits : Nat → Nat → Bool} {pending : List Nat}
    {region : List Nat} (h : region ∈ regions twins fits pending) : region.Pairwise (· ≤ ·) := by
  obtain ⟨seed, free, rfl⟩ := exists_flood_of_mem_regions h
  exact List.pairwise_mergeSort' (· ≤ ·) _

/-- **Regions are connected.** Each can be listed by growing across edges. -/
theorem exists_grown_of_mem_regions {fits : Nat → Nat → Bool} {pending : List Nat}
    {region : List Nat} (h : region ∈ regions twins fits pending) :
    ∃ l, Grown twins l ∧ region.Perm l := by
  obtain ⟨seed, free, rfl⟩ := exists_flood_of_mem_regions h
  exact ⟨_, grown_flood (fits seed) seed free, List.mergeSort_perm _ _⟩

end CollisionMesh
