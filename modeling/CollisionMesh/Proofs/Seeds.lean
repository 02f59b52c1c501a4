import CollisionMesh.Proofs.Flood
import CollisionMesh.Proofs.Runs
import CollisionMesh.Proofs.Sharpness

namespace CollisionMesh

open Relation

/-!
# Regions by their seeds

The first face that is in no region yet is the seed of the next one, which takes all faces that fit
the seed and can be reached from it. This says what the regions are, whatever way they are grown.

* `Takes` — what a seed takes of the free faces; `Takes.perm` — that is settled by the seed;
* `takes_flood` — a flood takes just that;
* `IsRegion`, `PartedBySeeds` — faces parted into regions; `PartedBySeeds.unique` — in one way;
* `regions_eq_iff` — the regions part the faces so, and nothing else does;
* `Search`, `Search.Turn` — growing a region, with the faces taken up in any order;
* `Search.Turn.sound`, `Takes.search` — what a turn keeps, and that every search ends at the region;
* `Mesh.Adjoins`, `Mesh.LooksWithin` — faces side by side, and faces that look the same way;
* `Mesh.eq_singleton_of_direction?_eq_none` — a face without a direction stays alone;
* `Mesh.flatRegions_bySeeds` — flat regions by their seeds.
-/

/-! ### What a seed takes -/

/-- The faces that a seed takes of the free ones: itself, and all that it reaches across edges. -/
structure Takes (across : Nat → Nat → Prop) (free : Nat → Prop) (seed : Nat) (region : List Nat) :
    Prop where
  nodup : region.Nodup
  seed_mem : seed ∈ region
  wasFree : ∀ f ∈ region, f ≠ seed → free f
  reached : ∀ f ∈ region, ReflTransGen (fun f g => across f g ∧ g ∈ region) seed f
  closed : ∀ f ∈ region, ∀ g, across f g → free g → g ∈ region

section

variable {across : Nat → Nat → Prop} {free : Nat → Prop} {seed : Nat} {region other : List Nat}

/-- Faces that are closed under taking hold all that the seed takes. -/
theorem Takes.subset (h : Takes across free seed region) (hseed : seed ∈ other)
    (hclosed : ∀ f ∈ other, ∀ g, across f g → free g → g ∈ other) : region ⊆ other := by
  intro f hf
  have hway := h.reached f hf
  clear hf
  -- The way to `f` never leaves them: each face on it is free, or is the seed again.
  induction hway with
  | refl => exact hseed
  | @tail f g _ hfg ih =>
    obtain ⟨hacross, hg⟩ := hfg
    by_cases hne : g = seed
    · rw [hne]
      exact hseed
    · exact hclosed f ih g hacross (h.wasFree g hg hne)

/-- What a seed takes is settled, but for the order. -/
theorem Takes.perm (h : Takes across free seed region) (h' : Takes across free seed other) :
    region.Perm other := by
  rw [List.perm_ext_iff_of_nodup h.nodup h'.nodup]
  exact fun f => ⟨fun hf => h.subset h'.seed_mem h'.closed hf,
    fun hf => h'.subset h.seed_mem h.closed hf⟩

end

/-- **A flood** takes what its seed takes of the pending faces. -/
theorem takes_flood {twins : Nat → List Nat} (fits : Nat → Bool) {seed : Nat} {pending : List Nat}
    (hnodup : (seed :: pending).Nodup) :
    Takes (fun f g => g ∈ twins f) (fun g => fits g = true ∧ g ∈ pending) seed
      (flood twins fits [seed] pending).1 := by
  have hperm := @perm_flood twins fits [seed] pending
  have hhead : (flood twins fits [seed] pending).1.head? = some seed := by
    rw [flood]
    rfl
  have hmem : ∀ g, g ∈ (flood twins fits [seed] pending).1 ∨
      g ∈ (flood twins fits [seed] pending).2 ↔ g = seed ∨ g ∈ pending := by
    intro g
    rw [← List.mem_append, hperm.mem_iff, List.singleton_append, List.mem_cons]
  refine ⟨?_, List.mem_of_mem_head? hhead, ?_, ?_, ?_⟩
  · exact (List.nodup_append.mp (hperm.nodup_iff.mpr hnodup)).1
  · intro f hf hne
    have hfits := (fits_of_mem_flood hf).resolve_left fun h => hne (List.mem_singleton.mp h)
    exact ⟨hfits, ((hmem f).mp (.inl hf)).resolve_left hne⟩
  · exact fun f hf => (grown_flood fits seed pending).reflTransGen hhead hf
  · rintro f hf g hacross ⟨hfits, hg⟩
    refine ((hmem g).mpr (.inr hg)).resolve_right fun hleft => ?_
    exact not_mem_twins_of_left hf hleft hfits hacross

/-! ### Partings -/

/-- A region in face order, from its seed on, and the faces that it leaves: it is all that fits and
    can be reached from the seed without leaving it. -/
structure IsRegion (across fits : Nat → Nat → Prop) (seed : Nat) (rest left : List Nat) : Prop where
  increasing : (seed :: rest).Pairwise (· < ·)
  fit : ∀ f ∈ rest, fits seed f
  reached : ∀ f ∈ rest, ReflTransGen (fun f g => across f g ∧ g ∈ seed :: rest) seed f
  maximal : ∀ f ∈ seed :: rest, ∀ g ∈ left, fits seed g → ¬ across f g
  first : ∀ g ∈ left, seed < g

/-- Faces parted by seeds: each is in one region, and once, and each region leaves the later ones. -/
structure PartedBySeeds (across fits : Nat → Nat → Prop) (faces : List Nat)
    (parts : List (List Nat)) : Prop where
  perm : parts.flatten.Perm faces
  isRegion : ∀ earlier region later, parts = earlier ++ region :: later →
    ∃ seed rest, region = seed :: rest ∧ IsRegion across fits seed rest later.flatten

section

variable {across fits : Nat → Nat → Prop} {seed : Nat} {rest left faces : List Nat}
  {earlier later parts parts' : List (List Nat)}

/-- A region is what its seed takes of the faces in it and those it leaves. -/
theorem IsRegion.takes (h : IsRegion across fits seed rest left) :
    Takes across (fun g => fits seed g ∧ g ∈ seed :: rest ++ left) seed (seed :: rest) := by
  refine ⟨h.increasing.imp Nat.ne_of_lt, List.mem_cons_self, ?_, ?_, ?_⟩
  · intro f hf hne
    exact ⟨h.fit f (List.mem_of_ne_of_mem hne hf), List.mem_append_left _ hf⟩
  · intro f hf
    rcases List.mem_cons.mp hf with rfl | hf
    · exact .refl
    · exact h.reached f hf
  · rintro f hf g hacross ⟨hfits, hg⟩
    refine (List.mem_append.mp hg).resolve_right fun hleft => ?_
    exact h.maximal f hf g hleft hfits hacross

/-- A seed has one region among the same faces. -/
theorem IsRegion.unique {rest' left' : List Nat} (h : IsRegion across fits seed rest left)
    (h' : IsRegion across fits seed rest' left')
    (hperm : (seed :: rest ++ left).Perm (seed :: rest' ++ left')) : rest = rest' := by
  have htakes := h.takes
  simp only [hperm.mem_iff] at htakes
  have hsame : seed :: rest = seed :: rest' :=
    (htakes.perm h'.takes).eq_of_pairwise (fun a b _ _ hab hba => absurd hba (Nat.lt_asymm hab))
      h.increasing h'.increasing
  exact (List.cons.inj hsame).2

/-- The first region of a parting, and the others. -/
theorem partedBySeeds_cons : PartedBySeeds across fits faces ((seed :: rest) :: later) ↔
    (seed :: rest ++ later.flatten).Perm faces ∧ IsRegion across fits seed rest later.flatten ∧
      PartedBySeeds across fits later.flatten later := by
  constructor
  · rintro ⟨hperm, hregion⟩
    obtain ⟨_, _, heq, hfirst⟩ := hregion [] _ later rfl
    obtain ⟨rfl, rfl⟩ := List.cons.inj heq
    refine ⟨hperm, hfirst, .refl _, ?_⟩
    rintro earlier region later' rfl
    exact hregion ((seed :: rest) :: earlier) region later' rfl
  · rintro ⟨hperm, hfirst, hlater⟩
    refine ⟨hperm, ?_⟩
    intro earlier region later' heq
    rcases List.cons_eq_append_iff.mp heq with ⟨rfl, hcons⟩ | ⟨earlier', rfl, hcons⟩
    · obtain ⟨rfl, rfl⟩ := List.cons.inj hcons
      exact ⟨seed, rest, rfl, hfirst⟩
    · exact hlater.isRegion earlier' region later' hcons

/-- No faces are parted into no regions. -/
theorem partedBySeeds_nil : PartedBySeeds across fits [] [] :=
  ⟨.refl _, fun earlier region later h => by simp at h⟩

/-- There is no other parting of them. -/
theorem PartedBySeeds.eq_nil (h : PartedBySeeds across fits [] parts) : parts = [] := by
  cases parts with
  | nil => rfl
  | cons region later =>
    obtain ⟨seed, rest, rfl, -⟩ := h.isRegion [] region later rfl
    exact absurd h.perm.eq_nil (List.cons_ne_nil _ _)

/-- The first seed is the least face. -/
theorem PartedBySeeds.seed_le (h : PartedBySeeds across fits faces ((seed :: rest) :: later)) {f : Nat}
    (hf : f ∈ faces) : seed ≤ f := by
  obtain ⟨hperm, hregion, -⟩ := partedBySeeds_cons.mp h
  rcases List.mem_append.mp (hperm.mem_iff.mpr hf) with hf | hf
  · rcases List.mem_cons.mp hf with rfl | hf
    · exact Nat.le_refl f
    · exact Nat.le_of_lt (List.rel_of_pairwise_cons hregion.increasing hf)
  · exact Nat.le_of_lt (hregion.first f hf)

theorem PartedBySeeds.seed_mem (h : PartedBySeeds across fits faces ((seed :: rest) :: later)) :
    seed ∈ faces :=
  h.perm.subset List.mem_cons_self

/-- What the seed of a region takes: of the faces that fit it, and are in no earlier region. -/
theorem PartedBySeeds.takes (h : PartedBySeeds across fits faces parts) (hnodup : faces.Nodup)
    (hparts : parts = earlier ++ (seed :: rest) :: later) :
    Takes across (fun g => fits seed g ∧ g ∈ faces ∧ g ∉ earlier.flatten) seed (seed :: rest) := by
  obtain ⟨_, _, heq, hregion⟩ := h.isRegion earlier _ later hparts
  obtain ⟨rfl, rfl⟩ := List.cons.inj heq
  have hperm := h.perm
  rw [hparts, List.flatten_append, List.flatten_cons] at hperm
  have happart := (List.nodup_append.mp (hperm.nodup_iff.mpr hnodup)).2.2
  have hmem : ∀ g, g ∈ seed :: rest ++ later.flatten ↔ g ∈ faces ∧ g ∉ earlier.flatten := by
    intro g
    rw [← hperm.mem_iff, List.mem_append (s := earlier.flatten)]
    constructor
    · exact fun hg => ⟨.inr hg, fun hearlier => happart g hearlier g hg rfl⟩
    · exact fun hg => hg.1.resolve_left hg.2
  simpa only [hmem] using hregion.takes

/-- **One parting.** Seeds part faces in one way only. -/
theorem PartedBySeeds.unique (h : PartedBySeeds across fits faces parts)
    (h' : PartedBySeeds across fits faces parts') : parts = parts' := by
  induction parts generalizing faces parts' with
  | nil =>
    rw [← h.perm.nil_eq] at h'
    exact h'.eq_nil.symm
  | cons region later ih =>
    obtain ⟨seed, rest, rfl, -⟩ := h.isRegion [] region later rfl
    cases parts' with
    | nil =>
      rw [← h'.perm.nil_eq] at h
      exact h.eq_nil
    | cons region' later' =>
      obtain ⟨seed', rest', rfl, -⟩ := h'.isRegion [] region' later' rfl
      obtain rfl : seed = seed' := Nat.le_antisymm (h.seed_le h'.seed_mem) (h'.seed_le h.seed_mem)
      obtain ⟨hperm, hregion, hlater⟩ := partedBySeeds_cons.mp h
      obtain ⟨hperm', hregion', hlater'⟩ := partedBySeeds_cons.mp h'
      obtain rfl : rest = rest' := hregion.unique hregion' (hperm.trans hperm'.symm)
      have hleft : later'.flatten.Perm later.flatten :=
        (List.perm_append_left_iff _).mp (hperm'.trans hperm.symm)
      rw [ih hlater ⟨hleft, hlater'.isRegion⟩]

end

/-- What a seed takes, in face order, is a region if the seed is less than all that could be taken. -/
theorem Takes.isRegion_mergeSort {across : Nat → Nat → Prop} (fits : Nat → Nat → Prop)
    {seed : Nat} {pending taken left : List Nat}
    (h : Takes across (fun g => fits seed g ∧ g ∈ pending) seed taken)
    (hpending : ∀ g ∈ pending, seed < g) (hleft : ∀ g ∈ left, g ∈ pending ∧ g ∉ taken) :
    ∃ rest, taken.mergeSort = seed :: rest ∧ IsRegion across fits seed rest left := by
  have hperm : taken.mergeSort.Perm taken := List.mergeSort_perm taken _
  have hincreasing : taken.mergeSort.Pairwise (· < ·) := by
    have hsorted : taken.mergeSort.Pairwise (· ≤ ·) := List.pairwise_mergeSort' (· ≤ ·) taken
    exact (hsorted.and (hperm.nodup_iff.mpr h.nodup)).imp fun hle => Nat.lt_of_le_of_ne hle.1 hle.2
  have hmem : ∀ g, g ∈ taken.mergeSort ↔ g ∈ taken := fun g => hperm.mem_iff
  generalize taken.mergeSort = sorted at hincreasing hmem
  cases sorted with
  | nil => exact absurd ((hmem seed).mpr h.seed_mem) List.not_mem_nil
  | cons f rest =>
    obtain rfl : f = seed := by
      by_contra hne
      -- Then the seed comes later and is greater, but `f` was pending.
      have hless := hpending f (h.wasFree f ((hmem f).mp List.mem_cons_self) hne).2
      have hseed := List.mem_of_ne_of_mem (Ne.symm hne) ((hmem seed).mpr h.seed_mem)
      exact Nat.lt_asymm hless (List.rel_of_pairwise_cons hincreasing hseed)
    refine ⟨rest, rfl, hincreasing, ?_, ?_, ?_, fun g hg => hpending g (hleft g hg).1⟩
    · intro g hg
      have hne : f < g := List.rel_of_pairwise_cons hincreasing hg
      exact (h.wasFree g ((hmem g).mp (List.mem_cons_of_mem f hg)) (Nat.ne_of_gt hne)).1
    · intro g hg
      simp only [hmem]
      exact h.reached g ((hmem g).mp (List.mem_cons_of_mem f hg))
    · intro g hg k hk hfits hacross
      exact (hleft k hk).2 (h.closed g ((hmem g).mp hg) k hacross ⟨hfits, (hleft k hk).1⟩)

/-- Regions part the faces by seeds. -/
theorem partedBySeeds_regions (twins : Nat → List Nat) (fits : Nat → Nat → Bool)
    {pending : List Nat} (hpending : pending.Pairwise (· < ·)) :
    PartedBySeeds (fun f g => g ∈ twins f) (fun f g => fits f g = true) pending
      (regions twins fits pending) := by
  fun_induction regions twins fits pending with
  | case1 => exact partedBySeeds_nil
  | case2 seed pending ih =>
    obtain ⟨hseed, hrest⟩ := List.pairwise_cons.mp hpending
    have hnodup : (seed :: pending).Nodup := hpending.imp Nat.ne_of_lt
    have htakes := @takes_flood twins (fits seed) seed pending hnodup
    have hflood := @perm_flood twins (fits seed) [seed] pending
    have hsublist := @left_sublist twins (fits seed) [seed] pending
    have happart := (List.nodup_append.mp (hflood.nodup_iff.mpr hnodup)).2.2
    have hlater := ih (hrest.sublist hsublist)
    generalize (flood twins (fits seed) [seed] pending).1 = taken at *
    generalize (flood twins (fits seed) [seed] pending).2 = left at *
    obtain ⟨rest, hsort, hregion⟩ := htakes.isRegion_mergeSort (fun f g => fits f g = true) hseed
      fun g hg =>
        have hg := hlater.perm.subset hg
        ⟨hsublist.subset hg, fun htaken => happart g htaken g hg rfl⟩
    have hsorted : taken.mergeSort.Perm taken := List.mergeSort_perm taken _
    have hperm := (hsorted.append hlater.perm).trans hflood
    rw [hsort] at hperm ⊢
    exact partedBySeeds_cons.mpr ⟨hperm, hregion, .refl _, hlater.isRegion⟩

/-- **Regions by seeds.** They part increasing faces by seeds, and nothing else does. -/
theorem regions_eq_iff (twins : Nat → List Nat) (fits : Nat → Nat → Bool) {pending : List Nat}
    (hpending : pending.Pairwise (· < ·)) {parts : List (List Nat)} :
    regions twins fits pending = parts ↔
      PartedBySeeds (fun f g => g ∈ twins f) (fun f g => fits f g = true) pending parts := by
  have hregions := partedBySeeds_regions twins fits hpending
  constructor
  · rintro rfl
    exact hregions
  · exact hregions.unique

/-! ### Growing a region in any order -/

/-- A region that is being grown: the faces whose edges are still to be looked at, and all that it
    claimed. -/
structure Search where
  queue : List Nat
  claimed : List Nat

namespace Search

/-- A seed alone. -/
def start (seed : Nat) : Search :=
  ⟨[seed], [seed]⟩

/-- One turn of growing. Some face leaves the queue, and the free faces across its edges that are not
    claimed yet are claimed and queued, in some order. -/
inductive Turn (across : Nat → Nat → Prop) (free : Nat → Prop) : Search → Search → Prop where
  | look {queue rest claimed found : List Nat} {f : Nat} :
      queue.Perm (f :: rest) → found.Nodup →
      (∀ g, g ∈ found ↔ across f g ∧ free g ∧ g ∉ claimed) →
      Turn across free ⟨queue, claimed⟩ ⟨rest ++ found, claimed ++ found⟩

/-- What holds of a search after some turns: each took a face from the queue, and what they took was
    looked at. -/
structure Sound (across : Nat → Nat → Prop) (free : Nat → Prop) (seed : Nat) (region : List Nat)
    (turns : Nat) (s : Search) : Prop where
  nodup : s.claimed.Nodup
  subset : s.claimed ⊆ region
  queued : s.queue ⊆ s.claimed
  seed_mem : seed ∈ s.claimed
  length_eq : s.queue.length + turns = s.claimed.length
  looked : ∀ f ∈ s.claimed, f ∉ s.queue → ∀ g, across f g → free g → g ∈ s.claimed

variable {across : Nat → Nat → Prop} {free : Nat → Prop} {seed turns : Nat} {region : List Nat}
  {s s' : Search}

theorem sound_start (hseed : seed ∈ region) : Sound across free seed region 0 (start seed) := by
  refine ⟨List.nodup_singleton seed, ?_, fun f hf => hf, List.mem_cons_self, rfl, ?_⟩
  · exact fun f hf => List.mem_singleton.mp hf ▸ hseed
  · exact fun f hf hqueue => absurd hf hqueue

/-- **A turn** keeps this. -/
theorem Turn.sound (h : Turn across free s s') (hs : Sound across free seed region turns s)
    (hregion : ∀ f ∈ region, ∀ g, across f g → free g → g ∈ region) :
    Sound across free seed region (turns + 1) s' := by
  obtain @⟨queue, rest, claimed, found, f, hqueue, hnodup, hfound⟩ := h
  have hf : f ∈ claimed := hs.queued (hqueue.mem_iff.mpr List.mem_cons_self)
  refine ⟨?_, ?_, ?_, List.mem_append_left found hs.seed_mem, ?_, ?_⟩
  · refine List.nodup_append.mpr ⟨hs.nodup, hnodup, ?_⟩
    rintro g hclaimed _ hg rfl
    exact ((hfound g).mp hg).2.2 hclaimed
  · refine List.append_subset.mpr ⟨hs.subset, fun g hg => ?_⟩
    obtain ⟨hacross, hfree, -⟩ := (hfound g).mp hg
    exact hregion f (hs.subset hf) g hacross hfree
  · refine List.append_subset.mpr ⟨fun g hg => ?_, List.subset_append_right _ _⟩
    exact List.mem_append_left found (hs.queued (hqueue.mem_iff.mpr (List.mem_cons_of_mem f hg)))
  · have hlength := hs.length_eq
    simp only [hqueue.length_eq, List.length_cons, List.length_append] at hlength ⊢
    omega
  · intro k hk hout g hacross hfree
    simp only [List.mem_append, not_or] at hk hout ⊢
    by_cases hg : g ∈ claimed
    · exact .inl hg
    · -- Then `k` was still in the queue, and it is the one that left it.
      have hk := hk.resolve_right hout.2
      have hqueued : k ∈ queue := by
        by_contra hnot
        exact hg (hs.looked k hk hnot g hacross hfree)
      obtain rfl := (List.mem_cons.mp (hqueue.mem_iff.mp hqueued)).resolve_right hout.1
      exact .inr ((hfound g).mpr ⟨hacross, hfree, hg⟩)

/-- While faces are queued there is a next turn. -/
theorem Sound.exists_turn (hs : Sound across free seed region turns s) (hnodup : region.Nodup)
    (hregion : ∀ f ∈ region, ∀ g, across f g → free g → g ∈ region) (hqueue : s.queue ≠ []) :
    ∃ next, Turn across free s next := by
  classical
  obtain ⟨queue, claimed⟩ := s
  obtain ⟨f, rest, rfl⟩ := List.exists_cons_of_ne_nil hqueue
  have hf : f ∈ region := hs.subset (hs.queued List.mem_cons_self)
  refine ⟨_, .look (.refl _) (hnodup.filter fun g => across f g ∧ free g ∧ g ∉ claimed) ?_⟩
  intro g
  rw [List.mem_filter, decide_eq_true_iff]
  exact ⟨fun hg => hg.2, fun hg => ⟨hregion f hf g hg.1 hg.2.1, hg⟩⟩

end Search

/-- **Every search ends**, with what the seed takes: each turn is for another face of it, and there is
    a next turn until all are claimed. -/
theorem Takes.search {across : Nat → Nat → Prop} {free : Nat → Prop} {seed : Nat}
    {region : List Nat} (h : Takes across free seed region) {states : Nat → Search} {k : Nat}
    (hrun : IsRun (Search.Turn across free) states k) (hstart : states 0 = Search.start seed) :
    k ≤ region.length ∧
    ((states k).queue = [] → (states k).claimed.Perm region) ∧
    ((states k).queue ≠ [] → ∃ next, Search.Turn across free (states k) next) := by
  have hsound : Search.Sound across free seed region k (states k) := by
    refine hrun.induction (Search.Sound across free seed region) ?_ ?_
    · rw [hstart]
      exact Search.sound_start h.seed_mem
    · exact fun j s s' hs hturn => hturn.sound hs h.closed
  refine ⟨?_, fun hqueue => ?_, hsound.exists_turn h.nodup h.closed⟩
  · have hclaimed := (List.subperm_of_subset hsound.nodup hsound.subset).length_le
    have hlength := hsound.length_eq
    omega
  · rw [List.perm_ext_iff_of_nodup hsound.nodup h.nodup]
    refine fun f => ⟨fun hf => hsound.subset hf, fun hf => ?_⟩
    refine h.subset hsound.seed_mem (fun g hg k hacross hfree => ?_) hf
    exact hsound.looked g hg (by rw [hqueue]; exact List.not_mem_nil) k hacross hfree

/-! ### Flat regions -/

namespace Mesh

variable {α : Type} [Scalar α] {angle : α} {m : Mesh α} {seed f g : Nat}

omit [Scalar α] in
/-- The face `g` is the twin of `f` across one of its edges. -/
def Adjoins (m : Mesh α) (f g : Nat) : Prop :=
  ∃ e ∈ loopEdges (m.faces.toArray.getD f []), twin? (users (edgeUses m.faces)) e = some g

/-- Both faces have a direction, and these are within the angle. -/
def LooksWithin (angle : α) (m : Mesh α) (seed f : Nat) : Prop :=
  ∃ u v, m.direction? seed = some u ∧ m.direction? f = some v ∧ angleBetween u v ≤ angle

omit [Scalar α] in
/-- Twins of a face can be listed. -/
theorem mem_twinsOf_iff :
    g ∈ twinsOf m.faces.toArray (users (edgeUses m.faces)) f ↔ m.Adjoins f g :=
  List.mem_filterMap

/-- Whether a face looks within the angle can be computed. -/
theorem within_iff :
    within angle (fun f => (m.faces.map m.normal?).toArray.getD f none) seed f = true ↔
      m.LooksWithin angle seed f := by
  simp only [within, getD_normals, LooksWithin]
  cases m.direction? seed <;> cases m.direction? f <;> simp

/-- Only faces of the mesh look anywhere. -/
theorem LooksWithin.mem_range (h : m.LooksWithin angle seed f) : f ∈ List.range m.faces.length := by
  obtain ⟨_, v, -, hv, -⟩ := h
  obtain ⟨face, hface, -⟩ := Option.bind_eq_some_iff.mp hv
  exact List.mem_range.mpr (List.getElem?_eq_some_iff.mp hface).1

/-- A face that may join the region of a seed: it looks within the angle and is in no earlier
    region. -/
def MayJoin (angle : α) (m : Mesh α) (earlier : List (List Nat)) (seed f : Nat) : Prop :=
  m.LooksWithin angle seed f ∧ f ∉ earlier.flatten

/-- Flat regions part the faces by seeds. -/
theorem flatRegions_eq_iff {parts : List (List Nat)} :
    m.flatRegions angle (users (edgeUses m.faces)) = parts ↔
      PartedBySeeds m.Adjoins (m.LooksWithin angle) (List.range m.faces.length) parts := by
  rw [flatRegions, regions_eq_iff _ _ List.pairwise_lt_range]
  simp only [mem_twinsOf_iff, within_iff]

/-- What the seed of a flat region takes. -/
theorem takes_of_flatRegions_eq {earlier later : List (List Nat)} {rest : List Nat}
    (h : m.flatRegions angle (users (edgeUses m.faces)) = earlier ++ (seed :: rest) :: later) :
    Takes m.Adjoins (m.MayJoin angle earlier seed) seed (seed :: rest) := by
  have hfree : m.MayJoin angle earlier seed = fun g => m.LooksWithin angle seed g ∧
      g ∈ List.range m.faces.length ∧ g ∉ earlier.flatten := by
    funext g
    exact propext ⟨fun hg => ⟨hg.1, hg.1.mem_range, hg.2⟩, fun hg => ⟨hg.1, hg.2.2⟩⟩
  rw [hfree]
  exact (flatRegions_eq_iff.mp h).takes List.nodup_range rfl

/-- A face without a direction is a region by itself. -/
theorem eq_singleton_of_direction?_eq_none {region : List Nat}
    (hregion : region ∈ m.flatRegions angle (users (edgeUses m.faces))) (hf : f ∈ region)
    (hnone : m.direction? f = none) : region = [f] := by
  obtain ⟨earlier, later, hparts⟩ := List.append_of_mem hregion
  obtain ⟨seed, rest, rfl, h⟩ := (flatRegions_eq_iff.mp hparts).isRegion earlier region later rfl
  have hout : ∀ g, ¬ m.LooksWithin angle g f := by
    rintro g ⟨_, v, -, hv, -⟩
    exact absurd (hv.symm.trans hnone) (Option.some_ne_none v)
  obtain rfl := (List.mem_cons.mp hf).resolve_right fun hrest => hout seed (h.fit f hrest)
  have hrest : rest = [] := by
    rw [List.eq_nil_iff_forall_not_mem]
    intro g hg
    obtain ⟨u, _, hu, -⟩ := h.fit g hg
    exact absurd (hu.symm.trans hnone) (Option.some_ne_none u)
  rw [hrest]

/-- **Flat regions.** They part the faces by seeds, across edges with a twin and within the angle of
    the seed, and nothing else does. From each seed every search ends, whatever its order, and with
    the region: it has no more turns than the region has faces. -/
theorem flatRegions_bySeeds (angle : α) (m : Mesh α) :
    (∀ parts, m.flatRegions angle (EdgeTable.ofUses (edgeUses m.faces)).users = parts ↔
      PartedBySeeds m.Adjoins (m.LooksWithin angle) (List.range m.faces.length) parts) ∧
    ∀ earlier seed rest later,
      m.flatRegions angle (EdgeTable.ofUses (edgeUses m.faces)).users =
        earlier ++ (seed :: rest) :: later →
      ∀ states k, IsRun (Search.Turn m.Adjoins (m.MayJoin angle earlier seed)) states k →
        states 0 = Search.start seed →
        k ≤ (seed :: rest).length ∧
        ((states k).queue = [] → (states k).claimed.Perm (seed :: rest)) ∧
        ((states k).queue ≠ [] →
          ∃ next, Search.Turn m.Adjoins (m.MayJoin angle earlier seed) (states k) next) := by
  have husers : (EdgeTable.ofUses (edgeUses m.faces)).users = users (edgeUses m.faces) :=
    funext (EdgeTable.users_ofUses _)
  rw [husers]
  refine ⟨fun parts => flatRegions_eq_iff, ?_⟩
  intro earlier seed rest later hparts states k hrun hstart
  exact (takes_of_flatRegions_eq hparts).search hrun hstart

end Mesh

end CollisionMesh
