import CollisionMesh.Proofs.Cycle
import Mathlib.Data.List.Forall2

namespace CollisionMesh

/-!
# What is left of a loop

A loop goes through stretches of equal corners. Cleaning makes one corner of each, and counts the
last stretch to the first where both are of the same corner. So a clean loop of at least two
corners has one for every time that neighbours differ in the old loop, once round.

* `Stretch`, `Cleaned` — a loop without its repeats, told by its stretches;
* `cleaned_iff` — it is the one that cleaning leaves;
* `changes` — how often neighbours differ; `three_le_length_cleanLoop_iff_changes` — so a loop keeps
  three corners iff they do at least three times;
* `Spread`, `toAndFro` — loops with three different corners, and those that only go from one
  corner to another and back; `not_spread_iff` — the latter are all the others.
-/

/-! ### Stretches -/

/-- A corner once or several times. -/
def Stretch (part : List Nat) (a : Nat) : Prop :=
  part ≠ [] ∧ ∀ b ∈ part, b = a

/-- One loop has a corner for every stretch of equal corners in the other. What is of the first
    corner at the end of the old loop belongs to its first stretch, so neighbours in the new loop
    differ, unless it is a single corner. -/
structure Cleaned (old loop : Face) : Prop where
  stretches : ∃ parts back, old = parts.flatten ++ back ∧ List.Forall₂ Stretch parts loop ∧
    ∀ b ∈ back, loop.head? = some b
  apart : loop.length ≠ 1 → ∀ e ∈ loopEdges loop, e.1 ≠ e.2

theorem squeeze_cons (a : Nat) (l : List Nat) :
    squeeze (a :: l) = if l.head? = some a then squeeze l else a :: squeeze l := by
  cases l with
  | nil => rfl
  | cons b rest => simp [squeeze, eq_comm (a := b)]

/-- Only the squeezed list counts for what comes before it. -/
theorem squeeze_cons_congr {l l' : List Nat} (h : squeeze l = squeeze l') (a : Nat) :
    squeeze (a :: l) = squeeze (a :: l') := by
  have hhead : l.head? = l'.head? := by rw [← head?_squeeze, h, head?_squeeze]
  rw [squeeze_cons, squeeze_cons, h, hhead]

/-- A stretch squeezes to its corner. -/
theorem Stretch.squeeze_append {part : List Nat} {a : Nat} (h : Stretch part a) (l : List Nat) :
    squeeze (part ++ l) = squeeze (a :: l) := by
  obtain ⟨hne, hall⟩ := h
  induction part with
  | nil => exact absurd rfl hne
  | cons b rest ih =>
    obtain rfl : b = a := hall b List.mem_cons_self
    cases rest with
    | nil => rfl
    | cons c rest =>
      obtain rfl : c = b := hall c (by simp)
      rw [List.cons_append, List.cons_append, squeeze_cons, List.head?_cons, if_pos rfl,
        ← List.cons_append]
      exact ih (List.cons_ne_nil _ _) fun x hx => hall x (List.mem_cons_of_mem _ hx)

/-- Stretches squeeze to their corners. -/
theorem squeeze_flatten_append {parts : List (List Nat)} {loop : Face}
    (h : List.Forall₂ Stretch parts loop) (l : List Nat) :
    squeeze (parts.flatten ++ l) = squeeze (loop ++ l) := by
  induction h with
  | nil => rfl
  | @cons part a parts loop hpart _ ih =>
    rw [List.flatten_cons, List.append_assoc, hpart.squeeze_append, List.cons_append]
    exact squeeze_cons_congr ih a

/-- Every list goes through stretches, one for each corner of the squeezed list. -/
theorem exists_stretches (l : List Nat) :
    ∃ parts, l = parts.flatten ∧ List.Forall₂ Stretch parts (squeeze l) := by
  fun_induction squeeze l with
  | case1 => exact ⟨[], rfl, .nil⟩
  | case2 a => exact ⟨[[a]], rfl, .cons ⟨by simp, by simp⟩ .nil⟩
  | case3 a rest ih =>
    obtain ⟨parts, hflat, hparts⟩ := ih
    -- The first stretch is of the same corner, so it takes in one more.
    have hhead : (squeeze (a :: rest)).head? = some a := by simp
    obtain ⟨b, loop, hloop⟩ := List.exists_cons_of_ne_nil (by rintro h; simp [h] at hhead :
      squeeze (a :: rest) ≠ [])
    rw [hloop] at hparts hhead ⊢
    obtain rfl : b = a := by simpa using hhead
    cases hparts with
    | @cons part _ parts _ hpart hrest =>
      refine ⟨(b :: part) :: parts, by simp [hflat], .cons ⟨by simp, ?_⟩ hrest⟩
      exact List.forall_mem_cons.mpr ⟨rfl, hpart.2⟩
  | case4 a b rest h ih =>
    obtain ⟨parts, hflat, hparts⟩ := ih
    exact ⟨[a] :: parts, by rw [hflat]; rfl, .cons ⟨by simp, by simp⟩ hparts⟩

/-! ### Cleaning by stretches -/

/-- A loop that squeezes to the same list is cleaned to the same loop. -/
theorem cleanLoop_congr {l l' : Face} (h : squeeze l = squeeze l') : cleanLoop l = cleanLoop l' := by
  rw [cleanLoop, cleanLoop, h]

/-- A loop whose neighbours differ, with its first corner at the end once more. -/
theorem cleanLoop_concat {a : Nat} {l : List Nat} (h : ∀ e ∈ loopEdges (a :: l), e.1 ≠ e.2) :
    cleanLoop (a :: l ++ [a]) = a :: l := by
  have hchain : (a :: l ++ [a]).IsChain (· ≠ ·) := (forall_cyclicPairs_cons (· ≠ ·) a l).mp h
  have hends : 1 < (a :: l ++ [a]).length ∧ (a :: l ++ [a]).head? = (a :: l ++ [a]).getLast? := by
    rw [List.getLast?_append]
    simp
  rw [cleanLoop, squeeze_eq_self hchain, if_pos hends, List.dropLast_concat]

/-- What is left of a loop is what cleaning leaves. -/
theorem Cleaned.cleanLoop_eq {old loop : Face} (h : Cleaned old loop) : cleanLoop old = loop := by
  obtain ⟨⟨parts, back, rfl, hparts, hback⟩, hapart⟩ := h
  have hself : cleanLoop loop = loop := by
    by_cases hone : loop.length = 1
    · obtain ⟨a, rfl⟩ := List.length_eq_one_iff.mp hone
      rfl
    · exact cleanLoop_eq_self (hapart hone)
  cases loop with
  | nil =>
    -- Without a corner there is no stretch and nothing at the end.
    obtain rfl : back = [] := List.eq_nil_iff_forall_not_mem.mpr fun b hb => by simpa using hback b hb
    rw [cleanLoop_congr (squeeze_flatten_append hparts [])]
    exact hself
  | cons a l =>
    by_cases hnil : back = []
    · rw [hnil, cleanLoop_congr (squeeze_flatten_append hparts []), List.append_nil, hself]
    · -- What stands at the end is a stretch of the first corner.
      have hlast : Stretch back a := ⟨hnil, fun b hb => by simpa [eq_comm] using hback b hb⟩
      have hall : List.Forall₂ Stretch (parts ++ [back]) (a :: l ++ [a]) :=
        List.rel_append hparts (.cons hlast .nil)
      have hsqueeze : squeeze (parts.flatten ++ back) = squeeze (a :: l ++ [a]) := by
        have := squeeze_flatten_append hall []
        simpa using this
      rw [cleanLoop_congr hsqueeze]
      by_cases hl : l = []
      · subst hl
        simp [cleanLoop, squeeze]
      · exact cleanLoop_concat (hapart (by simpa using hl))

theorem cleaned_cleanLoop (old : Face) : Cleaned old (cleanLoop old) where
  stretches := by
    obtain ⟨parts, hflat, hparts⟩ := exists_stretches old
    unfold cleanLoop
    dsimp only
    split
    · next h =>
      -- The last stretch is of the first corner and is counted to the first one.
      obtain ⟨loop, a, hloop⟩ : ∃ loop a, squeeze old = loop ++ [a] :=
        (List.eq_nil_or_concat' (squeeze old)).resolve_left fun hnil => by simp [hnil] at h
      rw [hloop] at hparts h ⊢
      have hback := List.forall₂_drop_append _ _ _ hparts
      obtain ⟨back, _, hlast, hnil, hdrop⟩ := List.forall₂_cons_right_iff.mp hback
      rw [List.forall₂_nil_right_iff.mp hnil] at hdrop
      refine ⟨parts.take loop.length, back, ?_, ?_, ?_⟩
      · conv_lhs => rw [hflat, ← List.take_append_drop loop.length parts, hdrop]
        simp
      · simpa using List.forall₂_take_append _ _ _ hparts
      · intro b hb
        obtain rfl := hlast.2 b hb
        have hne : loop ≠ [] := by
          rintro rfl
          simp at h
        rw [List.dropLast_concat, ← List.head?_append_of_ne_nil _ hne, h.2]
        simp
    · exact ⟨parts, [], by simpa using hflat, hparts, by simp⟩
  apart := by
    intro hone
    cases hloop : cleanLoop old with
    | nil => simp [cyclicPairs]
    | cons a l =>
      rw [hloop] at hone
      rw [← hloop]
      refine edges_cleanLoop ?_
      rw [hloop]
      simp only [List.length_cons] at hone ⊢
      omega

/-- **Cleaning.** What is left of a loop by its stretches is what cleaning leaves, and nothing
    else. -/
theorem cleaned_iff {old loop : Face} : Cleaned old loop ↔ cleanLoop old = loop := by
  constructor
  · exact Cleaned.cleanLoop_eq
  · rintro rfl
    exact cleaned_cleanLoop old

/-- The repeat at the end belongs to the first stretch. -/
example : Cleaned [4, 4, 7, 4, 9, 4] [4, 7, 4, 9] :=
  cleaned_iff.mpr (by decide)

/-- The corners of stretches are those that the stretches are of. -/
theorem mem_of_stretches {parts : List (List Nat)} {loop : Face} {i : Nat}
    (h : List.Forall₂ Stretch parts loop) (hi : i ∈ parts.flatten) : i ∈ loop := by
  induction h with
  | nil => exact absurd hi List.not_mem_nil
  | cons hpart _ ih =>
    rcases List.mem_append.mp hi with hi | hi
    · exact hpart.2 i hi ▸ List.mem_cons_self
    · exact List.mem_cons_of_mem _ (ih hi)

/-- Cleaning loses repeats only. -/
theorem mem_cleanLoop {old : Face} {i : Nat} : i ∈ cleanLoop old ↔ i ∈ old := by
  refine ⟨fun hi => (cleanLoop_sublist old).subset hi, fun hi => ?_⟩
  obtain ⟨parts, back, hold, hparts, hback⟩ := (cleaned_cleanLoop old).stretches
  rcases List.mem_append.mp (hold ▸ hi) with hi | hi
  · exact mem_of_stretches hparts hi
  · exact List.mem_of_mem_head? (hback i hi)

/-! ### How often a loop changes -/

/-- How often neighbours in a loop differ, once round. -/
def changes (loop : Face) : Nat :=
  (loopEdges loop).countP fun e => e.1 != e.2

/-- Squeezing loses no change on the way to what comes after the list. -/
theorem countP_zip_squeeze (l : List Nat) (c : Nat) :
    ((squeeze l).zip ((squeeze l).tail ++ [c])).countP (fun e => e.1 != e.2)
      = (l.zip (l.tail ++ [c])).countP (fun e => e.1 != e.2) := by
  fun_induction squeeze l with
  | case1 => rfl
  | case2 a => rfl
  | case3 a rest ih => simpa using ih
  | case4 a b rest h ih =>
    have hhead : (squeeze (b :: rest)).head? = some b := by simp
    obtain ⟨b', loop, hloop⟩ := List.exists_cons_of_ne_nil (by rintro h; simp [h] at hhead :
      squeeze (b :: rest) ≠ [])
    rw [hloop] at ih hhead ⊢
    obtain rfl : b' = b := by simpa using hhead
    simpa [List.countP_cons] using ih

theorem changes_squeeze (loop : Face) : changes (squeeze loop) = changes loop := by
  cases loop with
  | nil => rfl
  | cons a rest =>
    have hhead : (squeeze (a :: rest)).head? = some a := by simp
    have hcount := countP_zip_squeeze (a :: rest) a
    obtain ⟨b, loop, hloop⟩ := List.exists_cons_of_ne_nil (by rintro h; simp [h] at hhead :
      squeeze (a :: rest) ≠ [])
    rw [hloop] at hcount hhead ⊢
    obtain rfl : b = a := by simpa using hhead
    exact hcount

/-- A repeat of the first corner at the end is no change. -/
theorem changes_concat (a : Nat) (l : List Nat) : changes (a :: l ++ [a]) = changes (a :: l) := by
  have hzip : loopEdges (a :: l ++ [a]) = loopEdges (a :: l) ++ [(a, a)] := by
    show (a :: l ++ [a]).zip (l ++ [a] ++ [a]) = (a :: l).zip (l ++ [a]) ++ [(a, a)]
    rw [List.zip_append (by simp)]
    rfl
  rw [changes, changes, hzip, List.countP_append]
  simp

/-- Cleaning loses no change. -/
theorem changes_cleanLoop (loop : Face) : changes (cleanLoop loop) = changes loop := by
  rw [← changes_squeeze loop]
  unfold cleanLoop
  dsimp only
  split
  · next h =>
    obtain ⟨a, rest, hrest⟩ := List.exists_cons_of_length_pos (show 0 < (squeeze loop).length by omega)
    rw [hrest] at h ⊢
    obtain ⟨l, c, rfl⟩ : ∃ l c, rest = l ++ [c] :=
      (List.eq_nil_or_concat' rest).resolve_left (by rintro rfl; simp at h)
    obtain rfl : a = c := by
      have := h.2
      rw [List.head?_cons, ← List.cons_append, List.getLast?_append] at this
      simpa using this
    rw [← List.cons_append, List.dropLast_concat, changes_concat]
  · rfl

/-- A clean loop changes at every corner, unless it has one only. -/
theorem changes_eq_length {loop : Face} (h : ∀ e ∈ loopEdges loop, e.1 ≠ e.2) :
    changes loop = loop.length := by
  rw [changes, List.countP_eq_length.mpr fun e he => bne_iff_ne.mpr (h e he), length_cyclicPairs]

/-- **What keeps its corners.** A loop keeps three corners iff it changes three times. -/
theorem three_le_length_cleanLoop_iff_changes (loop : Face) :
    3 ≤ (cleanLoop loop).length ↔ 3 ≤ changes loop := by
  rw [← changes_cleanLoop]
  constructor
  · intro h
    rw [changes_eq_length (edges_cleanLoop (by omega))]
    exact h
  · intro h
    have hle : changes (cleanLoop loop) ≤ (loopEdges (cleanLoop loop)).length :=
      List.countP_le_length
    rw [length_cyclicPairs] at hle
    omega

/-! ### Three different corners -/

/-- Three corners of a loop are pairwise different. -/
def Spread (loop : Face) : Prop :=
  ∃ a ∈ loop, ∃ b ∈ loop, ∃ c ∈ loop, a ≠ b ∧ b ≠ c ∧ a ≠ c

instance (loop : Face) : Decidable (Spread loop) :=
  inferInstanceAs (Decidable (∃ a ∈ loop, ∃ b ∈ loop, ∃ c ∈ loop, _))

/-- Cleaning keeps three different corners. -/
theorem spread_cleanLoop {old : Face} : Spread (cleanLoop old) ↔ Spread old := by
  simp only [Spread, mem_cleanLoop]

/-- Three corners are different after a renaming where they get three names. -/
theorem spread_map {rename : Nat → Nat} {loop : Face} :
    Spread (loop.map rename) ↔ ∃ i ∈ loop, ∃ j ∈ loop, ∃ k ∈ loop,
      rename i ≠ rename j ∧ rename j ≠ rename k ∧ rename i ≠ rename k := by
  simp [Spread]

/-- Three corners that are pairwise in one relation are so in every relation that it implies for
    corners of the loop. -/
theorem exists_three_mono {loop : Face} {r s : Nat → Nat → Prop}
    (h : ∀ i ∈ loop, ∀ j ∈ loop, r i j → s i j) :
    (∃ i ∈ loop, ∃ j ∈ loop, ∃ k ∈ loop, r i j ∧ r j k ∧ r i k) →
      ∃ i ∈ loop, ∃ j ∈ loop, ∃ k ∈ loop, s i j ∧ s j k ∧ s i k := by
  rintro ⟨i, hi, j, hj, k, hk, hij, hjk, hik⟩
  exact ⟨i, hi, j, hj, k, hk, h i hi j hj hij, h j hj k hk hjk, h i hi k hk hik⟩

/-- Three different corners stay different where no two get the same name. -/
theorem spread_map_of_inj {rename : Nat → Nat} {loop : Face}
    (h : ∀ i ∈ loop, ∀ j ∈ loop, rename i = rename j → i = j) :
    Spread (loop.map rename) ↔ Spread loop := by
  rw [spread_map]
  exact ⟨exists_three_mono fun _ _ _ _ hne heq => hne (congrArg rename heq),
    exists_three_mono fun i hi j hj hne heq => hne (h i hi j hj heq)⟩

/-- The loop that goes from `a` to `b` and back, several times. -/
def toAndFro (a b : Nat) : Nat → Face
  | 0 => []
  | n + 1 => a :: b :: toAndFro a b n

@[simp] theorem length_toAndFro (a b n : Nat) : (toAndFro a b n).length = 2 * n := by
  induction n with
  | zero => rfl
  | succ n ih =>
    simp only [toAndFro, List.length_cons, ih]
    omega

theorem mem_toAndFro {a b n i : Nat} (h : i ∈ toAndFro a b n) : i = a ∨ i = b := by
  induction n with
  | zero => exact absurd h List.not_mem_nil
  | succ n ih =>
    rcases List.mem_cons.mp h with rfl | h
    · exact .inl rfl
    · rcases List.mem_cons.mp h with rfl | h
      · exact .inr rfl
      · exact ih h

theorem not_spread_toAndFro (a b n : Nat) : ¬ Spread (toAndFro a b n) := by
  rintro ⟨i, hi, j, hj, k, hk, hij, hjk, hik⟩
  rcases mem_toAndFro hi with rfl | rfl <;> rcases mem_toAndFro hj with rfl | rfl <;>
    rcases mem_toAndFro hk with rfl | rfl <;> contradiction

/-- A way back to `a` over `a` and `b` only, on which neighbours differ. -/
theorem eq_toAndFro_of_isChain {a b : Nat} (l : List Nat)
    (hchain : (a :: (l ++ [a])).IsChain (· ≠ ·)) (hl : ∀ i ∈ l, i = a ∨ i = b) :
    ∃ n, a :: l = toAndFro a b n := by
  match l with
  | [] => simp at hchain
  | [i] =>
    have hne : a ≠ i := by simpa using (List.isChain_cons_cons.mp hchain).1
    obtain rfl := (hl i (by simp)).resolve_left hne.symm
    exact ⟨1, rfl⟩
  | i :: j :: rest =>
    obtain ⟨hne, hchain⟩ := List.isChain_cons_cons.mp hchain
    obtain ⟨hne', hchain⟩ := List.isChain_cons_cons.mp hchain
    -- Away from `a` there is only `b`, and away from that only `a`.
    obtain rfl := (hl i (by simp)).resolve_left (Ne.symm hne)
    obtain rfl := (hl j (by simp)).resolve_right (Ne.symm hne')
    obtain ⟨n, hn⟩ := eq_toAndFro_of_isChain rest hchain fun k hk => hl k (by simp [hk])
    exact ⟨n + 1, by rw [hn]; rfl⟩

/-- A loop of at least three corners whose neighbours differ has three different corners, or it
    goes to and fro between two. -/
theorem spread_or_eq_toAndFro {loop : Face} (hlen : 3 ≤ loop.length)
    (h : ∀ e ∈ loopEdges loop, e.1 ≠ e.2) :
    Spread loop ∨ ∃ a b n, a ≠ b ∧ 2 ≤ n ∧ loop = toAndFro a b n := by
  match loop with
  | [] | [_] => simp at hlen
  | a :: b :: rest =>
    have hchain := (forall_cyclicPairs_cons (· ≠ ·) a (b :: rest)).mp h
    have hab : a ≠ b := (List.isChain_cons_cons.mp hchain).1
    by_cases hthird : ∃ c ∈ rest, c ≠ a ∧ c ≠ b
    · obtain ⟨c, hc, hca, hcb⟩ := hthird
      exact .inl ⟨a, by simp, b, by simp, c, by simp [hc], hab, hcb.symm, hca.symm⟩
    · right
      have hall : ∀ i ∈ b :: rest, i = a ∨ i = b := by
        intro i hi
        rcases List.mem_cons.mp hi with rfl | hi
        · exact .inr rfl
        · by_contra hnot
          exact hthird ⟨i, hi, not_or.mp hnot⟩
      obtain ⟨n, hn⟩ := eq_toAndFro_of_isChain (b :: rest) hchain hall
      refine ⟨a, b, n, hab, ?_, hn⟩
      have := congrArg List.length hn
      rw [length_toAndFro] at this
      omega

/-- **Three corners or two.** A loop of at least three corners whose neighbours differ lacks three
    different corners iff it goes to and fro between two. -/
theorem not_spread_iff {loop : Face} (hlen : 3 ≤ loop.length)
    (h : ∀ e ∈ loopEdges loop, e.1 ≠ e.2) :
    ¬ Spread loop ↔ ∃ a b n, a ≠ b ∧ 2 ≤ n ∧ loop = toAndFro a b n := by
  constructor
  · exact (spread_or_eq_toAndFro hlen h).resolve_left
  · rintro ⟨a, b, n, -, -, rfl⟩
    exact not_spread_toAndFro a b n

end CollisionMesh
