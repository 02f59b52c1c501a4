import Mathlib.Data.List.Induction
import Mathlib.Data.List.Nodup
import Mathlib.Data.List.Perm.Subperm

namespace CollisionMesh

/-!
# Elements by first use

`List.eraseDups` keeps the first of every element. So the result grows at its end
as the list does: by an element that is new, and not at all by one that is not.

* `eraseDups_concat` — one more element;
* `nodup_eraseDups` — no element is left twice;
* `eraseDups_map` — elements under other names; `map_idxOf_eq_range` — under their places;
* `pairwise_idxOf_eraseDups`, `eraseDups_eq_range_iff` — their order, and numbers that count up;
* `eraseDups_of_forall_eq` — a stretch of equal elements is one of them;
* `eraseDups_flatMap_sublist`, `eraseDups_flatMap` — stretches of equal elements keep their order;
* `filter_flatMap_key` — each of them can be found again.
-/

variable {β : Type} [DecidableEq β]

/-- One more element is put at the end, unless it was there before. -/
theorem eraseDups_concat (l : List β) (a : β) :
    (l ++ [a]).eraseDups = if a ∈ l then l.eraseDups else l.eraseDups ++ [a] := by
  rw [List.eraseDups_append]
  by_cases h : a ∈ l
  · rw [if_pos h]
    simp [List.removeAll, h]
  · rw [if_neg h]
    simp [List.removeAll, h, List.eraseDups_cons]

/-- No element is left twice. -/
theorem nodup_eraseDups (l : List β) : l.eraseDups.Nodup := by
  induction l using List.reverseRecOn with
  | nil => simp
  | append_singleton l a ih =>
    rw [eraseDups_concat]
    split
    · exact ih
    · next h =>
      rw [List.nodup_append]
      refine ⟨ih, by simp, ?_⟩
      intro b hb c hc
      rw [List.mem_eraseDups] at hb
      rw [List.mem_singleton] at hc
      exact fun hbc => h (hc ▸ hbc ▸ hb)

/-- Where different elements get different names, the names by first use are those of the elements
    by first use. -/
theorem eraseDups_map {γ : Type} [DecidableEq γ] {rename : β → γ} {l : List β}
    (hrename : ∀ a ∈ l, ∀ b ∈ l, rename a = rename b → a = b) :
    (l.map rename).eraseDups = l.eraseDups.map rename := by
  induction l using List.reverseRecOn with
  | nil => simp
  | append_singleton l a ih =>
    have hmem : rename a ∈ l.map rename ↔ a ∈ l := by
      refine ⟨fun h => ?_, List.mem_map_of_mem⟩
      obtain ⟨b, hb, heq⟩ := List.mem_map.mp h
      obtain rfl := hrename b (by simp [hb]) a (by simp) heq
      exact hb
    rw [List.map_append, List.map_singleton, eraseDups_concat, eraseDups_concat,
      ih fun b hb c hc => hrename b (by simp [hb]) c (by simp [hc])]
    by_cases ha : a ∈ l
    · rw [if_pos ha, if_pos (hmem.mpr ha)]
    · rw [if_neg ha, if_neg (mt hmem.mp ha), List.map_append, List.map_singleton]

/-- The places of the elements of a list without repeats count up. -/
theorem map_idxOf_eq_range {l : List β} (h : l.Nodup) :
    (l.map fun a => l.idxOf a) = List.range l.length := by
  apply List.ext_getElem (by simp)
  intro i hi _
  rw [List.getElem_map, List.getElem_range, h.idxOf_getElem]

/-- Elements by first use stand in the order of the places where they are first. -/
theorem pairwise_idxOf_eraseDups (l : List β) :
    l.eraseDups.Pairwise fun a b => l.idxOf a < l.idxOf b := by
  induction l using List.reverseRecOn with
  | nil => simp
  | append_singleton l a ih =>
    -- An element that was there before keeps its place.
    have hold : (l.eraseDups).Pairwise fun b c => (l ++ [a]).idxOf b < (l ++ [a]).idxOf c := by
      refine ih.imp_of_mem fun hb hc hlt => ?_
      rwa [List.idxOf_append_of_mem (List.mem_eraseDups.mp hb),
        List.idxOf_append_of_mem (List.mem_eraseDups.mp hc)]
    rw [eraseDups_concat]
    split
    · exact hold
    · next ha =>
      refine List.pairwise_append.mpr ⟨hold, List.pairwise_singleton _ _, ?_⟩
      intro b hb c hc
      obtain rfl := List.mem_singleton.mp hc
      rw [List.idxOf_append_of_mem (List.mem_eraseDups.mp hb), List.idxOf_append_of_notMem ha]
      exact Nat.lt_add_right _ (List.idxOf_lt_length_of_mem (List.mem_eraseDups.mp hb))

/-- Numbers by first use count up iff they are those below a bound and a smaller one is first
    used before a greater one. -/
theorem eraseDups_eq_range_iff {l : List Nat} {n : Nat} : l.eraseDups = List.range n ↔
    (∀ i, i ∈ l ↔ i < n) ∧ ∀ i j, i < j → j < n → l.idxOf i < l.idxOf j := by
  constructor
  · intro h
    refine ⟨fun i => by rw [← List.mem_eraseDups, h, List.mem_range], fun i j hij hj => ?_⟩
    have hsorted := pairwise_idxOf_eraseDups l
    rw [h, List.pairwise_iff_getElem] at hsorted
    have hlen := List.length_range (n := n)
    have hplaces := hsorted i j (by omega) (by omega) hij
    rwa [List.getElem_range, List.getElem_range] at hplaces
  · rintro ⟨hmem, hlt⟩
    have hperm : l.eraseDups.Perm (List.range n) := by
      refine (List.perm_ext_iff_of_nodup (nodup_eraseDups l) List.nodup_range).mpr fun i => ?_
      rw [List.mem_eraseDups, hmem, List.mem_range]
    have hrange : (List.range n).Pairwise fun a b => l.idxOf a < l.idxOf b := by
      rw [List.pairwise_iff_getElem]
      intro i j _ hj hij
      simp only [List.getElem_range, List.length_range] at hj ⊢
      exact hlt i j hij hj
    refine hperm.eq_of_pairwise ?_ (pairwise_idxOf_eraseDups l) hrange
    exact fun a b _ _ hab hba => absurd hab (Nat.lt_asymm hba)

/-- Equal elements are one element. -/
theorem eraseDups_of_forall_eq {l : List β} {b : β} (hne : l ≠ []) (h : ∀ c ∈ l, c = b) :
    l.eraseDups = [b] := by
  obtain ⟨first, later, rfl⟩ := List.exists_cons_of_ne_nil hne
  have hnone : later.filter (fun c => !c == first) = [] := by
    rw [List.filter_eq_nil_iff]
    intro c hc
    simp [h first List.mem_cons_self, h c (List.mem_cons_of_mem first hc)]
  rw [List.eraseDups_cons, hnone, List.eraseDups_nil, h first List.mem_cons_self]

/-- Where a list has a stretch of equal elements for every part of something, no two parts
    with the same element, its elements by first use stand in the order of the parts. -/
theorem eraseDups_flatMap_sublist {γ : Type} {parts : List γ} {key : γ → β} {f : γ → List β}
    (hnodup : (parts.map key).Nodup) (hf : ∀ part ∈ parts, ∀ b ∈ f part, b = key part) :
    ((parts.flatMap f).eraseDups).Sublist (parts.map key) := by
  induction parts with
  | nil => simp
  | cons part rest ih =>
    obtain ⟨hnew, hrest⟩ := List.nodup_cons.mp hnodup
    have hlater := fun p hp => hf p (List.mem_cons_of_mem part hp)
    -- None of the later stretches has the element of the first.
    have hremove : (rest.flatMap f).removeAll (f part) = rest.flatMap f := by
      rw [List.removeAll, List.filter_eq_self]
      intro b hb
      obtain ⟨p, hp, hb⟩ := List.mem_flatMap.mp hb
      obtain rfl := hlater p hp b hb
      simp only [Bool.not_eq_true', List.elem_eq_mem, decide_eq_false_iff_not]
      exact fun hmem => hnew (hf part List.mem_cons_self _ hmem ▸ List.mem_map_of_mem hp)
    have hfirst : ((f part).eraseDups).Sublist [key part] := by
      by_cases hne : f part = []
      · simp [hne]
      · rw [eraseDups_of_forall_eq hne (hf part List.mem_cons_self)]
    rw [List.flatMap_cons, List.eraseDups_append, hremove, List.map_cons]
    exact hfirst.append (ih hrest hlater)

/-- Where none of the stretches is empty, no element is missing. -/
theorem eraseDups_flatMap {γ : Type} {parts : List γ} {key : γ → β} {f : γ → List β}
    (hnodup : (parts.map key).Nodup) (hf : ∀ part ∈ parts, ∀ b ∈ f part, b = key part)
    (hne : ∀ part ∈ parts, f part ≠ []) : (parts.flatMap f).eraseDups = parts.map key := by
  refine (eraseDups_flatMap_sublist hnodup hf).eq_of_length_le ?_
  refine (List.subperm_of_subset hnodup ?_).length_le
  intro k hk
  obtain ⟨part, hpart, rfl⟩ := List.mem_map.mp hk
  obtain ⟨b, rest, hb⟩ := List.exists_cons_of_ne_nil (hne part hpart)
  have hmem : b ∈ f part := hb ▸ List.mem_cons_self
  rw [List.mem_eraseDups, ← hf part hpart b hmem]
  exact List.mem_flatMap.mpr ⟨part, hpart, hmem⟩

/-- Where the elements of a stretch can be told by the key of its part, and no two parts have the
    same key, the stretch is what has that key. -/
theorem filter_flatMap_key {γ δ : Type} {parts : List γ} {key : γ → β} {view : δ → β}
    {f : γ → List δ} (hnodup : (parts.map key).Nodup)
    (hf : ∀ part ∈ parts, ∀ d ∈ f part, view d = key part) {part : γ} (hpart : part ∈ parts) :
    (parts.flatMap f).filter (fun d => view d == key part) = f part := by
  induction parts with
  | nil => exact absurd hpart List.not_mem_nil
  | cons first rest ih =>
    obtain ⟨hnew, hrest⟩ := List.nodup_cons.mp hnodup
    have hlater := fun p hp => hf p (List.mem_cons_of_mem first hp)
    -- Either the part is the first, and no later stretch has its key, or it is a later one.
    have hnone : ∀ p, p ∈ first :: rest → ∀ k, key p ≠ k →
        (f p).filter (fun d => view d == k) = [] := by
      intro p hp k hk
      rw [List.filter_eq_nil_iff]
      intro d hd heq
      exact hk ((hf p hp d hd).symm.trans (eq_of_beq heq))
    rw [List.flatMap_cons, List.filter_append]
    rcases List.mem_cons.mp hpart with rfl | hmem
    · have hall : (f part).filter (fun d => view d == key part) = f part :=
        List.filter_eq_self.mpr fun d hd => beq_iff_eq.mpr (hf part hpart d hd)
      have hlast : (rest.flatMap f).filter (fun d => view d == key part) = [] := by
        rw [List.filter_flatMap, List.flatMap_eq_nil_iff]
        exact fun p hp => hnone p (List.mem_cons_of_mem part hp) _
          fun heq => hnew (heq ▸ List.mem_map_of_mem hp)
      rw [hall, hlast, List.append_nil]
    · rw [hnone first List.mem_cons_self _ fun heq => hnew (heq ▸ List.mem_map_of_mem hmem),
        ih hrest hlater hmem, List.nil_append]

end CollisionMesh
