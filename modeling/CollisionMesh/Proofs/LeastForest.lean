import CollisionMesh.Mesh.LeastForest
import Mathlib.Logic.Relation
import Mathlib.Order.Fin.Basic
import Mathlib.Order.Bounds.Basic
import Mathlib.Order.MinMax

namespace CollisionMesh.LeastForest

open Relation

/-!
# Least forests hold the classes of a relation

The least member of a class is found by going to the parent until nothing changes.
Halving the path on the way is only a shortcut, so the classes can be spoken of by
the plain walk:

* `top` — the root above a number, the forest left as it is; `find_fst` and
  `top_find` say that `find` answers it and keeps it for every number;
* `top_union` — joining two classes gives both of them the smaller of the two roots;
* `unions`, `top_unions_iff` — where pairs are joined in turn, two numbers have the same
  root iff a chain of pairs links them, in either direction;
* `least_le`, `least_unions_iff`, `least_ofRelation_iff` — the same for `least`, which works
  on plain numbers; `least_eq_of_forall_iff` — it only depends on the classes.
-/

variable {n : Nat}

/-! ### The root above a number -/

/-- A parent that is another number is a smaller one. -/
theorem parent_lt (f : LeastForest n) (i : Fin n) (h : f.parent.get i ≠ i) : f.parent.get i < i :=
  lt_of_le_of_ne (f.parent_le i) h

/-- The root above `i`. -/
def top (f : LeastForest n) (i : Fin n) : Fin n :=
  if h : f.parent.get i = i then i else f.top (f.parent.get i)
termination_by i.val
decreasing_by exact f.parent_lt i h

/-- A root is above itself. -/
theorem top_of_parent_eq {f : LeastForest n} {i : Fin n} (h : f.parent.get i = i) : f.top i = i := by
  rw [top, dif_pos h]

/-- A number and its parent have the same root. -/
theorem top_parent (f : LeastForest n) (i : Fin n) : f.top (f.parent.get i) = f.top i := by
  by_cases h : f.parent.get i = i
  · rw [h]
  · rw [eq_comm, top, dif_neg h]

/-- What is above a number is a root. -/
theorem parent_top (f : LeastForest n) (i : Fin n) : f.parent.get (f.top i) = f.top i := by
  fun_induction f.top i with
  | case1 i h => simpa only [top_of_parent_eq h] using h
  | case2 i h ih => simpa only [top_parent] using ih

/-- A root is its own root. -/
@[simp] theorem top_top (f : LeastForest n) (i : Fin n) : f.top (f.top i) = f.top i :=
  top_of_parent_eq (f.parent_top i)

/-- The root above a number is not greater. -/
theorem top_le (f : LeastForest n) (i : Fin n) : f.top i ≤ i := by
  fun_induction f.top i with
  | case1 i h => exact le_refl i
  | case2 i h ih => exact le_trans ih (f.parent_le i)

/-! ### Links -/

theorem get_set (parent : Vector (Fin n) n) (i p j : Fin n) :
    (parent.set i p i.isLt).get j = if i = j then p else parent.get j := by
  change (parent.set i p i.isLt)[j.val] = if i = j then p else parent[j.val]
  simp only [Vector.getElem_set, Fin.ext_iff]

/-- A link changes one parent. -/
theorem parent_link (f : LeastForest n) (i p : Fin n) (h : p ≤ i) (j : Fin n) :
    (f.link i p h).parent.get j = if i = j then p else f.parent.get j :=
  get_set f.parent i p j

/-- A link to a number of the same class changes no root, if a root only links to
    itself. -/
theorem top_link_of_same {f : LeastForest n} {i p : Fin n} (h : p ≤ i)
    (hsame : f.top p = f.top i) (hroot : p = i → f.parent.get i = i) (j : Fin n) :
    (f.link i p h).top j = f.top j := by
  induction j using WellFoundedLT.induction with
  | ind j ih =>
    have hj := f.parent_link i p h j
    by_cases hij : i = j
    -- Only the parent of `i` changed: to itself if it was a root, else to a smaller number.
    · subst hij
      rw [if_pos rfl] at hj
      by_cases hp : p = i
      · rw [top_of_parent_eq (hj.trans hp), top_of_parent_eq (hroot hp)]
      -- The new parent is smaller, so its root is known by induction.
      · rw [← top_parent, hj, ih p (lt_of_le_of_ne h hp), hsame]
    · rw [if_neg hij] at hj
      by_cases hp : f.parent.get j = j
      · rw [top_of_parent_eq (hj.trans hp), top_of_parent_eq hp]
      · rw [← top_parent, hj, ih _ (f.parent_lt j hp), top_parent]

/-- A link from a root to a smaller root moves the class of the first to the second. -/
theorem top_link_roots {f : LeastForest n} {a b : Fin n} (ha : f.parent.get a = a)
    (hb : f.parent.get b = b) (h : a < b) (j : Fin n) :
    (f.link b a h.le).top j = if f.top j = b then a else f.top j := by
  have hlink := f.parent_link b a h.le
  -- The smaller root stays one, as its own parent does not change.
  have hnew : (f.link b a h.le).top a = a := by
    apply top_of_parent_eq
    rw [hlink, if_neg h.ne', ha]
  induction j using WellFoundedLT.induction with
  | ind j ih =>
    have hj := hlink j
    by_cases hbj : b = j
    · subst hbj
      rw [if_pos rfl] at hj
      rw [← top_parent, hj, hnew, top_of_parent_eq hb, if_pos rfl]
    · rw [if_neg hbj] at hj
      by_cases hp : f.parent.get j = j
      · rw [top_of_parent_eq (hj.trans hp), top_of_parent_eq hp, if_neg (Ne.symm hbj)]
      · rw [← top_parent, hj, ih _ (f.parent_lt j hp), top_parent]

/-! ### Finding and joining -/

/-- The forest that `find` goes on with, when `i` is no root. -/
def halve (f : LeastForest n) (i : Fin n) : LeastForest n :=
  f.link i (f.parent.get (f.parent.get i)) (f.grandparent_le i)

/-- Halving one step of a path changes no root. -/
theorem top_halve (f : LeastForest n) (i j : Fin n) : (f.halve i).top j = f.top j := by
  apply top_link_of_same
  -- A number and its grandparent are in one class. If they are the same number, so is the
  -- parent between them, since parents are not greater.
  · rw [top_parent, top_parent]
  · intro h
    have hp := f.parent_le i
    have hg : f.parent.get (f.parent.get i) ≤ f.parent.get i := f.parent_le _
    rw [h] at hg
    exact le_antisymm hp hg

/-- `find` answers the root. -/
theorem find_fst (f : LeastForest n) (i : Fin n) : (f.find i).1 = f.top i := by
  fun_induction f.find i with
  | case1 f i h => exact (top_of_parent_eq h).symm
  | case2 f i h ih =>
    calc _ = (f.halve i).top (f.parent.get (f.parent.get i)) := ih
      _ = f.top (f.parent.get (f.parent.get i)) := f.top_halve i _
      _ = f.top i := by rw [top_parent, top_parent]

/-- `find` changes no root. -/
theorem top_find (f : LeastForest n) (i j : Fin n) : (f.find i).2.top j = f.top j := by
  fun_induction f.find i with
  | case1 f i h => rfl
  | case2 f i h ih => exact ih.trans (f.top_halve i j)

@[simp] theorem root_eq_top (f : LeastForest n) (i : Fin n) : f.root i = f.top i :=
  f.find_fst i

/-- **Joining.** Both classes get the smaller of the two roots, and no other class
    changes. -/
theorem top_union (f : LeastForest n) (i j k : Fin n) :
    (f.union i j).top k
      = if f.top k = f.top i ∨ f.top k = f.top j then min (f.top i) (f.top j) else f.top k := by
  -- The two forests that `union` passes through have the roots of the first one.
  have hi : (f.find i).1 = f.top i := f.find_fst i
  have hj : ((f.find i).2.find j).1 = f.top j := by rw [find_fst, top_find]
  have hg : ∀ l, ((f.find i).2.find j).2.top l = f.top l := fun l => by rw [top_find, top_find]
  have hroot : ∀ l, ((f.find i).2.find j).2.parent.get (f.top l) = f.top l := by
    intro l
    simpa only [hg] using parent_top ((f.find i).2.find j).2 l
  unfold union
  simp only [hi, hj]
  by_cases hlt : f.top i < f.top j
  · rw [dif_pos hlt, top_link_roots (hroot i) (hroot j) hlt, hg, min_eq_left hlt.le]
    -- The root of `j` was linked to that of `i`, so its class is the one that moves.
    by_cases hk : f.top k = f.top j
    · rw [if_pos hk, if_pos (Or.inr hk)]
    · rw [if_neg hk]
      split
      · next h => exact h.resolve_right hk
      · rfl
  · rw [dif_neg hlt]
    by_cases hgt : f.top j < f.top i
    · rw [dif_pos hgt, top_link_roots (hroot j) (hroot i) hgt, hg, min_eq_right hgt.le]
      -- Here it is the class of `i` that moves.
      by_cases hk : f.top k = f.top i
      · rw [if_pos hk, if_pos (Or.inl hk)]
      · rw [if_neg hk]
        split
        · next h => exact h.resolve_left hk
        · rfl
    -- The roots are one and the same, and nothing is linked.
    · have heq : f.top i = f.top j := le_antisymm (not_lt.mp hgt) (not_lt.mp hlt)
      rw [dif_neg hgt, hg, heq, min_self]
      split
      · next h => exact h.elim id id
      · rfl

/-! ### The classes of a relation -/

/-- Nothing is joined in the forest of single numbers. -/
@[simp] theorem top_singletons (i : Fin n) : (singletons n).top i = i :=
  top_of_parent_eq (Vector.getElem_ofFn i.isLt)

/-- Numbers that share a class keep sharing one when classes are joined. -/
theorem top_union_of_same {f : LeastForest n} {a b : Fin n} (h : f.top a = f.top b) (i j : Fin n) :
    (f.union i j).top a = (f.union i j).top b := by
  rw [top_union, top_union, h]

/-- The two numbers that are joined share a class. -/
theorem top_union_joined (f : LeastForest n) (i j : Fin n) :
    (f.union i j).top i = (f.union i j).top j := by
  rw [top_union, top_union, if_pos (Or.inl rfl), if_pos (Or.inr rfl)]

/-- Joining related numbers keeps the classes within those of the relation. -/
theorem eqvGen_of_top_union {r : Fin n → Fin n → Prop} {f : LeastForest n} {i j : Fin n}
    (hf : ∀ a b, f.top a = f.top b → EqvGen r a b) (hij : EqvGen r i j) (a b : Fin n)
    (h : (f.union i j).top a = (f.union i j).top b) : EqvGen r a b := by
  have hmem : ∀ c, f.top c = f.top i ∨ f.top c = f.top j → EqvGen r c i := by
    rintro c (hc | hc)
    · exact hf c i hc
    · exact (hf c j hc).trans _ _ _ (hij.symm _ _)
  -- What is outside both classes keeps its root, which is neither of the two.
  have hout : ∀ c d, ¬(f.top c = f.top i ∨ f.top c = f.top j) →
      f.top c = min (f.top i) (f.top j) → EqvGen r c d := by
    intro c d hc hmin
    rcases min_choice (f.top i) (f.top j) with hm | hm
    · exact absurd (Or.inl (hmin.trans hm)) hc
    · exact absurd (Or.inr (hmin.trans hm)) hc
  rw [top_union, top_union] at h
  -- Two numbers that now share a root are both in the joined class, or both outside of it.
  by_cases ha : f.top a = f.top i ∨ f.top a = f.top j <;>
    by_cases hb : f.top b = f.top i ∨ f.top b = f.top j
  · exact (hmem a ha).trans _ _ _ ((hmem b hb).symm _ _)
  · rw [if_pos ha, if_neg hb] at h
    exact (hout b a hb h.symm).symm _ _
  · rw [if_neg ha, if_pos hb] at h
    exact hout a b ha h
  · rw [if_neg ha, if_neg hb] at h
    exact hf a b h

/-- The forest after classes were joined pair by pair. -/
def unions (f : LeastForest n) (pairs : List (Fin n × Fin n)) : LeastForest n :=
  pairs.foldl (fun f pair => f.union pair.1 pair.2) f

/-- What shares a class goes on to. -/
theorem top_unions_of_same {f : LeastForest n} {a b : Fin n} (h : f.top a = f.top b)
    (pairs : List (Fin n × Fin n)) : (f.unions pairs).top a = (f.unions pairs).top b := by
  induction pairs generalizing f with
  | nil => exact h
  | cons pair rest ih => exact ih (top_union_of_same h pair.1 pair.2)

/-- The two of a pair share a class. -/
theorem top_unions_of_mem {i j : Fin n} {pairs : List (Fin n × Fin n)} (h : (i, j) ∈ pairs)
    (f : LeastForest n) : (f.unions pairs).top i = (f.unions pairs).top j := by
  induction pairs generalizing f with
  | nil => exact absurd h List.not_mem_nil
  | cons pair rest ih =>
    rcases List.mem_cons.mp h with rfl | h
    · exact top_unions_of_same (f.top_union_joined i j) rest
    · exact ih h _

/-- Joining related numbers pair by pair keeps the classes within those of the relation. -/
theorem eqvGen_of_top_unions {r : Fin n → Fin n → Prop} {pairs : List (Fin n × Fin n)}
    (hpairs : ∀ pair ∈ pairs, r pair.1 pair.2) {f : LeastForest n}
    (hf : ∀ a b, f.top a = f.top b → EqvGen r a b) (a b : Fin n)
    (h : (f.unions pairs).top a = (f.unions pairs).top b) : EqvGen r a b := by
  induction pairs generalizing f with
  | nil => exact hf a b h
  | cons pair rest ih =>
    have hpair : EqvGen r pair.1 pair.2 := .rel _ _ (hpairs pair List.mem_cons_self)
    exact ih (fun p hp => hpairs p (List.mem_cons_of_mem pair hp)) (eqvGen_of_top_union hf hpair) h

/-- **The classes are the generated ones.** Where just the related numbers are joined, in whatever
    order and however often, two numbers have the same root iff the relation links them by a chain
    of steps, in either direction. -/
theorem top_unions_iff {r : Fin n → Fin n → Prop} {pairs : List (Fin n × Fin n)}
    (hpairs : ∀ i j, (i, j) ∈ pairs ↔ r i j) (a b : Fin n) :
    ((singletons n).unions pairs).top a = ((singletons n).unions pairs).top b ↔ EqvGen r a b := by
  constructor
  · refine eqvGen_of_top_unions (fun pair hpair => (hpairs _ _).mp hpair) ?_ a b
    intro a b hab
    rw [top_singletons, top_singletons] at hab
    exact hab ▸ EqvGen.refl a
  · intro h
    induction h with
    | rel a b hab => exact top_unions_of_mem ((hpairs a b).mpr hab) _
    | refl a => rfl
    | symm a b _ ih => exact ih.symm
    | trans a b c _ _ hab hbc => exact hab.trans hbc

/-- The relation on the numbers of a forest. -/
abbrev Linked (related : Nat → Nat → Bool) (i j : Fin n) : Prop :=
  related i j = true

/-- The classes of a relation come from its pairs, row by row. -/
theorem ofRelation_eq_unions (related : Nat → Nat → Bool) :
    ofRelation n related = (singletons n).unions ((List.finRange n).flatMap fun i : Fin n =>
      ((List.finRange n).filter fun j : Fin n => related i j).map fun j => (i, j)) := by
  simp only [unions, List.foldl_flatMap, List.foldl_map, List.foldl_filter]
  rfl

/-! ### The least member by plain numbers -/

theorem least_of_lt (f : LeastForest n) {i : Nat} (h : i < n) : f.least i = f.top ⟨i, h⟩ := by
  rw [least, dif_pos h, root_eq_top]

/-- The least member of a class is not greater than any member. -/
theorem least_le (f : LeastForest n) (i : Nat) : f.least i ≤ i := by
  by_cases h : i < n
  · rw [least_of_lt f h]
    exact f.top_le ⟨i, h⟩
  · rw [least, dif_neg h]

theorem least_lt (f : LeastForest n) {i : Nat} (h : i < n) : f.least i < n :=
  lt_of_le_of_lt (f.least_le i) h

/-- The least member of a class is that of its own class. -/
theorem least_least (f : LeastForest n) (i : Nat) : f.least (f.least i) = f.least i := by
  by_cases h : i < n
  · rw [least_of_lt f (f.least_lt h)]
    simp only [least_of_lt f h, Fin.eta, top_top]
  · have : f.least i = i := by rw [least, dif_neg h]
    rw [this, this]

/-- Two numbers have the same least member iff the relation links them. -/
theorem least_unions_iff {r : Fin n → Fin n → Prop} {pairs : List (Fin n × Fin n)}
    (hpairs : ∀ i j, (i, j) ∈ pairs ↔ r i j) {i j : Nat} (hi : i < n) (hj : j < n) :
    ((singletons n).unions pairs).least i = ((singletons n).unions pairs).least j
      ↔ EqvGen r ⟨i, hi⟩ ⟨j, hj⟩ := by
  rw [least_of_lt _ hi, least_of_lt _ hj, ← Fin.ext_iff, top_unions_iff hpairs]

theorem least_ofRelation_iff (related : Nat → Nat → Bool) {i j : Nat} (hi : i < n) (hj : j < n) :
    (ofRelation n related).least i = (ofRelation n related).least j
      ↔ EqvGen (Linked (n := n) related) ⟨i, hi⟩ ⟨j, hj⟩ := by
  rw [ofRelation_eq_unions]
  refine least_unions_iff (fun i j => ?_) hi hj
  simp [Linked]

/-- Where related numbers have the same value, the numbers of a class have. -/
theorem eq_of_least_ofRelation_eq {β : Type} {related : Nat → Nat → Bool} {value : Nat → β}
    (h : ∀ i j, i < n → j < n → related i j = true → value i = value j) {i j : Nat} (hi : i < n)
    (hj : j < n) (hclass : (ofRelation n related).least i = (ofRelation n related).least j) :
    value i = value j := by
  have hsame : Equivalence fun a b : Fin n => value a = value b :=
    ⟨fun _ => rfl, Eq.symm, Eq.trans⟩
  have hle : Linked (n := n) related ≤ fun a b : Fin n => value a = value b :=
    fun a b hab => h a b a.isLt b.isLt hab
  exact hsame.eqvGen_iff.mp (EqvGen.mono hle _ _ ((least_ofRelation_iff related hi hj).mp hclass))

/-- The least member of a class is the least number with the same least member. -/
theorem isLeast_least (f : LeastForest n) {i : Nat} (hi : i < n) :
    IsLeast {j | j < n ∧ f.least j = f.least i} (f.least i) := by
  refine ⟨⟨f.least_lt hi, f.least_least i⟩, ?_⟩
  rintro j ⟨-, hj⟩
  exact hj ▸ f.least_le j

/-- Forests with the same classes have the same least members. -/
theorem least_eq_of_forall_iff {f g : LeastForest n}
    (h : ∀ i j, i < n → j < n → (f.least i = f.least j ↔ g.least i = g.least j)) :
    f.least = g.least := by
  funext i
  by_cases hi : i < n
  · have hclass : {j | j < n ∧ f.least j = f.least i} = {j | j < n ∧ g.least j = g.least i} :=
      Set.ext fun j => and_congr_right fun hj => h j i hj hi
    have hleast := f.isLeast_least hi
    rw [hclass] at hleast
    exact hleast.unique (g.isLeast_least hi)
  · rw [least, least, dif_neg hi, dif_neg hi]

end CollisionMesh.LeastForest
