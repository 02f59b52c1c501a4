import CollisionMesh.Proofs.LeastForest
import CollisionMesh.Proofs.Runs
import Mathlib.Algebra.Order.Ring.Nat
import Mathlib.Data.List.Induction

namespace CollisionMesh.LeastForest

open Relation

/-!
# Looking up and joining in any order

A forest is asked for least members and to join classes, in any order. Turn by turn each of this is
a way up to a root, during which parents change. That no number is less than its parent is then not
given, but kept by every turn, and it is why every way up ends.

* `Errand`, `after`, `answers` — what is asked, and what becomes of a forest;
* `Joined`, `top_after_iff`, `isLeast_top_after` — its classes and their least members;
* `Answered` — the answers that errands ought to get; `answered_answers` — they get these;
* `SameTree`, `sameTree_halved_iff` — classes by parents; halving a path does not change them;
* `Moment`, `Advances` — the same work turn by turn, where parents may be any numbers;
* `Advances.orderly`, `Advances.unique`, `way_to_finished` — what a turn keeps, and where all lead;
* `run_of_errands` — every run of any errands.
-/

variable {n : Nat}

/-! ### Errands -/

/-- Something that a forest is asked for. -/
inductive Errand (n : Nat) where
  /-- The least member of the class of `i`. -/
  | find (i : Fin n)
  /-- That the classes of `i` and `j` become one. -/
  | union (i j : Fin n)

/-- The forest after an errand. -/
def serve (f : LeastForest n) : Errand n → LeastForest n
  | .find i => (f.find i).2
  | .union i j => f.union i j

/-- The forest after some errands. -/
def after (f : LeastForest n) (errands : List (Errand n)) : LeastForest n :=
  errands.foldl serve f

/-- The answers to some errands, in turn. -/
def answers (f : LeastForest n) : List (Errand n) → List (Fin n)
  | [] => []
  | .find i :: rest => (f.find i).1 :: (f.find i).2.answers rest
  | .union i j :: rest => (f.union i j).answers rest

theorem answers_append (f : LeastForest n) (errands later : List (Errand n)) :
    f.answers (errands ++ later) = f.answers errands ++ (f.after errands).answers later := by
  induction errands generalizing f with
  | nil => rfl
  | cons errand rest ih =>
    cases errand with
    | find i => exact congrArg _ (ih (f.find i).2)
    | union i j => exact ih (f.union i j)

/-! ### Classes -/

/-- One of the errands joins the two. -/
def Joined (errands : List (Errand n)) (i j : Fin n) : Prop :=
  .union i j ∈ errands

/-- The pairs that errands join, in turn. -/
def joins (errands : List (Errand n)) : List (Fin n × Fin n) :=
  errands.filterMap fun
    | .find _ => none
    | .union i j => some (i, j)

theorem mem_joins {errands : List (Errand n)} {i j : Fin n} :
    (i, j) ∈ joins errands ↔ Joined errands i j := by
  rw [joins, List.mem_filterMap, Joined]
  constructor
  · rintro ⟨errand, herrand, h⟩
    cases errand with
    | find k => exact absurd h (by simp)
    | union k l =>
      obtain ⟨rfl, rfl⟩ := Prod.mk.inj (Option.some.inj h)
      exact herrand
  · intro h
    exact ⟨.union i j, h, rfl⟩

/-- Roots change by the joins alone. -/
theorem top_after (errands : List (Errand n)) {f g : LeastForest n} (h : ∀ i, f.top i = g.top i)
    (i : Fin n) : (f.after errands).top i = (g.unions (joins errands)).top i := by
  induction errands generalizing f g with
  | nil => exact h i
  | cons errand rest ih =>
    cases errand with
    | find k => exact ih fun l => (f.top_find k l).trans (h l)
    | union k l =>
      refine ih fun m => ?_
      show (f.union k l).top m = (g.union k l).top m
      rw [top_union, top_union, h, h, h]

/-- **Classes.** After some errands two numbers share a root iff a chain of joins links them. -/
theorem top_after_iff (errands : List (Errand n)) (a b : Fin n) :
    ((singletons n).after errands).top a = ((singletons n).after errands).top b
      ↔ EqvGen (Joined errands) a b := by
  rw [top_after errands (fun _ => rfl) a, top_after errands (fun _ => rfl) b]
  exact top_unions_iff (fun _ _ => mem_joins) a b

/-- The root above a number is the least number that joins link to it. -/
theorem isLeast_top_after (errands : List (Errand n)) (a : Fin n) :
    IsLeast {b | EqvGen (Joined errands) a b} (((singletons n).after errands).top a) := by
  constructor
  · exact (top_after_iff errands a _).mp (top_top _ a).symm
  · intro b hb
    rw [(top_after_iff errands a b).mpr hb]
    exact top_le _ b

/-! ### Answers -/

/-- The answers that errands ought to get: for each look-up, the least number that the joins made so
    far link to the one that is looked up. -/
inductive Answered : List (Errand n) → List (Fin n) → Prop where
  | nil : Answered [] []
  | find {errands : List (Errand n)} {answers : List (Fin n)} {i least : Fin n} :
      Answered errands answers → IsLeast {j | EqvGen (Joined errands) i j} least →
      Answered (errands ++ [.find i]) (answers ++ [least])
  | union {errands : List (Errand n)} {answers : List (Fin n)} {i j : Fin n} :
      Answered errands answers → Answered (errands ++ [.union i j]) answers

/-- **Answers.** A forest that starts with single numbers answers as it ought to. -/
theorem answered_answers (errands : List (Errand n)) :
    Answered errands ((singletons n).answers errands) := by
  induction errands using List.reverseRecOn with
  | nil => exact .nil
  | append_singleton errands errand ih =>
    rw [answers_append]
    cases errand with
    | find i =>
      refine ih.find ?_
      rw [find_fst]
      exact isLeast_top_after errands i
    | union i j =>
      show Answered _ ((singletons n).answers errands ++ [])
      rw [List.append_nil]
      exact ih.union

/-! ### Classes by parents -/

/-- Steps from numbers to their parents, up and down, lead from one number to the other. -/
def SameTree (parent : Vector (Fin n) n) : Fin n → Fin n → Prop :=
  EqvGen fun i j => parent.get i = j

/-- Numbers are in one tree iff they have the same root. -/
theorem sameTree_iff (f : LeastForest n) {a b : Fin n} :
    SameTree f.parent a b ↔ f.top a = f.top b := by
  have hup : ∀ c, SameTree f.parent c (f.top c) := by
    intro c
    fun_induction f.top c with
    | case1 c _ => exact .refl c
    | case2 c _ ih => exact .trans _ _ _ (.rel _ _ rfl) ih
  constructor
  · intro h
    induction h with
    | rel c d hcd => rw [← hcd, top_parent]
    | refl c => rfl
    | symm c d _ ih => exact ih.symm
    | trans c d e _ _ hcd hde => exact hcd.trans hde
  · intro h
    exact .trans _ _ _ (h ▸ hup a) (.symm _ _ (hup b))

/-- The parents after the parent of `i` was replaced by its grandparent. -/
def halved (parent : Vector (Fin n) n) (i : Fin n) : Vector (Fin n) n :=
  parent.set i (parent.get (parent.get i)) i.isLt

/-- **Halving** the way up from a number changes no class. -/
theorem sameTree_halved_iff {parent : Vector (Fin n) n} (h : ∀ i, parent.get i ≤ i) (i a b : Fin n) :
    SameTree (halved parent i) a b ↔ SameTree parent a b := by
  let f : LeastForest n := ⟨parent, h⟩
  have hhalve := sameTree_iff (f.halve i) (a := a) (b := b)
  rw [top_halve, top_halve, ← sameTree_iff f] at hhalve
  exact hhalve

/-! ### Turn by turn -/

/-- What is done once a root is found. -/
inductive Purpose (n : Nat) where
  /-- It is answered. -/
  | answer
  /-- It is joined with the root above `j`, which is to be found next. -/
  | meet (j : Fin n)
  /-- It is joined with the root `a`. -/
  | join (a : Fin n)

/-- A way up to a root, as far as it got. -/
structure Ascent (n : Nat) where
  place : Fin n
  purpose : Purpose n

/-- Work in progress: the parents, of which nothing is known, the answers so far, and the ways up
    that are left, of which the first has begun. -/
structure Moment (n : Nat) where
  parent : Vector (Fin n) n
  answers : List (Fin n)
  ascents : List (Ascent n)

/-- The way up that an errand begins with. -/
def Errand.ascent : Errand n → Ascent n
  | .find i => ⟨i, .answer⟩
  | .union i j => ⟨i, .meet j⟩

/-- All errands before the first turn, with every number its own parent. -/
def Moment.start (errands : List (Errand n)) : Moment n :=
  ⟨Vector.ofFn id, [], errands.map Errand.ascent⟩

/-- The parents after two roots were joined: the smaller becomes the parent of the greater. -/
def joinedRoots (parent : Vector (Fin n) n) (a b : Fin n) : Vector (Fin n) n :=
  if a < b then parent.set b a b.isLt else if b < a then parent.set a b a.isLt else parent

/-- One turn of work. -/
inductive Advances : Moment n → Moment n → Prop where
  /-- Below a root its grandparent becomes the parent of a number, and the way goes on there. -/
  | climb {p : Vector (Fin n) n} {answers : List (Fin n)} {i : Fin n} {purpose : Purpose n}
      {rest : List (Ascent n)} : p.get i ≠ i →
      Advances ⟨p, answers, ⟨i, purpose⟩ :: rest⟩
        ⟨halved p i, answers, ⟨(halved p i).get i, purpose⟩ :: rest⟩
  /-- A root is answered. -/
  | answer {p : Vector (Fin n) n} {answers : List (Fin n)} {i : Fin n} {rest : List (Ascent n)} :
      p.get i = i → Advances ⟨p, answers, ⟨i, .answer⟩ :: rest⟩ ⟨p, answers ++ [i], rest⟩
  /-- The first of two roots is found. -/
  | meet {p : Vector (Fin n) n} {answers : List (Fin n)} {i j : Fin n} {rest : List (Ascent n)} :
      p.get i = i →
      Advances ⟨p, answers, ⟨i, .meet j⟩ :: rest⟩ ⟨p, answers, ⟨j, .join i⟩ :: rest⟩
  /-- So is the second, and they are joined. -/
  | join {p : Vector (Fin n) n} {answers : List (Fin n)} {a i : Fin n} {rest : List (Ascent n)} :
      p.get i = i →
      Advances ⟨p, answers, ⟨i, .join a⟩ :: rest⟩ ⟨joinedRoots p a i, answers, rest⟩

/-- The most turns that a way up can take, with what comes after it. -/
def Ascent.turns : Ascent n → Nat
  | ⟨i, .answer⟩ => i + 1
  | ⟨i, .meet j⟩ => i + j + 2
  | ⟨i, .join _⟩ => i + 1

/-- The most turns that are left. -/
def Moment.turns (m : Moment n) : Nat :=
  (m.ascents.map Ascent.turns).sum

/-- The most turns that an errand can take. -/
def Errand.turns : Errand n → Nat
  | .find i => i + 1
  | .union i j => i + j + 2

theorem turns_start (errands : List (Errand n)) :
    (Moment.start errands).turns = (errands.map Errand.turns).sum := by
  rw [Moment.turns, Moment.start, List.map_map]
  congr 1
  refine List.map_congr_left fun errand _ => ?_
  cases errand <;> rfl

/-- The way goes on to the grandparent. -/
theorem get_halved_self (p : Vector (Fin n) n) (i : Fin n) :
    (halved p i).get i = p.get (p.get i) := by
  rw [halved, get_set, if_pos rfl]

/-- **A turn** keeps parents from being greater, and then fewer turns are left. -/
theorem Advances.orderly {m m' : Moment n} (h : Advances m m') (hm : ∀ i, m.parent.get i ≤ i) :
    (∀ i, m'.parent.get i ≤ i) ∧ m'.turns < m.turns := by
  have hset : ∀ (p : Vector (Fin n) n) (i q : Fin n), (∀ j, p.get j ≤ j) → q ≤ i →
      ∀ j, (p.set i q i.isLt).get j ≤ j := by
    intro p i q hp hq j
    rw [get_set]
    split
    · next hij => exact hij ▸ hq
    · exact hp j
  cases h with
  | @climb p answers i purpose rest hi =>
    have hup : p.get (p.get i) < i := lt_of_le_of_lt (hm _) (lt_of_le_of_ne (hm i) hi)
    refine ⟨hset p i _ hm hup.le, ?_⟩
    rw [get_halved_self]
    rw [Fin.lt_def] at hup
    cases purpose <;> simp only [Moment.turns, List.map_cons, List.sum_cons, Ascent.turns] <;> omega
  | answer _ =>
    refine ⟨hm, ?_⟩
    simp only [Moment.turns, List.map_cons, List.sum_cons, Ascent.turns]
    omega
  | meet _ =>
    refine ⟨hm, ?_⟩
    simp only [Moment.turns, List.map_cons, List.sum_cons, Ascent.turns]
    omega
  | @join p answers a i rest _ =>
    constructor
    · show ∀ j, (joinedRoots p a i).get j ≤ j
      unfold joinedRoots
      split
      · next hlt => exact hset p i a hm hlt.le
      · split
        · next hlt => exact hset p a i hm hlt.le
        · exact hm
    · simp only [Moment.turns, List.map_cons, List.sum_cons, Ascent.turns]
      omega

/-- No turn has a choice. -/
theorem Advances.unique : Relator.RightUnique (Advances (n := n)) := by
  intro m m₁ m₂ h₁ h₂
  cases h₁ <;> cases h₂ <;> first | rfl | contradiction

/-- Up to the root, turns do what finding does. -/
theorem way_to_root (f : LeastForest n) (i : Fin n) (answers : List (Fin n)) (purpose : Purpose n)
    (rest : List (Ascent n)) :
    ReflTransGen Advances ⟨f.parent, answers, ⟨i, purpose⟩ :: rest⟩
      ⟨(f.find i).2.parent, answers, ⟨(f.find i).1, purpose⟩ :: rest⟩ := by
  fun_induction f.find i with
  | case1 f i h => exact .refl
  | case2 f i h ih =>
    have hclimb : Advances ⟨f.parent, answers, ⟨i, purpose⟩ :: rest⟩ _ := .climb h
    rw [get_halved_self] at hclimb
    exact .head hclimb ih

/-- What is found is a root by then. -/
theorem parent_find_fst (f : LeastForest n) (i : Fin n) :
    (f.find i).2.parent.get (f.find i).1 = (f.find i).1 := by
  fun_induction f.find i with
  | case1 f i h => exact h
  | case2 f i h ih => exact ih

theorem parent_union (f : LeastForest n) (i j : Fin n) :
    (f.union i j).parent = joinedRoots ((f.find i).2.find j).2.parent (f.find i).1
      ((f.find i).2.find j).1 := by
  unfold union joinedRoots
  simp only
  split
  · rfl
  · split <;> rfl

/-- **All errands.** Turns lead from any forest to the one after the errands, with their answers. -/
theorem way_to_finished (f : LeastForest n) (errands : List (Errand n)) (given : List (Fin n)) :
    ReflTransGen Advances ⟨f.parent, given, errands.map Errand.ascent⟩
      ⟨(f.after errands).parent, given ++ f.answers errands, []⟩ := by
  induction errands generalizing f given with
  | nil =>
    rw [answers, List.append_nil]
    exact .refl
  | cons errand rest ih =>
    cases errand with
    | find i =>
      have hanswer := (way_to_root f i given .answer (rest.map Errand.ascent)).tail
        (.answer (parent_find_fst f i))
      refine hanswer.trans ?_
      have hrest := ih (f.find i).2 (given ++ [(f.find i).1])
      rw [List.append_assoc] at hrest
      exact hrest
    | union i j =>
      have hfirst := (way_to_root f i given (.meet j) (rest.map Errand.ascent)).tail
        (.meet (parent_find_fst f i))
      have hsecond := (way_to_root (f.find i).2 j given (.join (f.find i).1)
        (rest.map Errand.ascent)).tail (.join (parent_find_fst (f.find i).2 j))
      rw [← parent_union] at hsecond
      exact (hfirst.trans hsecond).trans (ih (f.union i j) given)

/-! ### The result -/

/-- **A least forest at work.** Whatever is looked up and joined, in whatever order, starting with
    single numbers: the turns are bounded, at every moment no number is less than its parent, and
    replacing any parent by the grandparent changes no class. All runs end in one state, with the
    parents of the forest and its answers, each the least number of its class. The classes are at
    the end those of the joins. -/
theorem run_of_errands (errands : List (Errand n)) :
    (∀ moments k, IsRun Advances moments k → moments 0 = Moment.start errands →
      k ≤ (errands.map Errand.turns).sum ∧
      (∀ i, (moments k).parent.get i ≤ i) ∧
      (∀ i a b, SameTree (halved (moments k).parent i) a b ↔ SameTree (moments k).parent a b) ∧
      ReflTransGen Advances (moments k)
        ⟨((singletons n).after errands).parent, (singletons n).answers errands, []⟩) ∧
    Answered errands ((singletons n).answers errands) ∧
    ∀ a b, SameTree ((singletons n).after errands).parent a b ↔ EqvGen (Joined errands) a b := by
  refine ⟨?_, answered_answers errands, fun a b => (sameTree_iff _).trans (top_after_iff errands a b)⟩
  intro moments k hrun hstart
  have hkept : (∀ i, (moments k).parent.get i ≤ i) ∧
      k + (moments k).turns ≤ (errands.map Errand.turns).sum := by
    refine hrun.induction (fun k m => (∀ i, m.parent.get i ≤ i) ∧
      k + m.turns ≤ (errands.map Errand.turns).sum) ?_ ?_
    · rw [hstart, turns_start, Nat.zero_add]
      exact ⟨(singletons n).parent_le, Nat.le_refl _⟩
    · rintro j m m' ⟨hm, hturns⟩ hturn
      obtain ⟨hm', hless⟩ := hturn.orderly hm
      exact ⟨hm', by omega⟩
  obtain ⟨hordered, hturns⟩ := hkept
  refine ⟨by omega, hordered, sameTree_halved_iff hordered, ?_⟩
  refine hrun.leads_to Advances.unique (fun m h => by cases h) ?_
  rw [hstart]
  exact way_to_finished (singletons n) errands []

/-- Two classes answer with their least members and then, as one class, with the lesser of these. -/
example : (singletons 5).answers [.union 4 2, .union 2 3, .union 1 0, .find 3, .find 4, .find 1,
    .union 3 1, .find 4] = [2, 2, 0, 0] := by
  decide +kernel

end CollisionMesh.LeastForest
