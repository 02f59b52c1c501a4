import Mathlib.Logic.Relation

namespace CollisionMesh

/-!
# Runs of a loop

A loop is given by its turns, from one state to the next. A run is a number of turns one after the
other; that a loop ends is a bound on the turns of its runs.

* `IsRun` — the states of a number of turns;
* `IsRun.induction` — what every turn keeps holds after all of them;
* `IsRun.reflTransGen`, `IsRun.leads_to` — where turns lead; a loop without choices stays on its way.
-/

/-- The states that a loop goes through in `k` turns. -/
def IsRun {σ : Type} (turn : σ → σ → Prop) (states : Nat → σ) (k : Nat) : Prop :=
  ∀ j < k, turn (states j) (states (j + 1))

namespace IsRun

variable {σ : Type} {turn : σ → σ → Prop} {states : Nat → σ} {k : Nat}

/-- What holds at the start and is kept by every turn holds after all turns. -/
theorem induction (h : IsRun turn states k) (holds : Nat → σ → Prop) (hstart : holds 0 (states 0))
    (hturn : ∀ j s s', holds j s → turn s s' → holds (j + 1) s') : holds k (states k) := by
  induction k with
  | zero => exact hstart
  | succ k ih =>
    have hk := ih fun j hj => h j (Nat.lt_succ_of_lt hj)
    exact hturn k _ _ hk (h k (Nat.lt_succ_self k))

theorem reflTransGen (h : IsRun turn states k) :
    Relation.ReflTransGen turn (states 0) (states k) :=
  h.induction (fun _ s => Relation.ReflTransGen turn (states 0) s) .refl
    fun _ _ _ hway hturn => hway.tail hturn

/-- Where no turn has a choice, every run is on the way to a state that has no turn. -/
theorem leads_to (h : IsRun turn states k) (hunique : Relator.RightUnique turn) {last : σ}
    (hlast : ∀ s, ¬ turn last s) (hway : Relation.ReflTransGen turn (states 0) last) :
    Relation.ReflTransGen turn (states k) last := by
  rcases Relation.ReflTransGen.total_of_right_unique hunique h.reflTransGen hway with hto | hfrom
  · exact hto
  · rw [Relation.reflTransGen_iff_eq hlast] at hfrom
    rw [hfrom]

end IsRun

end CollisionMesh
