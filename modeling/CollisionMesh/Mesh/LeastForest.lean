namespace CollisionMesh

/-!
# Classes with a least member

A partition of the numbers below `n`, kept as a forest in which no number is less
than its parent. So the root of a tree is the least member of its class, and going
to the parent ends.

* `LeastForest` — the forest;
* `LeastForest.find` — the least member of a class; the path to it is halved;
* `LeastForest.union` — the forest with two classes joined;
* `LeastForest.ofRelation` — the classes that a relation generates.
-/

/-- A partition of the numbers below `n`. -/
structure LeastForest (n : Nat) where
  parent : Vector (Fin n) n
  parent_le : ∀ i : Fin n, parent[i] ≤ i

namespace LeastForest

variable {n : Nat}

/-- The partition into single numbers. -/
def singletons (n : Nat) : LeastForest n where
  parent := Vector.ofFn id
  parent_le i := by simp

/-- The forest with another parent for `i`, one that is not greater. -/
def link (f : LeastForest n) (i p : Fin n) (h : p ≤ i) : LeastForest n where
  parent := f.parent.set i p
  parent_le j := by
    have := f.parent_le j
    simp only [Fin.getElem_fin, Vector.getElem_set]
    split
    · next hij => exact Fin.le_def.2 (hij ▸ h)
    · exact this

/-- The parent of a parent is not greater. -/
theorem grandparent_le (f : LeastForest n) (i : Fin n) : f.parent[f.parent[i]] ≤ i :=
  Nat.le_trans (f.parent_le _) (f.parent_le i)

/-- The least member of the class of `i`. Every number that is passed on the way
    gets its grandparent as its parent. -/
def find (f : LeastForest n) (i : Fin n) : Fin n × LeastForest n :=
  if h : f.parent[i] = i then (i, f)
  else
    (f.link i f.parent[f.parent[i]] (f.grandparent_le i)).find f.parent[f.parent[i]]
termination_by i.val
decreasing_by
  have hp := f.parent_le i
  have hg := f.parent_le f.parent[i]
  have : f.parent[i].val ≠ i.val := fun e => h (Fin.ext e)
  simp only [Fin.le_def] at hp hg
  omega

/-- The least member of the class of `i`, the forest left as it is. -/
def root (f : LeastForest n) (i : Fin n) : Fin n :=
  (f.find i).1

/-- The forest with the classes of `i` and `j` joined: the greater of their least
    members gets the smaller one as its parent. -/
def union (f : LeastForest n) (i j : Fin n) : LeastForest n :=
  let (a, f) := f.find i
  let (b, f) := f.find j
  if h : a < b then f.link b a (Nat.le_of_lt h)
  else if h : b < a then f.link a b (Nat.le_of_lt h)
  else f

/-- The classes of the least equivalence that holds wherever `related` does. -/
def ofRelation (n : Nat) (related : Nat → Nat → Bool) : LeastForest n :=
  (List.finRange n).foldl join (singletons n)
where
  /-- Joins `i` with all that it is related to. -/
  join (f : LeastForest n) (i : Fin n) : LeastForest n :=
    (List.finRange n).foldl (fun f (j : Fin n) => if related i j then f.union i j else f) f

/-- The least member of the class of `i`; a number outside the forest is alone. -/
def least (f : LeastForest n) (i : Nat) : Nat :=
  if h : i < n then f.root ⟨i, h⟩ else i

end LeastForest

end CollisionMesh
