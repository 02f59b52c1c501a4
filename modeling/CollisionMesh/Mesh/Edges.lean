import Std.Data.HashMap
import CollisionMesh.Mesh

namespace CollisionMesh

/-!
# Which faces use an edge

* `edgeUses`, `sideUses` — the edges of all faces with the face that each belongs
  to, with direction and without;
* `users` — the faces that use an edge, once for each use;
* `EdgeTable` — the same by looking up, and `EdgeTable.users_ofUses` says so;
* `twin?` — the face on the other side of a directed edge.
-/

/-- An edge without direction, the smaller index first. -/
def side (edge : Nat × Nat) : Nat × Nat :=
  if edge.1 < edge.2 then edge else (edge.2, edge.1)

/-- The directed edges of all faces with the position of the face, in face and
    loop order. -/
def edgeUses (faces : List Face) : List ((Nat × Nat) × Nat) :=
  faces.zipIdx.flatMap fun (face, f) => (loopEdges face).map fun e => (e, f)

/-- The edges of all faces without direction, with the position of the face. -/
def sideUses (faces : List Face) : List ((Nat × Nat) × Nat) :=
  (edgeUses faces).map fun (e, f) => (side e, f)

/-- The faces that use an edge, once for each use, in face order. -/
def users (uses : List ((Nat × Nat) × Nat)) (edge : Nat × Nat) : List Nat :=
  (uses.filter fun use => use.1 == edge).map (·.2)

/-- A table of edges with the faces that use them. -/
structure EdgeTable where
  entries : Std.HashMap (Nat × Nat) (List Nat)

namespace EdgeTable

/-- The faces that use an edge. -/
def users (t : EdgeTable) (edge : Nat × Nat) : List Nat :=
  t.entries.getD edge []

/-- The table of some uses. -/
def ofUses (uses : List ((Nat × Nat) × Nat)) : EdgeTable :=
  uses.foldr (fun (e, f) t => ⟨t.entries.insert e (f :: t.users e)⟩) ⟨∅⟩

/-- Looking up gives the faces that use the edge, once for each use. -/
@[simp] theorem users_ofUses (uses : List ((Nat × Nat) × Nat)) (edge : Nat × Nat) :
    (ofUses uses).users edge = CollisionMesh.users uses edge := by
  induction uses with
  | nil => simp [ofUses, users, CollisionMesh.users]
  | cons use rest ih =>
    obtain ⟨e, f⟩ := use
    simp only [ofUses, users, CollisionMesh.users, List.foldr_cons] at ih ⊢
    rw [Std.HashMap.getD_insert]
    by_cases h : e = edge
    · subst h
      simp [ih]
    · simp [h, ih]

end EdgeTable

/-- The face on the other side of a directed edge: there is one if exactly one
    face uses the edge and exactly one other face uses it backwards. -/
def twin? (users : Nat × Nat → List Nat) (edge : Nat × Nat) : Option Nat :=
  match users edge, users (edge.2, edge.1) with
  | [f], [g] => if f ≠ g then some g else none
  | _, _ => none

end CollisionMesh
