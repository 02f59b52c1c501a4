import CollisionMesh.Mesh
import CollisionMesh.Mesh.LeastForest

namespace CollisionMesh

/-!
# Welding

Vertices near each other become one. Nearness is taken transitively: all vertices
of a class become its least one, which stays where it is. Loops lose the repeats
that arise, and loops left with fewer than three corners disappear.

* `cleanLoop` — a loop without neighbours that are equal;
* `weldFaces` — the faces after every corner was replaced by a representative;
* `Mesh.weld` — the welded mesh.
-/

/-- A list without repeats of the element just before. -/
def squeeze : List Nat → List Nat
  | [] => []
  | [a] => [a]
  | a :: b :: rest => if a = b then squeeze (b :: rest) else a :: squeeze (b :: rest)

/-- A loop without repeats of the element just before, the last element counting as
    the one before the first. -/
def cleanLoop (face : Face) : Face :=
  let loop := squeeze face
  if 1 < loop.length ∧ loop.head? = loop.getLast? then loop.dropLast else loop

/-- The faces with every corner replaced by its representative, cleaned, without
    those of fewer than three corners. -/
def weldFaces (representative : Nat → Nat) (faces : List Face) : List Face :=
  (faces.map fun face => cleanLoop (face.map representative)).filter
    (fun face => 3 ≤ face.length)

namespace Mesh

variable {α : Type} [Scalar α]

/-- The squared reach of a threshold; one that is negative or not a number reaches
    as far as zero. -/
def reachSq (threshold : α) : α :=
  let reach := if 0.0 < threshold then threshold else 0.0
  reach * reach

/-- Whether two vertices are within the threshold of each other. -/
def near (m : Mesh α) (threshold : α) (i j : Nat) : Bool :=
  (m.position i).distanceSq (m.position j) ≤ reachSq threshold

/-- The classes of vertices that chains of near vertices link. -/
def clusters (m : Mesh α) (threshold : α) : LeastForest m.vertices.size :=
  LeastForest.ofRelation m.vertices.size (m.near threshold)

/-- The mesh with every class of near vertices replaced by its least one. -/
def weld (threshold : α) (m : Mesh α) : Mesh α :=
  let forest := m.clusters threshold
  compact { m with faces := weldFaces forest.least m.faces }

end Mesh

end CollisionMesh
