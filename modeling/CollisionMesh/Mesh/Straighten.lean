import Std.Data.HashMap
import Std.Data.TreeSet
import CollisionMesh.Mesh

namespace CollisionMesh

/-!
# Removing straight corners

A vertex with exactly two neighbours, on a line through both, is taken out of every
face that uses it, if each of those faces can spare it.

* `NeighbourTable` — the vertices that share an edge with a vertex, kept up to date
  while corners are removed;
* `usersByVertex` — the faces that use a vertex;
* `canSpare` — whether a face stays a polygon without a corner;
* `Straightening.tryVertex` — the removal of one vertex, if it may go;
* `straightenFaces` — the faces after all vertices were tried in index order;
* `Mesh.straightenCorners` — the mesh with its straight corners removed.
-/

/-- A table of the vertices that share an edge with a vertex. -/
structure NeighbourTable where
  entries : Std.HashMap Nat (Std.TreeSet Nat)

namespace NeighbourTable

/-- The neighbours of a vertex. -/
def of (t : NeighbourTable) (v : Nat) : Std.TreeSet Nat :=
  t.entries.getD v ∅

/-- The table with other neighbours of a vertex. -/
def change (v : Nat) (f : Std.TreeSet Nat → Std.TreeSet Nat) (t : NeighbourTable) :
    NeighbourTable :=
  ⟨t.entries.insert v (f (t.of v))⟩

/-- The table with one edge more. An edge from a vertex to itself makes no
    neighbours. -/
def addEdge (t : NeighbourTable) (edge : Nat × Nat) : NeighbourTable :=
  if edge.1 = edge.2 then t
  else (t.change edge.1 (·.insert edge.2)).change edge.2 (·.insert edge.1)

/-- The table of some faces. -/
def ofFaces (faces : List Face) : NeighbourTable :=
  (faces.flatMap loopEdges).foldl addEdge ⟨∅⟩

/-- The table without a vertex, whose two neighbours become neighbours of each
    other. -/
def bypass (v a b : Nat) (t : NeighbourTable) : NeighbourTable :=
  ((t.change v fun _ => ∅).change a fun s => (s.erase v).insert b).change b
    fun s => (s.erase v).insert a

end NeighbourTable

/-- The faces that use each vertex, by their positions in order. -/
def usersByVertex (faces : List Face) : Std.HashMap Nat (Array Nat) :=
  faces.zipIdx.foldl
    (fun t (face, f) => face.foldl
      (fun t v =>
        let users := t.getD v #[]
        if users.back? = some f then t else t.insert v (users.push f)) t) ∅

/-- Whether a face can do without `v`: it has more than three corners, `v` is
    exactly one of them, and the two corners beside it differ. -/
def canSpare (face : Face) (v : Nat) : Bool :=
  3 < face.length && face.count v == 1 &&
    match face.dropWhile (· != v), face.takeWhile (· != v) with
    | [], _ => false
    | _ :: later, earlier =>
      (earlier.getLast?.or later.getLast?) != (later.head?.or earlier.head?)

/-- Faces while their corners are removed, with the neighbours of their vertices. -/
structure Straightening where
  faces : Array Face
  table : NeighbourTable

namespace Straightening

/-- The faces without one vertex that goes, of the given users, between two
    neighbours. -/
def remove (users : Array Nat) (v a b : Nat) (s : Straightening) : Straightening where
  faces := users.foldl (fun faces f => faces.modify f fun face => face.filter (· != v)) s.faces
  table := s.table.bypass v a b

/-- Removes `v` if it may go: it has two neighbours that are not neighbours of each
    other, it lies straight between them, and every face that uses it can spare it. -/
def tryVertex (straight : Nat → Nat → Nat → Bool) (users : Nat → Array Nat) (s : Straightening)
    (v : Nat) : Straightening :=
  match (s.table.of v).toList with
  | [a, b] =>
    if !(s.table.of a).contains b && straight a v b
        && (users v).all fun f => canSpare (s.faces.getD f []) v then
      s.remove (users v) v a b
    else s
  | _ => s

end Straightening

/-- The faces after the vertices below `n` were tried in index order. -/
def straightenFaces (straight : Nat → Nat → Nat → Bool) (n : Nat) (faces : List Face) :
    List Face :=
  let users := usersByVertex faces
  ((List.range n).foldl (Straightening.tryVertex straight fun v => users.getD v #[])
    ⟨faces.toArray, .ofFaces faces⟩).faces.toList

namespace Mesh

variable {α : Type} [Scalar α]

/-- Whether the way from `a` over `v` to `b` turns by no more than the angle. -/
def isStraight (angle : α) (m : Mesh α) (a v b : Nat) : Bool :=
  match (m.position v - m.position a).unit?, (m.position b - m.position v).unit? with
  | some incoming, some outgoing => angleBetween incoming outgoing ≤ angle
  | _, _ => false

/-- The mesh with its straight corners removed. -/
def straightenCorners (angle : α) (m : Mesh α) : Mesh α :=
  { m with faces := straightenFaces (m.isStraight angle) m.vertices.size m.faces }

end Mesh

end CollisionMesh
