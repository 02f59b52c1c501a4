import CollisionMesh.Geometry.Point

namespace CollisionMesh

/-!
# Polygon meshes

A mesh is a list of vertices and a list of faces; a face is a closed loop of vertex
indices of any length.

* `Mesh.position`, `Mesh.positions` — where a vertex or the corners of a face lie;
* `Mesh.normal?` — the direction that a face looks in, if it has one;
* `Mesh.compact` — the mesh without unused vertices, numbered by first use;
* `Mesh.WellIndexed` — every corner is a vertex of the list;
* `TriangleMesh` — a mesh whose faces are triples.
-/

/-- A closed loop of vertex indices. -/
abbrev Face := List Nat

/-- The vertex indices of a loop with their successors, once round. -/
abbrev loopEdges (face : Face) : List (Nat × Nat) :=
  cyclicPairs face

/-- Vertices, and faces as loops of vertex indices. -/
structure Mesh (α : Type) where
  vertices : Array (Point α)
  faces : List Face

/-- Vertices, and faces as triples of vertex indices. -/
structure TriangleMesh (α : Type) where
  vertices : Array (Point α)
  faces : List (Triple Nat)

namespace Mesh

variable {α : Type} [Scalar α]

/-- The mesh without vertices and faces. -/
def empty : Mesh α :=
  ⟨#[], []⟩

omit [Scalar α] in
/-- Every corner of every face is a vertex of the list. -/
def WellIndexed (m : Mesh α) : Prop :=
  ∀ face ∈ m.faces, ∀ i ∈ face, i < m.vertices.size

omit [Scalar α] in
instance (m : Mesh α) : Decidable m.WellIndexed :=
  inferInstanceAs (Decidable (∀ face ∈ m.faces, ∀ i ∈ face, i < m.vertices.size))

/-- Where a vertex lies; the origin for an index outside the list. -/
def position (m : Mesh α) (i : Nat) : Point α :=
  m.vertices.getD i Point.origin

/-- Where the corners of a face lie, in loop order. -/
def positions (m : Mesh α) (face : Face) : List (Point α) :=
  face.map m.position

/-- The direction that a face looks in, unless it encloses no area. -/
def normal? (m : Mesh α) (face : Face) : Option (Vec α) :=
  (newellNormal (m.positions face)).unit?

omit [Scalar α] in
/-- Whether there is nothing to see: no vertex or no face. -/
def isEmpty (m : Mesh α) : Bool :=
  m.vertices.isEmpty || m.faces.isEmpty

omit [Scalar α] in
/-- Whether every face has three corners. -/
def isTriangulated (m : Mesh α) : Bool :=
  m.faces.all (fun face => face.length == 3)

/-- The smallest box around the corners of the faces. -/
def bounds (m : Mesh α) : Box α :=
  Box.around (m.faces.flatMap m.positions)

omit [Scalar α] in
/-- The vertex indices in use, each once, by first use over the faces. -/
def used (m : Mesh α) : List Nat :=
  m.faces.flatten.eraseDups

/-- The mesh without unused vertices, the others numbered by first use. -/
def compact (m : Mesh α) : Mesh α :=
  let used := m.used
  { vertices := (used.map m.position).toArray
    faces := m.faces.map fun face => face.map fun i => used.idxOf i }

end Mesh

namespace TriangleMesh

variable {α : Type}

/-- The same mesh with faces as loops. -/
def toMesh (m : TriangleMesh α) : Mesh α :=
  ⟨m.vertices, m.faces.map Triple.toList⟩

/-- Loose triangles as a mesh: three new vertices and one face for each. -/
def ofTriangles (triangles : List (Triple (Point α))) : TriangleMesh α where
  vertices := (triangles.flatMap Triple.toList).toArray
  faces := (List.range triangles.length).map fun i => ⟨3 * i, 3 * i + 1, 3 * i + 2⟩

/-- Whether there is nothing to see: no vertex or no face. -/
def isEmpty (m : TriangleMesh α) : Bool :=
  m.vertices.isEmpty || m.faces.isEmpty

/-- The smallest box around all vertices. -/
def bounds [Scalar α] (m : TriangleMesh α) : Box α :=
  Box.around m.vertices.toList

end TriangleMesh

end CollisionMesh
