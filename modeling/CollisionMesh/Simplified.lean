import CollisionMesh.Editor
import CollisionMesh.Record.Line

namespace CollisionMesh

/-!
# Records and meshes

* `meshOfRecords` — the loose triangles of some records as a mesh;
* `recordsOfFaces` — triangular faces as records with integer coordinates.
-/

/-- The triangles of some records, each with three vertices of its own. -/
def meshOfRecords (rs : List Record) : TriangleMesh Float :=
  TriangleMesh.ofTriangles (rs.map (·.corners))

/-- A triangular face as a record, its coordinates rounded to integers. -/
def recordOfFace (key : Option Key) (face : EditorFace Float) : Option Record :=
  match face.indices, face.positions with
  | [_, _, _], [a, b, c] => some ⟨(Triple.mk a b c).map Point.rounded, key⟩
  | _, _ => none

/-- Triangular faces as records with the same key, from a face number on. The first
    face that is no triangle is an error. -/
def recordsOfFacesFrom (key : Option Key) (number : Nat) :
    List (EditorFace Float) → Except Error (List Record)
  | [] => .ok []
  | face :: rest =>
    match recordOfFace key face with
    | none => .error (.notTriangle number face.indices.length)
    | some r => (recordsOfFacesFrom key (number + 1) rest).map (r :: ·)

/-- Triangular faces as records, with a key if the run that they come from carries
    keys. -/
def recordsOfFaces (faces : List (EditorFace Float)) (key : Key) (keyed : Bool) :
    Except Error (List Record) :=
  recordsOfFacesFrom (if keyed then some key else none) 0 faces

end CollisionMesh
