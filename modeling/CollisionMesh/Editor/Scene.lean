import CollisionMesh.Editor

namespace CollisionMesh

/-!
# The scene

The editor that keeps its meshes in memory and edits them with the passes of this
library. Handles count up and are never issued twice; a request that fails leaves
the scene as it was.

* `Scene` — the live meshes by handle, and the next handle;
* `Scene.mesh?`, `Scene.put` — looking a live mesh up and replacing it;
* the instance of `MeshEditor`.
-/

/-- The meshes made since the last clearing, and the number of all ever made. -/
structure Scene (α : Type) where
  nextId : Nat
  meshes : List (Nat × Mesh α)

namespace Scene

variable {α : Type}

/-- A scene without meshes, before the first one. -/
def new : Scene α :=
  ⟨0, []⟩

/-- A live mesh. -/
def mesh? (s : Scene α) (h : Handle) : Option (Mesh α) :=
  s.meshes.lookup h.id

/-- The scene with a live mesh replaced. -/
def put (s : Scene α) (h : Handle) (m : Mesh α) : Scene α :=
  { s with meshes := s.meshes.map fun entry => if entry.1 = h.id then (entry.1, m) else entry }

/-- A new empty mesh. -/
def newMesh (s : Scene α) : Handle × Scene α :=
  (⟨s.nextId⟩, ⟨s.nextId + 1, s.meshes ++ [(s.nextId, ⟨#[], []⟩)]⟩)

/-- Replaces the geometry of a live mesh. Every corner must be a vertex of the
    list. -/
def setGeometry (h : Handle) (vertices : Array (Point α)) (faces : List (Triple Nat))
    (s : Scene α) : Except Error Unit × Scene α :=
  match faces.find? fun face => face.toList.any (vertices.size ≤ ·) with
  | some face => (.error (.edit .setGeometry (.vertexBeyond face vertices.size)), s)
  | none =>
    match s.mesh? h with
    | none => (.error (.edit .setGeometry (.unknownHandle h.id)), s)
    | some _ => (.ok (), s.put h (TriangleMesh.toMesh ⟨vertices, faces⟩))

/-- Edits a live mesh by a pass. -/
def apply [Scalar α] [Clipper α] (pass : Pass α) (h : Handle) (s : Scene α) :
    Except Error Unit × Scene α :=
  match s.mesh? h with
  | none => (.error (.edit pass.operation (.unknownHandle h.id)), s)
  | some m =>
    match m.apply pass with
    | .error fault => (.error (.edit pass.operation fault), s)
    | .ok m => (.ok (), s.put h m)

/-- The faces of a live mesh with their positions. -/
def readFaces [Scalar α] (h : Handle) (s : Scene α) :
    Except Error (List (EditorFace α)) × Scene α :=
  match s.mesh? h with
  | none => (.error (.edit .readFaces (.unknownHandle h.id)), s)
  | some m => (.ok (m.faces.map fun face => ⟨face, m.positions face⟩), s)

/-- The scene without meshes. Old handles stay used. -/
def clearAll (s : Scene α) : Scene α :=
  { s with meshes := [] }

instance [Scalar α] [Clipper α] : MeshEditor α (Scene α) where
  newMesh := newMesh
  setGeometry := setGeometry
  apply := apply
  readFaces := readFaces
  clearAll := clearAll

end Scene

end CollisionMesh
