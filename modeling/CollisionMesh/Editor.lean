import CollisionMesh.Mesh.Pass

namespace CollisionMesh

/-!
# Mesh editors

Geometry is edited by a service that owns the meshes and answers requests. An
editor is a type of states with the answer and the next state for every request, so
that an editor can answer anything, also out of what it was asked before.

* `Handle`, `EditorFace` — how meshes are named, and faces as they are read back;
* `MeshEditor` — the requests;
* `forEach` — requests in turn, up to the first that fails;
* `simplify` — the requests that turn loose triangles into few.
-/

/-- The name of a mesh inside an editor. -/
structure Handle where
  id : Nat
deriving DecidableEq, Repr

/-- A face as an editor reads it back. -/
structure EditorFace (α : Type) where
  /-- Vertex indices in loop order. -/
  indices : List Nat
  /-- Where those vertices lie, in the same order. -/
  positions : List (Point α)
deriving DecidableEq

/-- A service that owns meshes and edits them on request. A request answers and
    leaves the editor in a next state, also where it fails. -/
class MeshEditor (α : outParam Type) (σ : Type) where
  /-- Makes an empty mesh. -/
  newMesh : σ → Handle × σ
  /-- Replaces the geometry of a mesh. -/
  setGeometry : Handle → Array (Point α) → List (Triple Nat) → σ → Except Error Unit × σ
  /-- Edits a mesh by a pass. -/
  apply : Pass α → Handle → σ → Except Error Unit × σ
  /-- The faces of a mesh in storage order. -/
  readFaces : Handle → σ → Except Error (List (EditorFace α)) × σ
  /-- Removes every mesh. -/
  clearAll : σ → σ

/-- An action for each element in turn, up to the first that fails. -/
def forEach {β σ : Type} (action : β → σ → Except Error Unit × σ) :
    List β → σ → Except Error Unit × σ
  | [], s => (.ok (), s)
  | b :: rest, s =>
    match action b s with
    | (.ok (), s) => forEach action rest s
    | (.error e, s) => (.error e, s)

variable {α σ : Type} [MeshEditor α σ]

/-- Loads triangles into a new mesh, edits it by every pass in turn and reads its
    faces back, up to the first request that fails. The mesh is left where it is. -/
def simplify (t : Tolerances α) (mesh : TriangleMesh α) (s : σ) :
    Except Error (List (EditorFace α)) × σ :=
  let (handle, s) := MeshEditor.newMesh s
  match MeshEditor.setGeometry handle mesh.vertices mesh.faces s with
  | (.error e, s) => (.error e, s)
  | (.ok (), s) =>
    match forEach (fun pass => MeshEditor.apply pass handle) t.passes s with
    | (.error e, s) => (.error e, s)
    | (.ok (), s) => MeshEditor.readFaces handle s

end CollisionMesh
