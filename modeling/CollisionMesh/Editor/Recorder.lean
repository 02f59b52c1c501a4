import CollisionMesh.Editor

namespace CollisionMesh

/-!
# Recorded and scripted editors

* `Call` — a request to a mesh editor, as data;
* `Recorded` — any editor together with the requests made of it so far;
* `Scripted` — an editor that keeps its geometry as it was set, fails on one kind
  of request, and may read back prepared faces;
* `Prepared` — an editor that gives prepared answers, one after the other.
-/

/-- A request to a mesh editor. -/
inductive Call (α : Type) where
  | newMesh
  | setGeometry (handle : Handle) (vertices : Array (Point α)) (faces : List (Triple Nat))
  | apply (pass : Pass α) (handle : Handle)
  | readFaces (handle : Handle)
  | clearAll

/-- An editor with the requests made of it, in their order. -/
structure Recorded (α σ : Type) where
  editor : σ
  calls : Array (Call α)

namespace Recorded

variable {α σ : Type}

/-- An editor of which nothing was requested yet. -/
def new (editor : σ) : Recorded α σ :=
  ⟨editor, #[]⟩

/-- Passes a request on and notes it. -/
def note {β : Type} (call : Call α) (request : σ → β × σ) (r : Recorded α σ) :
    β × Recorded α σ :=
  let (answer, editor) := request r.editor
  (answer, ⟨editor, r.calls.push call⟩)

instance [MeshEditor α σ] : MeshEditor α (Recorded α σ) where
  newMesh := note .newMesh MeshEditor.newMesh
  setGeometry h vertices faces :=
    note (.setGeometry h vertices faces) (MeshEditor.setGeometry h vertices faces)
  apply pass h := note (.apply pass h) (MeshEditor.apply pass h)
  readFaces h := note (.readFaces h) (MeshEditor.readFaces h)
  clearAll r := (note .clearAll (fun editor => ((), MeshEditor.clearAll editor)) r).2

end Recorded

/-- An editor of a single mesh that no pass changes. -/
structure Scripted (α : Type) where
  /-- The requests that fail. -/
  failing : Option Operation
  /-- What is read back instead of the faces that were set. -/
  prepared : Option (List (EditorFace α))
  /-- How many meshes were made. -/
  issued : Nat
  /-- The faces that were set last. -/
  faces : List (EditorFace α)

namespace Scripted

variable {α : Type}

/-- A scripted editor before its first request. -/
def new (failing : Option Operation) (prepared : Option (List (EditorFace α))) : Scripted α :=
  ⟨failing, prepared, 0, []⟩

/-- Fails if the script says so. -/
def checked {β : Type} (s : Scripted α) (operation : Operation) (answer : β) : Except Error β :=
  if s.failing = some operation then .error (.edit operation (.refused "scripted failure"))
  else .ok answer

instance [Scalar α] : MeshEditor α (Scripted α) where
  newMesh s := (⟨s.issued⟩, { s with issued := s.issued + 1 })
  setGeometry _ vertices faces s :=
    (s.checked .setGeometry (), { s with faces := faces.map fun face =>
      ⟨face.toList, face.toList.map fun i => vertices.getD i Point.origin⟩ })
  apply pass _ s := (s.checked pass.operation (), s)
  readFaces _ s := (s.checked .readFaces (s.prepared.getD s.faces), s)
  clearAll s := s

end Scripted

/-- An editor that has an answer ready for every request that can fail. After the last one nothing
    fails, and no faces are read. -/
structure Prepared (α : Type) where
  answers : List (Except Error (List (EditorFace α)))

namespace Prepared

variable {α : Type}

/-- The next answer. -/
def next : Prepared α → Except Error (List (EditorFace α)) × Prepared α
  | ⟨[]⟩ => (.ok [], ⟨[]⟩)
  | ⟨answer :: rest⟩ => (answer, ⟨rest⟩)

/-- The next answer where no faces are asked for. -/
def confirm (s : Prepared α) : Except Error Unit × Prepared α :=
  (s.next.1.map fun _ => (), s.next.2)

instance : MeshEditor α (Prepared α) where
  newMesh s := (⟨0⟩, s)
  setGeometry _ _ _ s := s.confirm
  apply _ _ s := s.confirm
  readFaces _ s := s.next
  clearAll s := s

end Prepared

end CollisionMesh
