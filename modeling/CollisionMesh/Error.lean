import CollisionMesh.Geometry.Point

namespace CollisionMesh

/-!
# What can go wrong

Errors are causes: what was found, not how it is said. The wording stands in the
functions `message`.

* `LineFault` — why a line of a document is malformed;
* `Operation`, `EditFault` — which request a mesh editor refused, and why;
* `FileFault` — why a file cannot be read or written;
* `Error` — all of them with where they happened.
-/

/-- Why a line of a document is malformed. -/
inductive LineFault where
  /-- The first word is not the tag of a triangle. -/
  | notTriangle
  /-- Fewer than three vertices. -/
  | missingVertices (found : Nat)
  /-- A number of key words other than none and two. -/
  | keyWords (found : Nat)
  /-- A vertex with a number of components other than three. -/
  | components (vertex : String) (found : Nat)
  /-- A component that is no finite number. -/
  | coordinate (text : String) (vertex : String)
  /-- A key word that is no byte. -/
  | keyByte (word : String)
  /-- A triangle without a key in a run with keys. -/
  | missingKey
  /-- A triangle with a key in a run without keys. -/
  | unexpectedKey
  /-- A header line without the numbers that it needs. -/
  | header (line : String)
  /-- A triangle before the first area. -/
  | outsideArea
  /-- A coordinate that is no 16-bit integer. -/
  | notShort (number : String)
deriving DecidableEq, Repr

/-- The first word of a triangle line. -/
def triangleTag : String := "TRI"

/-- The first word of a line that sets the collision type. -/
def collisionTypeTag : String := "COLLISIONTYPE"

/-- The first word of a line that opens an area. -/
def areaTag : String := "AREA"

def LineFault.message : LineFault → String
  | .notTriangle => s!"expected `{triangleTag}` tag"
  | .missingVertices found => s!"expected 3 vertices, found {found}"
  | .keyWords found => s!"expected 0 or 2 key tokens, found {found}"
  | .components vertex found => s!"vertex `{vertex}` has {found} components, expected 3"
  | .coordinate text vertex => s!"invalid coordinate `{text}` in `{vertex}`"
  | .keyByte word => s!"invalid key byte `{word}`"
  | .missingKey => "missing key tokens in a keyed run"
  | .unexpectedKey => "unexpected key tokens in an unkeyed run"
  | .header line => s!"invalid `{line}` header"
  | .outsideArea => s!"triangle before any {areaTag} header"
  | .notShort number => s!"coordinate {number} is not a 16-bit integer"

/-- The requests that a mesh editor can refuse. -/
inductive Operation where
  | setGeometry
  | weld
  | edgeSplit
  | dissolve
  | triangulate
  | readFaces
  /-- Any name that an editor of another kind gives. -/
  | other (name : String)
deriving DecidableEq, Repr

def Operation.name : Operation → String
  | .setGeometry => "SetGeometry"
  | .weld => "Weld"
  | .edgeSplit => "EdgeSplit"
  | .dissolve => "DissolveDecimate"
  | .triangulate => "Triangulate"
  | .readFaces => "ReadFaces"
  | .other name => name

/-- Why a mesh editor refused a request. -/
inductive EditFault where
  /-- There is no face to edit. -/
  | noFaces
  /-- The handle stands for no mesh. -/
  | unknownHandle (id : Nat)
  /-- A face with a vertex index outside the vertex list. -/
  | vertexBeyond (face : Triple Nat) (count : Nat)
  /-- Any reason that an editor of another kind gives. -/
  | refused (reason : String)
deriving DecidableEq, Repr

def EditFault.message : EditFault → String
  | .noFaces => "mesh has no faces"
  | .unknownHandle id => s!"no mesh with handle {id}"
  | .vertexBeyond face count =>
    s!"face [{face.a}, {face.b}, {face.c}] references a vertex beyond {count}"
  | .refused reason => reason

/-- Why a file cannot be read or written. -/
inductive FileFault where
  | notFound
  | notDirectory
  | isDirectory
  | notText
  /-- Any reason that a file system of another kind gives. -/
  | other (reason : String)
deriving DecidableEq, Repr

def FileFault.message : FileFault → String
  | .notFound => "No such file or directory (os error 2)"
  | .notDirectory => "Not a directory (os error 20)"
  | .isDirectory => "Is a directory (os error 21)"
  | .notText => "stream did not contain valid UTF-8"
  | .other reason => reason

/-- What went wrong, and where. -/
inductive Error where
  /-- A line of a document is malformed; lines count from one, and zero stands for
      a line outside any document. -/
  | malformed (line : Nat) (fault : LineFault)
  /-- A mesh editor refused a request. -/
  | edit (operation : Operation) (fault : EditFault)
  /-- A face is no triangle where only triangles can be. -/
  | notTriangle (face : Nat) (corners : Nat)
  | file (path : String) (fault : FileFault)
  /-- The path to write to would be the path that was read. -/
  | emptySuffix
  /-- The settings document cannot be understood. -/
  | settings (path : Option String) (reason : String)
deriving DecidableEq, Repr

namespace Error

def message : Error → String
  | .malformed line fault => s!"malformed triangle record on line {line}: {fault.message}"
  | .edit operation fault => s!"{operation.name} modifier failed: {fault.message}"
  | .notTriangle face corners => s!"face {face} has {corners} vertices after triangulation"
  | .file path fault => s!"I/O error on {path}: {fault.message}"
  | .emptySuffix =>
    "Configuration error: output suffix must not be empty; the input would be overwritten"
  | .settings none reason => s!"Configuration error: {reason}"
  | .settings (some path) reason => s!"Configuration error: {path}: {reason}"

/-- A malformed line with its number in a document. Other errors happen elsewhere. -/
def atLine (number : Nat) : Error → Error
  | .malformed _ fault => .malformed number fault
  | e => e

/-- Whether the error concerns one group only, so that the document goes on. -/
def isGroupLocal : Error → Bool
  | .edit .. => true
  | _ => false

/-- Nothing but what an editor refuses concerns one group only. -/
theorem isGroupLocal_eq_true_iff {e : Error} :
    e.isGroupLocal = true ↔ ∃ operation fault, e = .edit operation fault := by
  cases e <;> simp [isGroupLocal]

theorem isGroupLocal_eq_false_iff {e : Error} :
    e.isGroupLocal = false ↔ ∀ operation fault, e ≠ .edit operation fault := by
  cases e <;> simp [isGroupLocal]

end Error

end CollisionMesh
