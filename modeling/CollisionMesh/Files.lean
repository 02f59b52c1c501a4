import CollisionMesh.AreaMap
import CollisionMesh.Processing

namespace CollisionMesh

open Text

/-!
# Documents in files

* `FileAccess` — reading whole files by path, and writing files piece by piece;
* `outputPath` — the path of the output beside that of the input;
* `readLines`, `readMap`, `writeLines`, `writeBeside` — documents in files;
* `processFile` — a document read, processed and written beside its input.
-/

/-- Files by path. -/
class FileAccess (m : Type → Type) where
  /-- A file that is being written. -/
  Writer : Type
  /-- The text of a file. -/
  readText : String → m (Except FileFault String)
  /-- Makes an empty file, in place of one that is there, to be written. -/
  create : String → m (Except FileFault Writer)
  /-- Puts a text at the end of a file that is being written. -/
  append : Writer → String → m (Except FileFault Unit)
  /-- Ends the writing of a file. -/
  flush : Writer → m (Except FileFault Unit)

/-- The path of the output: the path of the input with a suffix. -/
def outputPath (input suffix : String) : String :=
  input ++ suffix

variable {m : Type → Type} [Monad m] [FileAccess m]

/-- The text of a file. -/
def readFile (path : String) : m (Except Error String) := do
  return (← FileAccess.readText path).mapError (.file path)

/-- The lines of a file. -/
def readLines (path : String) : m (Except Error (List String)) := do
  return (← readFile path).map lines

/-- The area map in a file. -/
def readMap (path : String) : m (Except Error AreaMap) := do
  return (← readFile path).bind AreaMap.parse

/-- Writes lines into a file, each indented and ended by a line feed. -/
def appendLines (writer : FileAccess.Writer m) : List String → m (Except FileFault Unit)
  | [] => FileAccess.flush writer
  | line :: rest => do
    match ← FileAccess.append writer (indented line ++ "\n") with
    | .error fault => return .error fault
    | .ok () => appendLines writer rest

/-- Makes a file of indented lines, in place of one that is there. -/
def writeLines (lines : List String) (path : String) : m (Except Error Unit) := do
  match ← FileAccess.create path with
  | .error fault => return .error (.file path fault)
  | .ok writer => return (← appendLines writer lines).mapError (.file path)

/-- Makes a file of indented lines beside an input, and answers its path. The
    suffix must not be empty. -/
def writeBeside (lines : List String) (input suffix : String) : m (Except Error String) := do
  if suffix.isEmpty then return .error .emptySuffix
  let path := outputPath input suffix
  return (← writeLines lines path).map fun _ => path

/-- Processes the document in a file and writes the result beside it. Answers the
    path of the result and the counts. -/
def processFile {σ : Type} [MeshEditor Float σ] (s : Settings) (path : String) (editor : σ) :
    m (Except Error (String × Report) × σ) := do
  match ← readLines path with
  | .error e => return (.error e, editor)
  | .ok lines =>
    let outcome := processLines s lines editor
    match outcome.result with
    | .error e => return (.error e, outcome.editor)
    | .ok (lines, report) =>
      let written ← writeBeside lines path s.outputSuffix
      return (written.map fun output => (output, report), outcome.editor)

end CollisionMesh
