import CollisionMesh.Files

namespace CollisionMesh

open Text

/-!
# Trees of files

A tree of folders and files with the rules by which paths are looked up in it:
names between slashes, `.` for the folder itself and `..` for the one above. Every
name but the last must be that of a folder. Links are left out, hard ones and symbolic
ones.

* `Location`, `FileTree` — places in a tree, and what stands there;
* `FileTree.resolve` — what a path leads to;
* `FileTree.readText`, `FileTree.create`, `FileTree.append` — reading and writing.
-/

/-- A place in a tree: the names on the way from the top. -/
abbrev Location := List String

/-- The folders of a tree below the top, and its files with their contents. There are no links, so
    that a suffix without a slash never leads back to the file that it is appended to. -/
structure FileTree where
  folders : List Location
  files : List (Location × ByteArray)

/-- What a path leads to. -/
inductive Target where
  | folder (location : Location)
  | file (location : Location) (content : ByteArray)
  /-- A name in a folder that stands for nothing there. -/
  | nothing (location : Location)

/-- The names between the slashes of a path. -/
def pathNames (path : String) : List String :=
  ((split (· == '/') path.toList).filter fun name => !name.isEmpty).map String.ofList

namespace FileTree

/-- What stands at a location. -/
def look (t : FileTree) (l : Location) : Target :=
  if l = [] ∨ l ∈ t.folders then .folder l
  else match t.files.lookup l with
    | some content => .file l content
    | none => .nothing l

/-- What a name leads to from a target on. -/
def step (t : FileTree) (target : Target) (name : String) : Except FileFault Target :=
  match target with
  | .file .. => .error .notDirectory
  | .nothing _ => .error .notFound
  | .folder l =>
    if name = "." then .ok (.folder l)
    else if name = ".." then .ok (.folder l.dropLast)
    else .ok (t.look (l ++ [name]))

/-- What a path leads to. The empty path leads nowhere. -/
def resolve (t : FileTree) (path : String) : Except FileFault Target :=
  if path.isEmpty then .error .notFound else (pathNames path).foldlM t.step (.folder [])

/-- Whether a path ends in a slash, so that only a folder can be meant. -/
def meansFolder (path : String) : Bool :=
  path.toList.getLast? = some '/'

/-- The text of the file that a path leads to. -/
def readText (path : String) (t : FileTree) : Except FileFault String :=
  match t.resolve path with
  | .error fault => .error fault
  | .ok (.folder _) => .error .isDirectory
  | .ok (.nothing _) => .error .notFound
  | .ok (.file _ content) =>
    if meansFolder path then .error .notDirectory
    else match String.fromUTF8? content with
      | some text => .ok text
      | none => .error .notText

/-- The tree with a content at a location. -/
def put (t : FileTree) (l : Location) (content : ByteArray) : FileTree :=
  { t with files := (t.files.filter fun entry => entry.1 ≠ l) ++ [(l, content)] }

/-- The tree with an empty file where a path leads to, and its location. No file is
    made where a folder is meant, be it there or not. -/
def create (path : String) (t : FileTree) : Except FileFault Location × FileTree :=
  match t.resolve path with
  | .error fault => (.error fault, t)
  | .ok (.folder _) => (.error .isDirectory, t)
  | .ok (.nothing l) | .ok (.file l _) =>
    if meansFolder path then (.error .isDirectory, t) else (.ok l, t.put l .empty)

/-- The tree with a text at the end of the file at a location. -/
def append (l : Location) (text : String) (t : FileTree) : FileTree :=
  t.put l ((t.files.lookup l).getD .empty ++ text.toUTF8)

/-- The folders that a location stands in, but the top. -/
def foldersAbove (l : Location) : List Location :=
  ((List.range l.length).drop 1).map fun depth => l.take depth

/-- A tree with some files and the folders that they stand in. -/
def ofFiles (files : List (String × ByteArray)) : FileTree :=
  let files := files.map fun (path, content) => (pathNames path, content)
  { folders := (files.flatMap fun file => foldersAbove file.1).eraseDups, files }

instance : FileAccess (StateM FileTree) where
  Writer := Location
  readText path := fun t => (t.readText path, t)
  create path := fun t => t.create path
  append l text := fun t => (.ok (), t.append l text)
  flush _ := fun t => (.ok (), t)

end FileTree

end CollisionMesh
