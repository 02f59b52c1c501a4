import CollisionMesh.Run

namespace CollisionMesh

/-!
# Documents

A document is a list of items: control lines, runs of triangles, each where it
ends, and notes that a key was dropped. Reading stops at the first malformed line.

* `Item` — one of them;
* `Step.items` — the items that a line adds;
* `Document.ofLines` — the items of a document, and the error that stops it.
-/

/-- A part of a document. -/
inductive Item where
  /-- A line that is no triangle, with its number and without the blanks around. -/
  | control (line : Nat) (text : String)
  /-- A line whose key was dropped, by its number. -/
  | ambiguous (line : Nat)
  /-- A run of triangles. -/
  | run (r : Run)

/-- The items that a line adds, by its number. -/
def Step.items (line : Nat) : Step → List Item
  | .collected ambiguous => if ambiguous then [.ambiguous line] else []
  | .control ended text => ended.toList.map Item.run ++ [.control line text]

/-- The items of a document up to its end or to its first malformed line. -/
structure Document where
  items : List Item
  fault : Option Error

namespace Document

/-- The items after some earlier ones that a reader finds in the lines to come; at
    the end of the lines the pending run is one. -/
def scan (c : Collector) (earlier : Array Item) : List String → Document
  | [] => ⟨earlier.toList ++ c.finish.1.toList.map Item.run, none⟩
  | line :: rest =>
    match c.push line with
    | (.error e, _) => ⟨earlier.toList, some e⟩
    | (.ok step, c) => scan c (earlier ++ step.items c.lineNumber) rest

/-- The items of a document. -/
def ofLines (policy : KeyPolicy) (lines : List String) : Document :=
  scan (Collector.new policy) #[] lines

end Document

end CollisionMesh
