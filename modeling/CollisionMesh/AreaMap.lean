import CollisionMesh.Number.Shortest
import CollisionMesh.Record.Line
import Std.Data.HashMap

namespace CollisionMesh

open Number Text

/-!
# Area maps

A rewritten document read back: areas opened by `AREA` lines, triangles whose type
is set by `COLLISIONTYPE` lines, and vertices with 16-bit coordinates that the
triangles of an area share by position.

* `AreaTriangle`, `Area`, `AreaMap` — what a document holds;
* `Area.histogram` — how many triangles of an area have each type;
* `AreaBuilder` — an area that is being read, with an index of its vertices;
* `AreaMap.parse` — the map that a document stands for, or its first fault;
* `AreaMap.find?` — an area by its two numbers.
-/

/-- A place on the 16-bit grid. -/
structure GridPoint where
  x : Int16
  y : Int16
  z : Int16
deriving DecidableEq, Hashable, Repr

/-- A triangle of an area. -/
structure AreaTriangle where
  collisionType : UInt8
  /-- Positions of the corners in the area's vertex list. -/
  corners : Triple Nat
  /-- The two parameter bytes, if the line has any. -/
  params : Option (UInt8 × UInt8)
deriving DecidableEq, Repr

/-- The collision mesh of one area of a level. -/
structure Area where
  level : UInt32
  number : UInt32
  vertices : Array GridPoint
  triangles : Array AreaTriangle
deriving DecidableEq, Repr

namespace Area

/-- An area without triangles. -/
def empty (level number : UInt32) : Area :=
  ⟨level, number, #[], #[]⟩

/-- The number of triangles of a type. -/
def countOf (a : Area) (collisionType : UInt8) : Nat :=
  a.triangles.toList.countP (fun t => t.collisionType == collisionType)

/-- The types that occur with the number of their triangles, by ascending type. -/
def histogram (a : Area) : List (UInt8 × Nat) :=
  ((List.range 256).map fun n => (UInt8.ofNat n, a.countOf (UInt8.ofNat n))).filter
    (fun entry => entry.2 != 0)

end Area

/-- A coordinate on the 16-bit grid: an integer from -32768 to 32767. -/
def gridCoordinate (c : Float) : Except LineFault Int16 :=
  match integral? c with
  | some n =>
    if -32768 ≤ n ∧ n ≤ 32767 then .ok (Int16.ofInt n)
    else .error (.notShort (String.ofList (shortestText c)))
  | none => .error (.notShort (String.ofList (shortestText c)))

/-- A point on the 16-bit grid. -/
def gridPoint (p : Point Float) : Except LineFault GridPoint :=
  return ⟨← gridCoordinate p.x, ← gridCoordinate p.y, ← gridCoordinate p.z⟩

/-- An area that is being read, and where in its vertex list each position stands. -/
structure AreaBuilder where
  area : Area
  index : Std.HashMap GridPoint Nat

namespace AreaBuilder

/-- The builder of an area without triangles. -/
def new (level number : UInt32) : AreaBuilder :=
  ⟨.empty level number, ∅⟩

/-- Where a position stands in the vertex list. One that the index does not have is entered with
    the end of the list, and what stands at the end is put there. -/
def vertex (p : GridPoint) (b : AreaBuilder) : Nat × AreaBuilder :=
  let next := b.area.vertices.size
  let slot := b.index.getD p next
  let b := { b with index := b.index.insertIfNew p next }
  if slot = next then
    (slot, { b with area := { b.area with vertices := b.area.vertices.push p } })
  else (slot, b)

/-- The builder with the triangle of a line, corner by corner. -/
def push (collisionType : UInt8) (ws : List (List Char)) (b : AreaBuilder) :
    Except LineFault AreaBuilder := do
  let record ← Record.ofWords ws
  let p ← gridPoint record.corners.a
  let (i, b) := b.vertex p
  let q ← gridPoint record.corners.b
  let (j, b) := b.vertex q
  let r ← gridPoint record.corners.c
  let (k, b) := b.vertex r
  let triangle := ⟨collisionType, ⟨i, j, k⟩, record.key.map Key.bytes⟩
  return { b with area := { b.area with triangles := b.area.triangles.push triangle } }

end AreaBuilder

/-- All areas of a document in the order of their headers. -/
structure AreaMap where
  areas : List Area
deriving DecidableEq, Repr

namespace AreaMap

/-- A document that is being read: the areas before the open one, the open one, and the
    type of the triangles to come. -/
structure Builder where
  closed : Array Area
  current : Option AreaBuilder
  collisionType : UInt8

namespace Builder

/-- A document before its first line. -/
def start : Builder :=
  ⟨#[], none, 0⟩

/-- The areas read so far, the open one included. -/
def areas (b : Builder) : List Area :=
  b.closed.toList ++ (b.current.map (·.area)).toList

end Builder

/-- A header number: the word at a position, if `read?` accepts it. -/
def headerNumber {β : Type} (ws : List (List Char)) (place : Nat)
    (read? : List Char → Option β) : Except LineFault β :=
  match ws[place]? >>= read? with
  | some n => .ok n
  | none => .error (.header (joinWords ws))

/-- Reads a line by its words. An area header resets the type to zero; lines with
    another first word, or none, say nothing. -/
def Builder.step (b : Builder) (ws : List (List Char)) : Except LineFault Builder :=
  match ws with
  | [] => return b
  | tag :: _ =>
    if tag = areaTag.toList then do
      let level ← headerNumber ws 1 word?
      let number ← headerNumber ws 2 word?
      return ⟨b.areas.toArray, some (.new level number), 0⟩
    else if tag = collisionTypeTag.toList then do
      return { b with collisionType := ← headerNumber ws 1 byte? }
    else if tag = triangleTag.toList then
      match b.current with
      | none => throw .outsideArea
      | some area => return { b with current := some (← area.push b.collisionType ws) }
    else return b

/-- Reads lines from a line number on, up to the first fault. -/
def Builder.run (b : Builder) (number : Nat) : List String → Except Error Builder
  | [] => .ok b
  | line :: rest =>
    match b.step (words line.toList) with
    | .error fault => .error (.malformed number fault)
    | .ok b => b.run (number + 1) rest

/-- The map that a document stands for. -/
def parse (text : String) : Except Error AreaMap :=
  (Builder.start.run 1 (lines text)).map fun b => ⟨b.areas⟩

/-- The number of triangles of all areas. -/
def triangleCount (m : AreaMap) : Nat :=
  m.areas.foldr (fun a n => a.triangles.size + n) 0

/-- The first area with the two numbers. -/
def find? (m : AreaMap) (level number : UInt32) : Option Area :=
  m.areas.find? (fun a => a.level == level && a.number == number)

end AreaMap

end CollisionMesh
