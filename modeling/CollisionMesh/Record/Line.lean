import CollisionMesh.Error
import CollisionMesh.Number.Decimal
import CollisionMesh.Record
import CollisionMesh.Text.Blank

namespace CollisionMesh

open Number Text

/-!
# Triangle lines

A record is a line of words: the tag `TRI`, three vertices and either nothing or
the two bytes of a key. A vertex is three coordinates with semicolons between
them. Coordinates may be fractional where a line is read; where one is written
they are rounded to integers.

* `Record.ofWords`, `Record.ofLine` — the record that a line stands for, or the
  fault that comes first: tag, number of words, vertices, key;
* `Record.ofLoneLine` — the same for a line outside any document;
* `Record.line` — the line that a record is written as;
* `LineKind` — what the first word of a line announces;
* `indented`, `render` — a document with its lines indented by kind.
-/

/-- A vertex from one word. -/
def vertexOfWord (word : List Char) : Except LineFault (Point Float) := do
  match split (· == ';') word with
  | [x, y, z] => return ⟨← component x, ← component y, ← component z⟩
  | parts => throw (.components (String.ofList word) parts.length)
where
  component (text : List Char) : Except LineFault Float :=
    match finite? text with
    | some c => return c
    | none => throw (.coordinate (String.ofList text) (String.ofList word))

/-- A byte of a key from one word. -/
def keyByteOfWord (word : List Char) : Except LineFault UInt8 :=
  match byte? word with
  | some b => return b
  | none => throw (.keyByte (String.ofList word))

namespace Record

/-- The corners from three words. -/
def cornersOfWords (a b c : List Char) : Except LineFault (Triple (Point Float)) :=
  return ⟨← vertexOfWord a, ← vertexOfWord b, ← vertexOfWord c⟩

/-- The key from two words. -/
def keyOfWords (high low : List Char) : Except LineFault Key :=
  return .ofBytes (← keyByteOfWord high) (← keyByteOfWord low)

/-- The record that the words of a line stand for. -/
def ofWords : List (List Char) → Except LineFault Record
  | [] => throw .notTriangle
  | tag :: rest =>
    if tag ≠ triangleTag.toList then throw .notTriangle
    else match rest with
      | [a, b, c] => return ⟨← cornersOfWords a b c, none⟩
      | [a, b, c, high, low] => do
        let corners ← cornersOfWords a b c
        return ⟨corners, some (← keyOfWords high low)⟩
      | _ =>
        if rest.length < 3 then throw (.missingVertices rest.length)
        else throw (.keyWords (rest.length - 3))

/-- The record that a line stands for. -/
def ofLine (line : String) : Except LineFault Record :=
  ofWords (words line.toList)

/-- A line that stands alone, read as a record. It has no number; a fault is reported with zero
    in its place. -/
def ofLoneLine (line : String) : Except Error Record :=
  (ofLine line).mapError (.malformed 0)

/-- A vertex as a word, its coordinates rounded to integers. -/
def vertexWord (p : Point Float) : List Char :=
  integerText (toInteger p.x) ++ ';' :: integerText (toInteger p.y)
    ++ ';' :: integerText (toInteger p.z)

/-- The words of a record. -/
def toWords (r : Record) : List (List Char) :=
  triangleTag.toList :: r.corners.toList.map vertexWord
    ++ match r.key with
      | none => []
      | some k => [digits k.high.toNat, digits k.low.toNat]

/-- The line that a record is written as: its words with single spaces. -/
def line (r : Record) : String :=
  joinWords r.toWords

end Record

/-- What the first word of a line announces. -/
inductive LineKind where
  | triangle
  | collisionType
  | other
deriving DecidableEq, Repr

/-- The kind of a line by its words. -/
def LineKind.ofWords : List (List Char) → LineKind
  | [] => .other
  | tag :: _ =>
    if tag = triangleTag.toList then .triangle
    else if tag = collisionTypeTag.toList then .collisionType
    else .other

/-- The kind of a line. -/
def LineKind.of (line : String) : LineKind :=
  .ofWords (words line.toList)

/-- How far lines of a kind are indented. -/
def LineKind.indent : LineKind → String
  | .triangle => "\t\t"
  | .collisionType => "\t"
  | .other => ""

/-- A line without the blanks around it, indented by its kind. -/
def indented (line : String) : String :=
  (LineKind.of line).indent ++ trim line

/-- A document: every line indented and ended by a line feed. -/
def render (lines : List String) : String :=
  String.join (lines.map fun line => indented line ++ "\n")

end CollisionMesh
