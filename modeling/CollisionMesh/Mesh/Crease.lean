import CollisionMesh.Mesh.Edges
import CollisionMesh.Mesh.LeastForest

namespace CollisionMesh

/-!
# Splitting creases

An edge is sharp where exactly two faces meet at more than a given angle. Around
each vertex the faces fall into fans, linked by edges that are not sharp. The fan
of the first face keeps the vertex, and every other fan gets a copy of it.

* `Creases` — a surface with its sharp edges;
* `Creases.linked`, `Creases.fans` — the fans around a vertex;
* `FanTable` — the fans around all vertices;
* `FanTable.copies`, `FanTable.corner` — the copies that the fans need, and the
  vertex that a fan takes;
* `Mesh.splitEdges` — the mesh with its creases split.
-/

/-- Faces, the faces that use an edge, and which edges are sharp. -/
structure Creases where
  faces : Array Face
  /-- The faces that use an edge without direction. -/
  users : Nat × Nat → List Nat
  /-- Whether an edge without direction is sharp. -/
  sharp : Nat × Nat → Bool

namespace Creases

/-- The faces with a corner at a vertex, in face order. -/
def incident (c : Creases) (v : Nat) : List Nat :=
  (List.range c.faces.size).filter fun f => (c.faces.getD f []).contains v

/-- Whether an edge at `v` that is not sharp belongs to both faces. -/
def linked (c : Creases) (v f g : Nat) : Bool :=
  (loopEdges (c.faces.getD f [])).any fun e =>
    (e.1 == v || e.2 == v) && !c.sharp (side e) && (c.users (side e)).contains g

/-- The faces at a vertex, each with the first face of its fan. -/
def fans (c : Creases) (v : Nat) : List (Nat × Nat) :=
  let around := c.incident v
  let forest := LeastForest.ofRelation around.length fun i j =>
    c.linked v (around.getD i 0) (around.getD j 0)
  around.zipIdx.map fun (f, i) => (f, around.getD (forest.least i) 0)

end Creases

/-- For each vertex the faces around it, each with the first face of its fan. -/
abbrev FanTable := Array (List (Nat × Nat))

/-- The fans around the vertices below `n`. -/
def Creases.table (c : Creases) (n : Nat) : FanTable :=
  ((List.range n).map c.fans).toArray

namespace FanTable

/-- The first faces of the fans at a vertex but the very first one. -/
def laterFans (fans : List (Nat × Nat)) : List Nat :=
  ((fans.filter fun fan => fan.1 == fan.2).drop 1).map (·.1)

/-- The copies that the fans need: a vertex and the first face of the fan that the
    copy is for. -/
def copies (t : FanTable) : List (Nat × Nat) :=
  t.toList.zipIdx.flatMap fun (fans, v) => (laterFans fans).map fun f => (v, f)

/-- The vertex that a face takes for its corner at `v`, where the copies are
    numbered from the size of the table on. -/
def corner (t : FanTable) (copies : List (Nat × Nat)) (f v : Nat) : Nat :=
  match (t.getD v []).lookup f with
  | none => v
  | some first =>
    match copies.idxOf? (v, first) with
    | none => v
    | some k => t.size + k

end FanTable

namespace Mesh

variable {α : Type} [Scalar α]

/-- Whether exactly two faces meet in an edge, both of them with a direction, and
    at more than the angle. -/
def isSharp (angle : α) (normal? : Nat → Option (Vec α)) : List Nat → Bool
  | [f, g] =>
    match normal? f, normal? g with
    | some u, some v => f != g && decide (angle < angleBetween u v)
    | _, _ => false
  | _ => false

/-- The faces of a mesh with their sharp edges. -/
def creases (angle : α) (m : Mesh α) : Creases :=
  let table := EdgeTable.ofUses (sideUses m.faces)
  let normals := (m.faces.map m.normal?).toArray
  { faces := m.faces.toArray
    users := table.users
    sharp := fun e => isSharp angle (fun f => normals.getD f none) (table.users e) }

/-- The mesh with a vertex of its own for every fan around each vertex; without a
    sharp edge the mesh as it is. -/
def splitEdges (angle : α) (m : Mesh α) : Mesh α :=
  let c := m.creases angle
  if (sideUses m.faces).any (fun use => c.sharp use.1) then
    let table := c.table m.vertices.size
    let copies := table.copies
    { vertices := m.vertices ++ (copies.map fun copy => m.position copy.1).toArray
      faces := m.faces.zipIdx.map fun (face, f) => face.map (table.corner copies f) }
  else m

end Mesh

end CollisionMesh
