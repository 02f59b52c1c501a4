import CollisionMesh.Mesh
import CollisionMesh.Mesh.EarClip

namespace CollisionMesh

open Scalar

/-!
# Cutting faces into triangles

* `Clipper` — a way to cut polygons of the plane;
* `fan` — the triangles from the first corner of a polygon;
* `cutPolygon` — the triangles of a polygon in space, wound as it is: cut in its
  plane where it has one and the clipper covers it, else as a fan;
* `triangulate` — the faces with those of more than three corners cut and those of
  fewer left out.
-/

/-- A way to cut polygons of the plane into triangles by the positions of their
    corners, which may fail. -/
class Clipper (α : Type) where
  clip : List (Planar α) → Option (List (Triple Nat))

instance : Clipper Float := ⟨earClip⟩

/-- The triangles from the first of `n` corners to every edge that does not meet
    it. -/
def fan (n : Nat) : List (Triple Nat) :=
  (List.range (n - 2)).map fun i => ⟨0, i + 1, i + 2⟩

/-- Two directions at right angles in the plane with a normal. -/
structure PlaneBasis (α : Type) where
  tangent : Vec α
  bitangent : Vec α

namespace PlaneBasis

variable {α : Type} [Scalar α]

/-- Directions in the plane with a normal: the first at right angles to the upright
    as well, or to the y axis where the normal is nearly upright. -/
def ofNormal (normal : Vec α) : PlaneBasis α :=
  let up : Vec α := if magnitude normal.z < 0.9 then ⟨0.0, 0.0, 1.0⟩ else ⟨0.0, 1.0, 0.0⟩
  let tangent := (up.cross normal).unit
  ⟨tangent, (normal.cross tangent).unit⟩

/-- A displacement by its shares in both directions. -/
def flatten (b : PlaneBasis α) (v : Vec α) : Planar α :=
  ⟨v.dot b.tangent, v.dot b.bitangent⟩

end PlaneBasis

/-- Whether an answer of a clipper covers a polygon of `n` corners: it has `n - 2`
    triangles over those corners. It is the number that an answer is judged by. A clipper is
    trusted to name corners of its polygon only, and the test of their range stands for that
    assumption. -/
def covers (n : Nat) (triangles : List (Triple Nat)) : Bool :=
  triangles.length == n - 2 && triangles.all fun t => t.a < n && t.b < n && t.c < n

variable {α : Type} [Scalar α]

/-- A triangle wound so that it does not look against a normal. -/
def facing (points : Array (Point α)) (normal : Vec α) (t : Triple Nat) : Triple Nat :=
  let corner (i : Nat) := points.getD i Point.origin
  let winding := (corner t.b - corner t.a).cross (corner t.c - corner t.a)
  if winding.dot normal < 0.0 then ⟨t.a, t.c, t.b⟩ else t

/-- The triangles of a polygon in space by the positions of its corners, wound as
    the polygon. Where the clipper fails, or answers with another number of triangles, they are
    a fan. With a clipper that names corners of its polygon only, `covers` asks no more than
    that. -/
def cutPolygon [Clipper α] (points : List (Point α)) : List (Triple Nat) :=
  match points with
  | [] | [_] | [_, _] => []
  | [_, _, _] => [⟨0, 1, 2⟩]
  | first :: _ =>
    let n := points.length
    match (newellNormal points).unit? with
    | none => fan n
    | some normal =>
      let basis := PlaneBasis.ofNormal normal
      let flat := points.map fun p => basis.flatten (p - first)
      let triangles := ((Clipper.clip flat).filter (covers n)).getD (fan n)
      triangles.map (facing points.toArray normal)

/-- The faces that a face becomes when `cut` cuts polygons of more than three
    corners. -/
def cutFace (cut : Face → List (Triple Nat)) (face : Face) : List Face :=
  match face with
  | [] | [_] | [_, _] => []
  | [_, _, _] => [face]
  | _ =>
    let corners := face.toArray
    (cut face).map fun t => (t.map fun i => corners.getD i 0).toList

/-- The faces with those of more than three corners cut, in their places, and those
    of fewer than three left out. -/
def triangulate (cut : Face → List (Triple Nat)) (faces : List Face) : List Face :=
  faces.flatMap (cutFace cut)

namespace Mesh

/-- The mesh with its faces cut into triangles. -/
def triangulate [Clipper α] (m : Mesh α) : Mesh α :=
  { m with faces := CollisionMesh.triangulate (fun face => cutPolygon (m.positions face)) m.faces }

end Mesh

end CollisionMesh
