import CollisionMesh.Error
import CollisionMesh.Mesh.Crease
import CollisionMesh.Mesh.Region
import CollisionMesh.Mesh.Straighten
import CollisionMesh.Mesh.Triangulate
import CollisionMesh.Mesh.Weld

namespace CollisionMesh

/-!
# Passes over a mesh

* `Pass` — the edits that a mesh goes through on its way to few triangles;
* `Pass.edit` — what a pass makes of a mesh;
* `Mesh.apply` — the same, refused where there is no face;
* `Tolerances` — the distance and the angles that the passes allow;
* `Tolerances.passes` — weld, split, dissolve, weld again, triangulate.
-/

/-- An edit of a whole mesh. -/
inductive Pass (α : Type) where
  /-- Makes vertices within a distance one. -/
  | weld (distance : α)
  /-- Parts faces that meet at more than an angle. -/
  | edgeSplit (angle : α)
  /-- Merges faces and removes corners that are flat up to an angle. -/
  | dissolve (angle : α)
  /-- Cuts faces into triangles. -/
  | triangulate

/-- The request to a mesh editor that the pass is. -/
def Pass.operation {α : Type} : Pass α → Operation
  | .weld _ => .weld
  | .edgeSplit _ => .edgeSplit
  | .dissolve _ => .dissolve
  | .triangulate => .triangulate

variable {α : Type} [Scalar α]

/-- The mesh with its flat regions merged, then without its straight corners and
    without the vertices that no face uses any more. -/
def Mesh.dissolve (angle : α) (m : Mesh α) : Mesh α :=
  ((m.mergeRegions angle).straightenCorners angle).compact

/-- The mesh that a pass makes of a mesh. -/
def Pass.edit [Clipper α] : Pass α → Mesh α → Mesh α
  | .weld distance => Mesh.weld distance
  | .edgeSplit angle => Mesh.splitEdges angle
  | .dissolve angle => Mesh.dissolve angle
  | .triangulate => Mesh.triangulate

namespace Mesh

/-- The mesh after a pass. A mesh without faces cannot be edited. -/
def apply [Clipper α] (pass : Pass α) (m : Mesh α) : Except EditFault (Mesh α) :=
  if m.faces.isEmpty then .error .noFaces else .ok (pass.edit m)

omit [Scalar α] in
/-- How the size of a mesh changed. -/
def changeText (before after : Mesh α) : String :=
  s!"{before.vertices.size} -> {after.vertices.size} vertices, "
    ++ s!"{before.faces.length} -> {after.faces.length} faces"

end Mesh

/-- The distance and the angles, in radians, that the passes allow. -/
structure Tolerances (α : Type) where
  weldDistance : α
  splitAngle : α
  dissolveAngle : α

/-- The passes on the way to few triangles, in their order. The second weld joins
    again what was split. -/
def Tolerances.passes {α : Type} (t : Tolerances α) : List (Pass α) :=
  [.weld t.weldDistance, .edgeSplit t.splitAngle, .dissolve t.dissolveAngle,
    .weld t.weldDistance, .triangulate]

/-- The angle of one degree: the double nearest to `π / 180`. -/
def degree : Float := 0.017453292519943295

/-- Two and a half units, and two degrees. -/
def Tolerances.standard : Tolerances Float where
  weldDistance := 2.5
  splitAngle := 2.0 * degree
  dissolveAngle := 2.0 * degree

end CollisionMesh
