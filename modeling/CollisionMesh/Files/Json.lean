import CollisionMesh.Files
import CollisionMesh.Text.Json

namespace CollisionMesh

open Text

/-!
# Counts and maps as JSON

The report of a document and an area map as JSON values.
-/

/-- The counts of a document as JSON. -/
def Report.json (r : Report) : Json :=
  .object [("control_lines", .number r.controlLines), ("flushes", .number r.runs),
    ("groups", .number r.groups), ("groups_failed", .number r.groupsFailed),
    ("triangles_in", .number r.trianglesIn), ("triangles_out", .number r.trianglesOut)]

/-- A grid point as a JSON list. -/
def GridPoint.json (p : GridPoint) : Json :=
  .list [.integer p.x.toInt, .integer p.y.toInt, .integer p.z.toInt]

/-- A triangle of an area as JSON. -/
def AreaTriangle.json (t : AreaTriangle) : Json :=
  .object [("collision_type", .number t.collisionType.toNat),
    ("vertices", .list (t.corners.toList.map Json.number)),
    ("params", match t.params with
      | none => .null
      | some (high, low) => .list [.number high.toNat, .number low.toNat])]

/-- An area as JSON. -/
def Area.json (a : Area) : Json :=
  .object [("level_id", .number a.level.toNat), ("area_id", .number a.number.toNat),
    ("vertices", .list (a.vertices.toList.map GridPoint.json)),
    ("triangles", .list (a.triangles.toList.map AreaTriangle.json))]

/-- An area map as JSON. -/
def AreaMap.json (m : AreaMap) : Json :=
  .object [("areas", .list (m.areas.map Area.json))]

end CollisionMesh
