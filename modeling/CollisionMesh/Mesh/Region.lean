import CollisionMesh.Mesh.Edges

namespace CollisionMesh

/-!
# Flat regions and their outlines

Faces that look nearly the same way as a first face, and are connected to it across
edges between exactly two faces, form a region. A region with a single simple
outline is replaced by one polygon.

* `flood` — all that can be reached from a queue, out of what is left;
* `regions` — the faces parted into regions, first come first served;
* `outline?` — the closed walk along some directed edges that uses each once;
* `merge` — the faces with every outlined region replaced by its outline;
* `Mesh.mergeRegions` — the mesh with its flat regions merged; `Mesh.mergedAway` — how
  many faces fewer it has.
-/

/-- The pending faces that fit and are twins of `f`. -/
def found (twins : Nat → List Nat) (fits : Nat → Bool) (f : Nat) (pending : List Nat) : List Nat :=
  let across := twins f
  pending.filter fun g => fits g && across.contains g

/-- The pending faces that do not fit or are no twins of `f`. -/
def missed (twins : Nat → List Nat) (fits : Nat → Bool) (f : Nat) (pending : List Nat) : List Nat :=
  let across := twins f
  pending.filter fun g => !(fits g && across.contains g)

/-- Every pending face is either found or missed. -/
theorem length_found_add_length_missed (twins : Nat → List Nat) (fits : Nat → Bool) (f : Nat)
    (pending : List Nat) :
    (found twins fits f pending).length + (missed twins fits f pending).length
      = pending.length := by
  show (pending.filter fun g => fits g && (twins f).contains g).length
    + (pending.filter fun g => !(fits g && (twins f).contains g)).length = pending.length
  induction pending with
  | nil => rfl
  | cons g rest ih =>
    simp only [List.filter_cons]
    cases fits g && (twins f).contains g <;>
      simp only [Bool.not_true, Bool.not_false, if_true, if_false, List.length_cons,
        Bool.false_eq_true] <;> omega

/-- What can be reached from the queue across `twins` among the pending faces that
    fit, the queue first, and the pending faces that cannot. -/
def flood (twins : Nat → List Nat) (fits : Nat → Bool) (queue pending : List Nat) :
    List Nat × List Nat :=
  match queue with
  | [] => ([], pending)
  | f :: queue =>
    let rest := flood twins fits (queue ++ found twins fits f pending)
      (missed twins fits f pending)
    (f :: rest.1, rest.2)
termination_by queue.length + pending.length
decreasing_by
  have := length_found_add_length_missed twins fits f pending
  simp only [List.length_append, List.length_cons]
  omega

/-- A flood leaves no more than what was pending. -/
theorem length_flood_le (twins : Nat → List Nat) (fits : Nat → Bool) (queue pending : List Nat) :
    (flood twins fits queue pending).2.length ≤ pending.length := by
  fun_induction flood twins fits queue pending with
  | case1 => exact Nat.le_refl _
  | case2 pending f queue rest ih =>
    have := length_found_add_length_missed twins fits f pending
    exact Nat.le_trans ih (by omega)

/-- The pending faces parted into regions. The first pending face starts a region,
    which takes all that fits it and can be reached; each region is in face order. -/
def regions (twins : Nat → List Nat) (fits : Nat → Nat → Bool) : List Nat → List (List Nat)
  | [] => []
  | seed :: pending =>
    (flood twins (fits seed) [seed] pending).1.mergeSort ::
      regions twins fits (flood twins (fits seed) [seed] pending).2
termination_by pending => pending.length
decreasing_by
  have := length_flood_le twins (fits seed) [seed] pending
  simp only [List.length_cons]
  omega

/-- The vertices from `current` on along `next`, up to `start`, in at most `steps`
    steps. -/
def walk (next : Nat → Option Nat) (start : Nat) : Nat → Nat → Option (List Nat)
  | 0, current => if current = start then some [] else none
  | steps + 1, current =>
    if current = start then some []
    else (next current).bind fun v => (walk next start steps v).map (current :: ·)

/-- The closed walk that uses each of some directed edges once and visits no vertex
    twice, from the start of the first edge on; there must be at least three. -/
def outline? (edges : List (Nat × Nat)) : Option Face :=
  match edges with
  | [] => none
  | (start, second) :: rest =>
    if (edges.map (·.1)).Nodup then
      match walk (fun v => edges.lookup v) start rest.length second with
      | some vertices =>
        if vertices.length = rest.length ∧ 3 ≤ edges.length then some (start :: vertices)
        else none
      | none => none
    else none

/-- The edges of a region with no face of the region on their other side, in face
    and loop order. -/
def boundary (faces : Array Face) (users : Nat × Nat → List Nat) (region : List Nat) :
    List (Nat × Nat) :=
  region.flatMap fun f => (loopEdges (faces.getD f [])).filter fun e =>
    match twin? users e with
    | some g => !region.contains g
    | none => true

/-- The regions of several faces that have an outline, with it. -/
def outlined (faces : Array Face) (users : Nat × Nat → List Nat) (parts : List (List Nat)) :
    List (List Nat × Face) :=
  parts.filterMap fun region =>
    if 1 < region.length then (outline? (boundary faces users region)).map fun o => (region, o)
    else none

/-- The faces with every outlined region replaced by its outline, which stands in
    the place of the first face of the region. -/
def merge (faces : List Face) (merged : List (List Nat × Face)) : List Face :=
  faces.zipIdx.filterMap fun (face, f) =>
    match merged.find? fun m => m.1.contains f with
    | none => some face
    | some (region, outline) => if region.head? = some f then some outline else none

namespace Mesh

variable {α : Type} [Scalar α]

/-- Whether a face looks in a direction within the angle of that of the seed. -/
def within (angle : α) (normal? : Nat → Option (Vec α)) (seed f : Nat) : Bool :=
  match normal? seed, normal? f with
  | some u, some v => angleBetween u v ≤ angle
  | _, _ => false

/-- The faces on the other sides of a face's edges, in loop order. -/
def twinsOf (faces : Array Face) (users : Nat × Nat → List Nat) (f : Nat) : List Nat :=
  (loopEdges (faces.getD f [])).filterMap (twin? users)

/-- The flat regions of a mesh. -/
def flatRegions (angle : α) (users : Nat × Nat → List Nat) (m : Mesh α) : List (List Nat) :=
  let normals := (m.faces.map m.normal?).toArray
  regions (twinsOf m.faces.toArray users) (within angle fun f => normals.getD f none)
    (List.range m.faces.length)

/-- The flat regions of a mesh that have an outline, with it. -/
def mergedRegions (angle : α) (m : Mesh α) : List (List Nat × Face) :=
  let table := EdgeTable.ofUses (edgeUses m.faces)
  outlined m.faces.toArray table.users (m.flatRegions angle table.users)

/-- The mesh with every outlined flat region merged into one face. -/
def mergeRegions (angle : α) (m : Mesh α) : Mesh α :=
  { m with faces := merge m.faces (m.mergedRegions angle) }

/-- How many faces merging takes away: all but one of every merged region. -/
def mergedAway (angle : α) (m : Mesh α) : Nat :=
  (m.mergedRegions angle).foldl (fun away (region, _) => away + (region.length - 1)) 0

end Mesh

end CollisionMesh
