import CollisionMesh.Geometry.Point

namespace CollisionMesh

/-!
# Cutting a plane polygon by clipping ears

An ear of a polygon is a convex corner whose triangle holds no other corner that is
not convex. Ears are cut off one by one while the corners are walked round. Where
no ear is left, straight corners are dropped; then small self-crossings are cut
off; then the polygon is split along a diagonal and both halves are cut on their
own.

* `Planar`, `Corner`, `Ring` — points of the plane, numbered corners, and closed
  polygons seen from one of their corners;
* `Ring.isEar`, `Ring.cut` — the test and the round;
* `Ring.tidy`, `Ring.uncross`, `Ring.diagonal?` — the three ways on;
* `Boxes` — on polygons of many corners only corners near the triangle are looked
  at, by their place on a curve that fills the plane;
* `earClip` — the triangles of a polygon; failing means that the curve has no place
  for one of the corners.
-/

/-- A point of the plane. -/
structure Planar (α : Type) where
  x : α
  y : α

/-- A corner of a polygon with its number. -/
structure Corner where
  number : Nat
  x : Float
  y : Float

/-- A closed polygon: the corner in view, then the others in turn. -/
abbrev Ring := List Corner

namespace Corner

/-- Twice the area of a triangle, negative where it turns inwards. -/
def area (p q r : Corner) : Float :=
  (q.y - p.y) * (r.x - q.x) - (q.x - p.x) * (r.y - q.y)

/-- Whether two corners lie in the same place. -/
def samePlace (p q : Corner) : Bool :=
  p.x == q.x && p.y == q.y

/-- Whether a corner lies in a triangle or on its rim. -/
def inTriangle (a b c p : Corner) : Bool :=
  (c.x - p.x) * (a.y - p.y) - (a.x - p.x) * (c.y - p.y) ≥ 0.0
    && (a.x - p.x) * (b.y - p.y) - (b.x - p.x) * (a.y - p.y) ≥ 0.0
    && (b.x - p.x) * (c.y - p.y) - (c.x - p.x) * (b.y - p.y) ≥ 0.0

/-- Whether two line segments cross, or are the same. -/
def crosses (p q r s : Corner) : Bool :=
  (p.samePlace r && q.samePlace s) || (p.samePlace s && q.samePlace r)
    || (decide (area p q r > 0.0) != decide (area p q s > 0.0)
      && decide (area r s p > 0.0) != decide (area r s q > 0.0))

/-- Whether the segment from `a` to `b` starts into the polygon, `before` and
    `after` being the neighbours of `a`. -/
def opensInto (before a after b : Corner) : Bool :=
  if area before a after < 0.0 then area a b after ≥ 0.0 && area a before b ≥ 0.0
  else area a b before < 0.0 || area a after b < 0.0

end Corner

open Corner

/-- Where corners lie on a curve that fills the plane: both coordinates are scaled
    to 15 bits and their bits interleaved. -/
structure Boxes where
  scale : Float

namespace Boxes

/-- A number with its lower 16 bits spread over the even places of 32. -/
def spread (n : Nat) : Nat :=
  (List.range 16).foldl (fun bits i => bits ||| ((n >>> i &&& 1) <<< (2 * i))) 0

/-- The place of a point on the curve. There is none for coordinates that are
    negative or no numbers. -/
def place? (b : Boxes) (x y : Float) : Option Nat := do
  let column ← Number.floor? (x * b.scale)
  let row ← Number.floor? (y * b.scale)
  return spread column ||| (spread row <<< 1)

/-- The first and the last place on the curve for points in the box around a
    triangle. -/
def window? (b : Boxes) (p q r : Corner) : Option (Nat × Nat) := do
  let lowest (u v w : Float) : Float := Scalar.least (Scalar.least u v) w
  let highest (u v w : Float) : Float := Scalar.greatest (Scalar.greatest u v) w
  let first ← b.place? (lowest p.x q.x r.x) (lowest p.y q.y r.y)
  let last ← b.place? (highest p.x q.x r.x) (highest p.y q.y r.y)
  return (first, last)

/-- Whether a corner lies between two places on the curve. -/
def between (b : Boxes) (window : Nat × Nat) (p : Corner) : Bool :=
  match b.place? p.x p.y with
  | some place => window.1 ≤ place && place ≤ window.2
  | none => false

end Boxes

namespace Ring

/-- The same polygon with the next corner in view. -/
def turn : Ring → Ring
  | [] => []
  | c :: rest => rest ++ [c]

/-- The same polygon with the corner before in view. -/
def turnBack (r : Ring) : Ring :=
  match r.getLast? with
  | none => []
  | some c => c :: r.dropLast

/-- Every corner with its two neighbours, from the corner in view on. -/
def views (r : Ring) : List (Corner × Corner × Corner) :=
  (turnBack r).zip (r.zip (turn r))

/-- The corners beside the triangle of the one in view, with their neighbours. With
    `boxes` given, only those near the triangle count. Otherwise a ring that is a
    triangle itself is held against all its corners: rounding can make it convex at
    one corner and not at another, and then it is not cut. -/
def beside (boxes : Option Boxes) (before ear after : Corner) (r : Ring) :
    Option (List (Corner × Corner × Corner)) :=
  let others := ((views r).drop 2).take (r.length - 3)
  match boxes with
  | none => some (if r.length = 3 then views r else others)
  | some b => (b.window? before ear after).map fun window =>
    others.filter fun view => b.between window view.2.1

/-- Whether the corner in view can be cut off: it is convex, and no corner beside
    it that is not convex lies in its triangle. -/
def isEar (boxes : Option Boxes) (before ear after : Corner) (r : Ring) : Option Bool :=
  if area before ear after ≥ 0.0 then some false
  else (beside boxes before ear after r).map fun views =>
    views.all fun (p, q, s) => !(inTriangle before ear after q && area p q s ≥ 0.0)

/-- A polygon part way cut: what is left, and the triangles in reverse. -/
structure Progress where
  ring : Ring
  cut : List (Triple Nat)

/-- Cuts ears off: the corner in view is tested; after a cut the walk skips one
    corner and starts a new round, and it ends after a round without an ear. -/
def cutEars (boxes : Option Boxes) : Nat → Nat → Progress → Option Progress
  | 0, _, p => some p
  | _, 0, p => some p
  | fuel + 1, left + 1, p =>
    match p.ring with
    | ear :: after :: rest => do
      let before := rest.getLastD after
      if ← isEar boxes before ear after p.ring then
        let ring := turn (after :: rest)
        let rounds := if ring.length ≤ 1 then 0 else ring.length
        cutEars boxes fuel rounds ⟨ring, ⟨before.number, ear.number, after.number⟩ :: p.cut⟩
      else cutEars boxes fuel left { p with ring := turn p.ring }
    | _ => some p

/-- Cuts ears off until a whole round finds none. -/
def cut (boxes : Option Boxes) (p : Progress) : Option Progress :=
  cutEars boxes ((p.ring.length + 1) * (p.ring.length + 1)) p.ring.length p

/-- Drops corners that lie straight between their neighbours or in the place of the
    next one. The walk goes `left` corners on; after a drop it steps back and goes
    all the way round again. -/
def tidyFor : Nat → Nat → Ring → Ring
  | 0, _, r => r
  | _, 0, r => r
  | fuel + 1, left + 1, r =>
    match r with
    | [] => []
    | [c] => if samePlace c c || area c c c == 0.0 then [c] else []
    | c :: after :: rest =>
      let before := rest.getLastD after
      if samePlace c after || area before c after == 0.0 then
        let r := turnBack (after :: rest)
        if r.length = 1 then r else tidyFor fuel r.length r
      else tidyFor fuel left (turn r)

/-- `tidyFor` with as many steps as it can take. -/
def tidy (left : Nat) (r : Ring) : Ring :=
  tidyFor ((r.length + 1) * (r.length + 1)) left r

/-- Cuts off small self-crossings: where the edges before and after an edge cross,
    the edge goes with the triangle over it. -/
def uncrossFor : Nat → Nat → Progress → Progress
  | 0, _, p => p
  | _, 0, p => p
  | fuel + 1, left + 1, p =>
    match p.ring with
    | c :: after :: b :: next :: rest =>
      let a := rest.getLastD next
      let beforeA := (b :: next :: rest).dropLast.getLastD b
      if !samePlace a b && crosses a c after b && opensInto beforeA a c b
          && opensInto after b next a then
        let ring := turn (b :: next :: rest)
        uncrossFor fuel (ring.length - 1) ⟨ring, ⟨a.number, c.number, b.number⟩ :: p.cut⟩
      else uncrossFor fuel left { p with ring := turn p.ring }
    | _ => uncrossFor fuel left { p with ring := turn p.ring }

/-- Cuts off small self-crossings, once round. -/
def uncross (p : Progress) : Progress :=
  uncrossFor ((p.ring.length + 1) * (p.ring.length + 1)) p.ring.length p

/-- Whether the middle of a segment lies inside a polygon: a ray from it crosses an
    odd number of edges. -/
def holdsMiddle (a b : Corner) (r : Ring) : Bool :=
  let x := (a.x + b.x) / 2.0
  let y := (a.y + b.y) / 2.0
  (cyclicPairs r).foldl
    (fun inside (p, q) =>
      if decide (p.y > y) != decide (q.y > y) && q.y != p.y
          && x < (q.x - p.x) * (y - p.y) / (q.y - p.y) + p.x
      then !inside else inside)
    false

/-- Whether a segment from the corner in view to the one at a position runs inside
    the polygon. -/
def isDiagonal (r : Ring) (position : Nat) : Bool :=
  match (views r)[0]?, (views r)[position]? with
  | some (before, a, after), some (beforeB, b, afterB) =>
    a.number != b.number && after.number != b.number && before.number != b.number
      && !(cyclicPairs r).any (fun (p, q) =>
        p.number != a.number && q.number != a.number && p.number != b.number
          && q.number != b.number && crosses p q a b)
      && opensInto before a after b && opensInto beforeB b afterB a && holdsMiddle a b r
  | _, _ => false

/-- The two polygons on both sides of a segment from the corner in view to the one
    at a position. -/
def halves (r : Ring) (position : Nat) : Ring × Ring :=
  (r.take 1 ++ r.drop position,
    (r.drop position).take 1 ++ r.take position)

/-- The two halves along the first diagonal: corners are taken in turn, and from
    each the corners after the next one are tried. -/
def split? : Nat → Ring → Option (Ring × Ring)
  | 0, _ => none
  | tries + 1, r =>
    match ((List.range (r.length - 1)).drop 2).find? (isDiagonal r) with
    | some position => some (halves r position)
    | none => split? tries (turn r)

/-- The triangles of a polygon, in reverse, after some that were cut before. Every
    split makes both polygons smaller. -/
def clip (boxes halfBoxes : Option Boxes) : Nat → Progress → Option (List (Triple Nat))
  | 0, p => some p.cut
  | depth + 1, p => do
    checkPlaces boxes p.ring
    let p ← cut boxes p
    if p.ring.length ≤ 2 then return p.cut
    let p ← cut boxes { p with ring := tidy p.ring.length p.ring }
    if p.ring.length ≤ 2 then return p.cut
    let p ← cut boxes (uncross p)
    if p.ring.length ≤ 2 then return p.cut
    match split? p.ring.length p.ring with
    | none => return p.cut
    | some (left, right) =>
      let done ← clip halfBoxes halfBoxes depth ⟨tidy 1 left, p.cut⟩
      clip halfBoxes halfBoxes depth ⟨tidy 1 right, done⟩
where
  /-- Fails if the curve has no place for a corner. -/
  checkPlaces (boxes : Option Boxes) (r : Ring) : Option Unit :=
    match boxes with
    | none => some ()
    | some b => r.forM fun c => (b.place? c.x c.y).map fun _ => ()

/-- A polygon with the last corner in view, turning inwards at its convex corners.
    A corner in the place of the next one is left out. -/
def ofCorners (corners : List Corner) : Ring :=
  let turning := ((corners.getLast?.toList ++ corners).zip corners).foldl
    (fun sum (q, p) => sum + (q.x - p.x) * (p.y + q.y)) 0.0
  let ring := turnBack (if turning > 0.0 then corners else corners.reverse)
  match ring with
  | c :: after :: rest => if samePlace c after then after :: rest else ring
  | _ => ring

end Ring

/-- From this number of corners on only those near a triangle are looked at. -/
def boxedSize : Nat := 40

/-- The triangles that cut a polygon, by the numbers of its corners. -/
def earClip (points : List (Planar Float)) : Option (List (Triple Nat)) := do
  let corners := points.zipIdx.map fun (p, i) => Corner.mk i p.x p.y
  let ring := Ring.ofCorners corners
  if points.length < boxedSize then
    (Ring.clip none (some ⟨0.0⟩) corners.length ⟨ring, []⟩).map List.reverse
  else
    let low (f : Corner → Float) := corners.foldl (fun m c => Scalar.least m (f c)) (1.0 / 0.0)
    let high (f : Corner → Float) := corners.foldl (fun m c => Scalar.greatest m (f c)) (-1.0 / 0.0)
    let x := low (·.x)
    let y := low (·.y)
    let size := Scalar.greatest (high (·.x) - x) (high (·.y) - y)
    let boxes := Boxes.mk (if size == 0.0 then 0.0 else 32767.0 / size)
    let ring := ring.map fun c => { c with x := c.x - x, y := c.y - y }
    (Ring.clip (some boxes) (some boxes) corners.length ⟨ring, []⟩).map List.reverse

end CollisionMesh
