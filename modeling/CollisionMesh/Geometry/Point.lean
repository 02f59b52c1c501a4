import CollisionMesh.Geometry.Scalar

namespace CollisionMesh

open Scalar

/-!
# Points and vectors in space

* `Point`, `Vec` — places and displacements;
* `Vec.dot`, `Vec.cross`, `Vec.norm` — the products and the length;
* `Vec.unit?` — the direction of a vector that is not too short;
* `angleBetween` — the angle between two directions;
* `newellNormal` — the area vector of a closed loop of points;
* `Box` — an axis-aligned box and the box around a list of points.
-/

/-- A place in space. -/
structure Point (α : Type) where
  x : α
  y : α
  z : α
deriving DecidableEq, Repr

/-- A displacement in space. -/
structure Vec (α : Type) where
  x : α
  y : α
  z : α
deriving DecidableEq, Repr

variable {α : Type} [Scalar α]

/-- The point with all coordinates zero. -/
def Point.origin : Point α := ⟨0.0, 0.0, 0.0⟩

instance : Inhabited (Point α) := ⟨Point.origin⟩

/-- The displacement from `q` to `p`. -/
def Point.sub (p q : Point α) : Vec α :=
  ⟨p.x - q.x, p.y - q.y, p.z - q.z⟩

instance : HSub (Point α) (Point α) (Vec α) := ⟨Point.sub⟩

/-- The squared distance of two points. -/
def Point.distanceSq (p q : Point α) : α :=
  (p.x - q.x) * (p.x - q.x) + (p.y - q.y) * (p.y - q.y) + (p.z - q.z) * (p.z - q.z)

namespace Vec

/-- The inner product. -/
def dot (u v : Vec α) : α :=
  u.x * v.x + u.y * v.y + u.z * v.z

/-- The vector product. -/
def cross (u v : Vec α) : Vec α :=
  ⟨u.y * v.z - u.z * v.y, u.z * v.x - u.x * v.z, u.x * v.y - u.y * v.x⟩

/-- The length. -/
def norm (v : Vec α) : α :=
  sqrt (v.dot v)

/-- Every component divided by `a`. -/
def quotient (v : Vec α) (a : α) : Vec α :=
  ⟨v.x / a, v.y / a, v.z / a⟩

/-- The vector divided by its length. -/
def unit (v : Vec α) : Vec α :=
  v.quotient v.norm

/-- Vectors of at most this length have no direction. -/
def shortest : α := 1e-12

/-- The direction of a vector, unless it is too short to have one. -/
def unit? (v : Vec α) : Option (Vec α) :=
  if v.norm ≤ shortest then none else some v.unit

end Vec

/-- The angle between two directions. -/
def angleBetween (u v : Vec α) : α :=
  arccos (clampUnit (u.dot v))

/-- The pairs of neighbours in a closed loop, from the first element on; the last
    one pairs with the first. -/
def cyclicPairs {β : Type} : List β → List (β × β)
  | [] => []
  | b :: rest => (b :: rest).zip (rest ++ [b])

/-- The share of one edge in the area vector of a loop. -/
def newellTerm (n : Vec α) (edge : Point α × Point α) : Vec α :=
  let (a, b) := edge
  ⟨n.x + (a.y - b.y) * (a.z + b.z), n.y + (a.z - b.z) * (a.x + b.x),
    n.z + (a.x - b.x) * (a.y + b.y)⟩

/-- Twice the area vector of a closed loop of points; zero for a loop that
    encloses no area. -/
def newellNormal (loop : List (Point α)) : Vec α :=
  (cyclicPairs loop).foldl newellTerm ⟨0.0, 0.0, 0.0⟩

/-- An axis-aligned box by two opposite corners. -/
structure Box (α : Type) where
  min : Point α
  max : Point α

namespace Box

/-- The smallest box with the box and the point in it. -/
def extend (b : Box α) (p : Point α) : Box α where
  min := ⟨least b.min.x p.x, least b.min.y p.y, least b.min.z p.z⟩
  max := ⟨greatest b.max.x p.x, greatest b.max.y p.y, greatest b.max.z p.z⟩

/-- The smallest box around some points; around none, the box of the origin. -/
def around : List (Point α) → Box α
  | [] => ⟨Point.origin, Point.origin⟩
  | p :: ps => ps.foldl extend ⟨p, p⟩

/-- The point in the middle. -/
def center (b : Box α) : Point α :=
  ⟨(b.min.x + b.max.x) * 0.5, (b.min.y + b.max.y) * 0.5, (b.min.z + b.max.z) * 0.5⟩

end Box

/-- A point with every coordinate rounded to an integer, ties to even. -/
def Point.rounded (p : Point Float) : Point Float :=
  ⟨Number.roundEven p.x, Number.roundEven p.y, Number.roundEven p.z⟩

/-- Three things in order, such as the corners of a triangle. -/
structure Triple (β : Type) where
  a : β
  b : β
  c : β
deriving DecidableEq, Repr

namespace Triple

variable {β γ : Type}

/-- The three in order. -/
def toList (t : Triple β) : List β := [t.a, t.b, t.c]

/-- A function applied to each. -/
def map (f : β → γ) (t : Triple β) : Triple γ := ⟨f t.a, f t.b, f t.c⟩

end Triple

end CollisionMesh
