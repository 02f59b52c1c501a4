import CollisionMesh.Number.Binary64

namespace CollisionMesh

/-!
# Scalars

The geometry of the library is written once for every type of numbers with the
four operations, an order, a square root and an arc cosine. The program computes
in double precision; the same definitions over an exact field say what it would
compute without rounding.
-/

/-- Numbers to compute coordinates, lengths and angles in. -/
class Scalar (α : Type) extends Add α, Sub α, Mul α, Div α, Neg α, OfScientific α, LT α, LE α where
  /-- Less than is decided; a value that is not a number is less than nothing. -/
  decLt : DecidableLT α
  /-- At most is decided; a value that is not a number is at most nothing. -/
  decLe : DecidableLE α
  sqrt : α → α
  /-- The angle between zero and a half turn that has the given cosine. -/
  arccos : α → α

instance Scalar.decidableLT {α : Type} [Scalar α] : DecidableLT α := Scalar.decLt

instance Scalar.decidableLE {α : Type} [Scalar α] : DecidableLE α := Scalar.decLe

/-- Double precision with a given arc cosine. Everything else is exact up to rounding;
    the arc cosine is a function of the platform. -/
@[reducible] def Scalar.double (arccos : Float → Float) : Scalar Float where
  decLt := inferInstance
  decLe := inferInstance
  sqrt := Float.sqrt
  arccos := arccos

instance Scalar.ofFloat : Scalar Float := Scalar.double Float.acos

namespace Scalar

variable {α : Type} [Scalar α]

/-- The smaller of two scalars, the second unless the first is at most it. -/
def least (a b : α) : α :=
  if a ≤ b then a else b

/-- The greater of two scalars, the second unless the first is at least it. -/
def greatest (a b : α) : α :=
  if b ≤ a then a else b

/-- The distance from zero. -/
def magnitude (a : α) : α :=
  if a < 0.0 then -a else a

/-- A scalar moved into the interval from -1 to 1. -/
def clampUnit (a : α) : α :=
  if a < -1.0 then -1.0 else if 1.0 < a then 1.0 else a

end Scalar

end CollisionMesh
