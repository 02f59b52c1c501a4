import CollisionMesh.Number.Natural

namespace CollisionMesh.Number

open Float.Model (Format UnpackedFloat)
open Float.Model.UnpackedFloat (Sign)

/-!
# Exact views of double-precision numbers

A finite double is `± m · 2 ^ e`. Whatever must be exact — rounding to an
integer, reading and printing decimals — is done on `m` and `e` in integer
arithmetic.

* `parts` — sign, `m` and `e` of a double, or infinity, or not a number;
* `nearest` — the double nearest to `± m · 2 ^ e`, ties to even;
* `roundQuotient` — the integer nearest to a quotient, ties to even;
* `roundEven` — a double rounded to an integral double;
* `toInteger` — a double rounded to an integer, kept inside 64 bits;
* `integral?` — the integer that a double is, if it is one.
-/

/-- Sign, mantissa and exponent of a double. -/
def parts (x : Float) : UnpackedFloat :=
  x.toModel.unpack

/-- The double nearest to `± mantissa · 2 ^ exponent`, ties to even; infinity
    beyond the largest finite double. -/
def nearest (sign : Sign) (mantissa : Nat) (exponent : Int) : Float :=
  .ofModel (.pack (.round .binary64 sign mantissa exponent))

/-- The integer nearest to `n / d`, ties to even. -/
def roundQuotient (n d : Nat) : Nat :=
  let below := n / d
  match compare (2 * (n % d)) d with
  | .lt => below
  | .gt => below + 1
  | .eq => below + below % 2

/-- The integer nearest to `mantissa · 2 ^ exponent`, ties to even. -/
def roundScaled (mantissa : Nat) : Int → Nat
  | .ofNat e => mantissa * Nat.pow 2 e
  | .negSucc e => roundQuotient mantissa (Nat.pow 2 (e + 1))

/-- A double rounded to an integral one, ties to even. The sign stays, also that
    of zero; infinities and not-a-number stay what they are. -/
def roundEven (x : Float) : Float :=
  match parts x with
  | .finite sign m e _ => nearest sign (roundScaled m e) 0
  | _ => x

/-- The least and the greatest 64-bit integer. -/
def leastInteger : Int := -9223372036854775808

@[inherit_doc leastInteger]
def greatestInteger : Int := 9223372036854775807

/-- A signed magnitude. -/
def signed (sign : Sign) (magnitude : Nat) : Int :=
  match sign with
  | .positive => magnitude
  | .negative => -magnitude

/-- A double rounded to an integer, ties to even. What does not fit in 64 bits
    becomes the nearest integer that does, and not-a-number becomes zero. -/
def toInteger (x : Float) : Int :=
  match parts x with
  | .notANumber => 0
  | .infinity .positive => greatestInteger
  | .infinity .negative => leastInteger
  | .zero _ => 0
  | .finite sign m e _ => max leastInteger (min greatestInteger (signed sign (roundScaled m e)))

/-- The integer that a double is, if it is an integer. -/
def integral? (x : Float) : Option Int :=
  match parts x with
  | .zero _ => some 0
  | .finite sign m (.ofNat e) _ => some (signed sign (m * Nat.pow 2 e))
  | .finite sign m (.negSucc e) _ =>
    if m % Nat.pow 2 (e + 1) = 0 then some (signed sign (m / Nat.pow 2 (e + 1))) else none
  | _ => none

/-- The greatest integer at most a double that is not negative. -/
def floor? (x : Float) : Option Nat :=
  match parts x with
  | .zero _ => some 0
  | .finite .positive m (.ofNat e) _ => some (m * Nat.pow 2 e)
  | .finite .positive m (.negSucc e) _ => some (m / Nat.pow 2 (e + 1))
  | _ => none

/-- Neither infinite nor not-a-number. -/
def isFinite (x : Float) : Bool :=
  match parts x with
  | .zero _ | .finite .. => true
  | _ => false

end CollisionMesh.Number
