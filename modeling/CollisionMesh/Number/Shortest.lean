import CollisionMesh.Number.Binary64

namespace CollisionMesh.Number

open Float.Model.UnpackedFloat (Sign)

/-!
# The shortest decimal of a double

A double is written with the fewest digits that read back as it, in positional
notation. All doubles but the infinities stand for an interval of real numbers,
those that round to them. On the grid of the multiples of `10 ^ k` that interval
holds a point only if it holds one of the two neighbours of the double, so the
coarsest grid with a hit gives the fewest digits; of two hits the nearer is taken
and of two equally near ones the greater.

* `Rounding` — a positive double with the interval that rounds to it;
* `Rounding.shortest` — the digits and the power of ten of its shortest decimal;
* `positional` — digits and a power of ten without an exponent;
* `shortestText` — a double as it is written.
-/

/-- A positive value `4 · value / scale` with the interval of the reals that round
    to it, all three in quarters of a unit. -/
structure Rounding where
  /-- Four times the value, times the scale. -/
  value : Nat
  /-- The lower end of the interval, likewise. -/
  lower : Nat
  /-- The upper end of the interval, likewise. -/
  upper : Nat
  /-- Four times the common denominator. -/
  scale : Nat
  /-- Whether the ends belong to the interval. -/
  closed : Bool

namespace Rounding

/-- The interval around `mantissa · 2 ^ exponent`. Below a power of two the
    doubles are twice as dense, but for the smallest ones. -/
def ofParts (mantissa : Nat) (exponent : Int) : Rounding :=
  let unit := Nat.pow 2 exponent.toNat
  let value := 4 * mantissa * unit
  let gap := if mantissa = Nat.pow 2 52 ∧ -1074 < exponent then unit else 2 * unit
  { value, lower := value - gap, upper := value + 2 * unit
    scale := 4 * Nat.pow 2 (-exponent).toNat, closed := mantissa % 2 = 0 }

/-- Whether `count · 10 ^ power` rounds to the value. -/
def holds (r : Rounding) (power : Int) (count : Nat) : Bool :=
  let point := count * Nat.pow 10 power.toNat * r.scale
  let down := Nat.pow 10 (-power).toNat
  if r.closed then r.lower * down ≤ point && point ≤ r.upper * down
  else r.lower * down < point && point < r.upper * down

/-- The number of units `10 ^ power` in the value, rounded down, and whether the
    next one is at least as near. -/
def units (r : Rounding) (power : Int) : Nat × Bool :=
  let n := r.value * Nat.pow 10 (-power).toNat
  let d := r.scale * Nat.pow 10 power.toNat
  (n / d, d ≤ 2 * (n % d))

/-- The neighbour of the value on the grid of `10 ^ power` that rounds to it, the
    nearer one if both do. -/
def neighbour? (r : Rounding) (power : Int) : Option Nat :=
  let (below, above) := r.units power
  match r.holds power below && below != 0, r.holds power (below + 1) with
  | true, true => some (if above then below + 1 else below)
  | true, false => some below
  | false, true => some (below + 1)
  | false, false => none

/-- The first hit on grids that get finer by ten, from `power` on. -/
def search (r : Rounding) : Nat → Int → Nat × Int
  | 0, power => ((r.units power).1, power)
  | tries + 1, power =>
    match r.neighbour? power with
    | some count => (count, power)
    | none => search r tries (power - 1)

/-- A power of ten above the value: both numbers have at most that many digits. -/
def topPower (r : Rounding) : Int :=
  (digits (r.value / r.scale)).length - (digits (r.scale / r.value)).length + 1

/-- Count and power of ten of the shortest decimal. Seventeen digits always read
    back, and the start is at most two powers too high. -/
def shortest (r : Rounding) : Nat × Int :=
  r.search 20 r.topPower

end Rounding

/-- Digits and a power of ten in positional notation, without zeros after the last
    significant place behind the point. -/
def positional (ds : List Char) : Int → List Char
  | .ofNat e => ds ++ List.replicate e '0'
  | .negSucc e =>
    let places := e + 1
    let padded := List.replicate (places + 1 - ds.length) '0' ++ ds
    let whole := padded.take (padded.length - places)
    let fraction := (padded.drop (padded.length - places)).reverse.dropWhile (· == '0')
    if fraction.isEmpty then whole else whole ++ '.' :: fraction.reverse

/-- A sign as it is written. -/
def signText : Sign → List Char
  | .positive => []
  | .negative => ['-']

/-- A double with the fewest digits that read back as it, never with an exponent. -/
def shortestText (x : Float) : List Char :=
  match parts x with
  | .notANumber => "NaN".toList
  | .infinity s => signText s ++ "inf".toList
  | .zero s => signText s ++ ['0']
  | .finite s m e _ =>
    let (count, power) := (Rounding.ofParts m e).shortest
    signText s ++ positional (digits count) power

end CollisionMesh.Number
