import CollisionMesh.Number.Binary64

namespace CollisionMesh.Number

open Float.Model (UnpackedFloat)
open Float.Model.UnpackedFloat (Sign)

/-!
# Written decimal numbers

* `Literal` — what a text says: a signed decimal `± m · 10 ^ e`, infinity, or
  not a number;
* `Literal.read?` — the grammar: an optional sign, then digits with an optional
  point and an optional exponent, or one of the words `inf`, `infinity`, `nan`
  in any case;
* `Literal.toFloat` — the double nearest to it;
* `real?` — both together.
-/

/-- What a written number says. -/
inductive Literal where
  /-- `± mantissa · 10 ^ exponent` -/
  | decimal (sign : Sign) (mantissa : Nat) (exponent : Int)
  | infinity (sign : Sign)
  | notANumber (sign : Sign)

namespace Literal

/-- A sign at the start of a text, positive where there is none. -/
def sign : List Char → Sign × List Char
  | '-' :: rest => (.negative, rest)
  | '+' :: rest => (.positive, rest)
  | text => (.positive, text)

/-- An exponent: the letter `e` in either case, an optional sign and at least
    one digit, up to the end of the text. No text at all means zero. -/
def exponent? : List Char → Option Int
  | [] => some 0
  | c :: rest =>
    if c = 'e' ∨ c = 'E' then
      let (s, ds) := sign rest
      if ds.isEmpty || !ds.all isDigit then none else some (signed s (digitsValue ds))
    else none

/-- Digits with an optional point among or beside them, at least one digit in
    all, and an optional exponent. -/
def unsigned? (s : Sign) (text : List Char) : Option Literal :=
  let whole := text.takeWhile isDigit
  let rest := text.dropWhile isDigit
  let (fraction, rest) := match rest with
    | '.' :: rest => (rest.takeWhile isDigit, rest.dropWhile isDigit)
    | _ => ([], rest)
  if whole.isEmpty && fraction.isEmpty then none
  else (exponent? rest).map fun e =>
    .decimal s (digitsValue (whole ++ fraction)) (e - fraction.length)

/-- What a whole text says, if it is a number. -/
def read? (text : List Char) : Option Literal :=
  let (s, body) := sign text
  let word := body.map Char.toLower
  if word = "inf".toList ∨ word = "infinity".toList then some (.infinity s)
  else if word = "nan".toList then some (.notANumber s)
  else unsigned? s body

/-- Above this power of ten every number but zero exceeds the doubles. -/
def largestPower : Nat := 400

/-- The double nearest to what is said, ties to even; what is too large in
    magnitude becomes infinite. -/
def toFloat : Literal → Float
  | .notANumber _ => .ofModel (.pack .notANumber)
  | .infinity s => .ofModel (.pack (.infinity s))
  | .decimal s m (.ofNat e) =>
    if m ≠ 0 ∧ largestPower < e then .ofModel (.pack (.infinity s))
    else nearest s (m * Nat.pow 10 (if m = 0 then 0 else e)) 0
  | .decimal .positive m (.negSucc e) =>
    .ofModel (.pack (UnpackedFloat.ofScientific .binary64 m (.negSucc e)))
  | .decimal .negative m (.negSucc e) =>
    .ofModel (.pack (UnpackedFloat.ofScientific .binary64 m (.negSucc e)).neg)

end Literal

/-- The double that a text stands for, if it is a number. -/
def real? (text : List Char) : Option Float :=
  (Literal.read? text).map Literal.toFloat

/-- The double that a text stands for, if it is a finite number. -/
def finite? (text : List Char) : Option Float :=
  (real? text).filter isFinite

end CollisionMesh.Number
