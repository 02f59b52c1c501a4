namespace CollisionMesh.Number

/-!
# Whole numbers in decimal

* `digits` — the decimal digits of a natural number, none superfluous;
* `digitsValue` — the number that a list of digits stands for;
* `natural?` — a written natural number with an optional plus sign;
* `integerText` — an integer with a minus sign where it is negative.
-/

/-- The digit for a number below ten. -/
def digitChar (n : Nat) : Char :=
  Char.ofNat ('0'.toNat + n)

/-- The decimal digits, most significant first. -/
def digits (n : Nat) : List Char :=
  if n < 10 then [digitChar n] else digits (n / 10) ++ [digitChar (n % 10)]
termination_by n

/-- The characters `0` to `9`. -/
def isDigit (c : Char) : Bool :=
  '0'.toNat ≤ c.toNat && c.toNat ≤ '9'.toNat

/-- The number that a digit stands for. -/
def digitValue (c : Char) : Nat :=
  c.toNat - '0'.toNat

/-- The number that a list of digits stands for, in base ten. -/
def digitsValue (ds : List Char) : Nat :=
  ds.foldl (fun n d => 10 * n + digitValue d) 0

/-- A natural number as it is read: an optional plus sign, then at least one
    digit and nothing else. Leading zeros are allowed. -/
def natural? (text : List Char) : Option Nat :=
  let ds := match text with
    | '+' :: rest => rest
    | _ => text
  if ds.isEmpty || !ds.all isDigit then none else some (digitsValue ds)

/-- A natural number as it is read, not above `bound`. -/
def naturalUpTo? (bound : Nat) (text : List Char) : Option Nat :=
  (natural? text).filter (· ≤ bound)

/-- A byte as it is read. -/
def byte? (text : List Char) : Option UInt8 :=
  (naturalUpTo? 255 text).map UInt8.ofNat

/-- A 32-bit word as it is read. -/
def word? (text : List Char) : Option UInt32 :=
  (naturalUpTo? 4294967295 text).map UInt32.ofNat

/-- An integer as it is written. -/
def integerText : Int → List Char
  | .ofNat n => digits n
  | .negSucc n => '-' :: digits (n + 1)

end CollisionMesh.Number
