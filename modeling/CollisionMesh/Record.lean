import CollisionMesh.Geometry.Point

namespace CollisionMesh

/-!
# Triangle records

A record is a triangle in space with an optional key. The key, a number of two bytes,
only says which triangles belong together; records without one belong to the key zero.

* `Key` — the number of two bytes; `Key.ofBytes`, `Key.high`, `Key.low` — from its bytes and back;
* `Record` — a triangle with its key.
-/

/-- The number of two bytes that says which triangles belong together. -/
structure Key where
  number : UInt16
deriving DecidableEq, Repr

namespace Key

/-- The key of the triangles that carry none. -/
def zero : Key := ⟨0⟩

/-- The key of a high and a low byte. -/
def ofBytes (high low : UInt8) : Key :=
  ⟨high.toUInt16 <<< 8 ||| low.toUInt16⟩

/-- The high byte. -/
def high (k : Key) : UInt8 :=
  (k.number >>> 8).toUInt8

/-- The low byte. -/
def low (k : Key) : UInt8 :=
  (k.number &&& 255).toUInt8

/-- Both bytes, the high one first. -/
def bytes (k : Key) : UInt8 × UInt8 :=
  (k.high, k.low)

/-- The key as a natural number. -/
def toNat (k : Key) : Nat :=
  k.number.toNat

/-- The key with a number below 65536. -/
def ofNat (n : Nat) : Key :=
  ⟨.ofNat n⟩

/-- The bytes as two words. -/
def text (k : Key) : String :=
  s!"{k.high.toNat} {k.low.toNat}"

/-- The high byte counts 256 times. -/
theorem toNat_ofBytes (high low : UInt8) :
    (ofBytes high low).number.toNat = 256 * high.toNat + low.toNat := by
  have hhigh := high.toNat_lt
  have hlow := low.toNat_lt
  have hshift : (high.toUInt16 <<< 8).toNat = high.toNat <<< 8 := by
    rw [UInt16.toNat_shiftLeft, UInt8.toNat_toUInt16, Nat.shiftLeft_eq, Nat.shiftLeft_eq]
    exact Nat.mod_eq_of_lt (show high.toNat * 2 ^ 8 < 2 ^ 16 by omega)
  -- The low byte has none of the bits of the shifted high one, so that the two can be added.
  rw [ofBytes, UInt16.toNat_or, hshift, UInt8.toNat_toUInt16,
    ← Nat.shiftLeft_add_eq_or_of_lt (show low.toNat < 2 ^ 8 from hlow), Nat.shiftLeft_eq]
  omega

theorem toNat_high (k : Key) : k.high.toNat = k.number.toNat / 256 := by
  have hnumber := k.number.toNat_lt
  have hshift : (k.number >>> 8).toNat = k.number.toNat / 256 := by
    rw [UInt16.toNat_shiftRight]
    exact Nat.shiftRight_eq_div_pow _ 8
  rw [high, UInt16.toNat_toUInt8, hshift]
  omega

theorem toNat_low (k : Key) : k.low.toNat = k.number.toNat % 256 := by
  have hmask : (k.number &&& 255).toNat = k.number.toNat % 256 := by
    rw [UInt16.toNat_and]
    exact Nat.and_two_pow_sub_one_eq_mod _ 8
  rw [low, UInt16.toNat_toUInt8, hmask]
  omega

@[simp] theorem high_ofBytes (high low : UInt8) : (ofBytes high low).high = high := by
  have hlow := low.toNat_lt
  rw [← UInt8.toNat_inj, toNat_high, toNat_ofBytes]
  omega

@[simp] theorem low_ofBytes (high low : UInt8) : (ofBytes high low).low = low := by
  have hlow := low.toNat_lt
  rw [← UInt8.toNat_inj, toNat_low, toNat_ofBytes]
  omega

/-- **Bytes.** A key is the key of its bytes. -/
@[simp] theorem ofBytes_high_low (k : Key) : ofBytes k.high k.low = k := by
  have hnumber : (ofBytes k.high k.low).number = k.number := by
    rw [← UInt16.toNat_inj, toNat_ofBytes, toNat_high, toNat_low]
    omega
  cases k
  exact congrArg mk hnumber

end Key

/-- A triangle with the key that its line carries, if any. -/
structure Record where
  corners : Triple (Point Float)
  key : Option Key
deriving DecidableEq

namespace Record

/-- The key to group under. -/
def groupKey (r : Record) : Key :=
  r.key.getD Key.zero

/-- The same triangle without a key. -/
def withoutKey (r : Record) : Record :=
  { r with key := none }

/-- The same triangle with every coordinate rounded to an integer. -/
def rounded (r : Record) : Record :=
  { r with corners := r.corners.map Point.rounded }

/-- The smallest box around the corners of some records. -/
def bounds (rs : List Record) : Box Float :=
  Box.around (rs.flatMap fun r => r.corners.toList)

end Record

end CollisionMesh
