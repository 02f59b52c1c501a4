import CollisionMesh.Proofs.ReadBack

namespace CollisionMesh

open Number Record Text

/-!
# What the line of a record is read as

Reading takes back what writing leaves of a record: its key, and its coordinates rounded and kept
within 64 bits. Zeros lose their signs on the way, and what is not a number becomes zero.

* `clamp`, `plain`, `settled` — what is left of a coordinate;
* `finite?_integerText_settled` — a coordinate that is written is read as that;
* `exists_nearestEven_settled` — its value is the rounded value, kept in the interval;
* `settled_beq_roundEven` — a coordinate in the interval is only rounded;
* `Record.settled`, `Record.round_trip` — the same for the line of a record.
-/

namespace Number

open Float.Model (UnpackedFloat)
open Float.Model.UnpackedFloat (Sign)

/-! ### Coordinates -/

/-- A double kept in an interval; not-a-number stays what it is. -/
def clamp (low high x : Float) : Float :=
  if x < low then low else if high < x then high else x

/-- Zero without a sign for zeros and for not-a-number. -/
def plain (x : Float) : Float :=
  match parts x with
  | .notANumber | .zero _ => 0.0
  | _ => x

/-- `2 ^ 63`, up to which coordinates are written. -/
def limit : Float := 9223372036854775808.0

/-- What is left of a coordinate: it is rounded to an integer, ties to even, and kept between
    `-2 ^ 63` and `2 ^ 63`. -/
def settled (x : Float) : Float :=
  plain (clamp (-limit) limit (roundEven x))

private theorem limit_eq_nearest : limit = nearest .positive (2 ^ 63) 0 := by decide +kernel

private theorem neg_limit_eq_nearest : -limit = nearest .negative (2 ^ 63) 0 := by decide +kernel

private theorem short_limit : Short (2 ^ 63) :=
  .inr ⟨2 ^ 52, 11, le_rfl, by decide, by decide, by decide⟩

theorem isFinite_limit : isFinite limit = true :=
  limit_eq_nearest ▸ isFinite_nearest _ short_limit

theorem isFinite_neg_limit : isFinite (-limit) = true :=
  neg_limit_eq_nearest ▸ isFinite_nearest _ short_limit

@[simp] theorem value_limit : value (parts limit) = 2 ^ 63 := by
  rw [limit_eq_nearest, value_nearest _ short_limit]
  norm_num [signed]

@[simp] theorem value_neg_limit : value (parts (-limit)) = -2 ^ 63 := by
  rw [neg_limit_eq_nearest, value_nearest _ short_limit]
  norm_num [signed]

/-- How a finite double is kept in the interval, by its value. -/
theorem clamp_limit {x : Float} (hx : isFinite x = true) :
    clamp (-limit) limit x = if value (parts x) < -2 ^ 63 then -limit
      else if 2 ^ 63 < value (parts x) then limit else x := by
  rw [clamp]
  simp only [lt_iff_value_lt hx isFinite_neg_limit, lt_iff_value_lt isFinite_limit hx, value_limit,
    value_neg_limit]

/-- An infinity is kept at the end of the interval. -/
private theorem clamp_limit_infinite {x : Float} {s : Sign} (hx : parts x = .infinity s) :
    clamp (-limit) limit x = nearest s (2 ^ 63) 0 := by
  cases s with
  | positive =>
    have hlow : ¬ x < -limit := by
      rw [lt_iff, hx]
      exact fun h => lt_asymm h.2.2 (level_mem isFinite_neg_limit).2
    have hhigh : limit < x := by
      rw [lt_iff, hx]
      exact ⟨ne_notANumber isFinite_limit, by simp, (level_mem isFinite_limit).2⟩
    rw [clamp, if_neg hlow, if_pos hhigh, limit_eq_nearest]
  | negative =>
    have hlow : x < -limit := by
      rw [lt_iff, hx]
      exact ⟨by simp, ne_notANumber isFinite_neg_limit, (level_mem isFinite_neg_limit).1⟩
    rw [clamp, if_pos hlow, neg_limit_eq_nearest]

private theorem natAbs_signed (s : Sign) (n : Nat) : (signed s n).natAbs = n := by
  cases s <;> simp [signed]

/-- An integer that is a double, without the sign of zero. -/
theorem plain_nearest (s : Sign) {n : Nat} (h : Short n) :
    plain (nearest s n 0) = nearest (signOf (signed s n)) n 0 := by
  rcases Nat.eq_zero_or_pos n with rfl | hpos
  · rw [plain, parts_nearest_zero]
    cases s <;> decide +kernel
  · obtain ⟨m, e, hm, hparts, -⟩ := exists_parts_nearest s hpos h
    have hsign : signOf (signed s n) = s := by
      cases s with
      | positive => exact if_neg (by simp [signed])
      | negative => exact if_pos (by simpa [signed] using hpos)
    rw [plain, hparts, hsign]

/-- An integer that is a double, kept in the interval, is the double nearest to the integer that is
    kept within 64 bits: the upper end of the interval is no 64-bit integer. -/
private theorem plain_clamp_nearest (s : Sign) {n : Nat} {k : Int} (h : Short n)
    (hk : max leastInteger (min greatestInteger (signed s n)) = k) :
    plain (clamp (-limit) limit (nearest s n 0)) = nearest (signOf k) k.natAbs 0 := by
  subst hk
  have hbelow : ∀ n : Int, (n : ℚ) < -2 ^ 63 ↔ n < leastInteger := by
    intro n
    rw [← Int.cast_lt (R := ℚ)]
    norm_num [leastInteger]
  have habove : ∀ n : Int, (2 ^ 63 : ℚ) < n ↔ greatestInteger + 1 < n := by
    intro n
    rw [← Int.cast_lt (R := ℚ)]
    norm_num [greatestInteger]
  rw [clamp_limit (isFinite_nearest s h), value_nearest s h]
  simp only [hbelow, habove]
  -- Below the interval, above it, at its upper end, or in it.
  split
  · next hlow =>
    rw [max_eq_left ((min_le_right _ _).trans hlow.le)]
    decide +kernel
  split
  · next hhigh =>
    rw [min_eq_left (by omega)]
    decide +kernel
  · next hlow hhigh =>
    rw [plain_nearest s h]
    rcases eq_or_ne (signed s n) (greatestInteger + 1) with htop | htop
    · rw [min_eq_left (by omega)]
      have hn : n = 2 ^ 63 := by
        rw [← natAbs_signed s n, htop]
        decide
      rw [htop, hn]
      decide +kernel
    · rw [min_eq_right (by omega), max_eq_right (by omega), natAbs_signed]

/-- **Coordinates.** What is left of a coordinate is the double nearest to the integer that it is
    written as. -/
theorem settled_eq_nearest (x : Float) :
    settled x = nearest (signOf (toInteger x)) (toInteger x).natAbs 0 := by
  cases hx : parts x with
  | notANumber =>
    have hclamp : clamp (-limit) limit x = x := by
      rw [clamp, if_neg (by simp [lt_iff, hx]), if_neg (by simp [lt_iff, hx])]
    simp only [settled, roundEven, hx, hclamp, plain, toInteger]
    decide +kernel
  | zero s =>
    have hclamp : clamp (-limit) limit x = x := by
      rw [clamp_limit (by rw [isFinite, hx]), hx]
      norm_num [value]
    simp only [settled, roundEven, hx, hclamp, plain, toInteger]
    decide +kernel
  | infinity s =>
    simp only [settled, roundEven, hx, clamp_limit_infinite hx, toInteger]
    cases s <;> decide +kernel
  | finite s m e h =>
    simp only [settled, roundEven, hx]
    exact plain_clamp_nearest s (short_roundScaled hx) (by simp only [toInteger, hx])

/-- **Reading.** A coordinate that is written is read as what is left of it. -/
theorem finite?_integerText_settled (x : Float) :
    finite? (integerText (toInteger x)) = some (settled x) := by
  rw [finite?_integerText_toInteger, settled_eq_nearest]

/-! ### Their values -/

theorem value_plain (x : Float) : value (parts (plain x)) = value (parts x) := by
  have hzero : value (parts 0.0) = 0 := rfl
  unfold plain
  split
  · next hx => rw [hzero, hx]; rfl
  · next s hx => rw [hzero, hx]; rfl
  · rfl

theorem value_clamp_limit {x : Float} (hx : isFinite x = true) :
    value (parts (clamp (-limit) limit x)) = max (-2 ^ 63) (min (2 ^ 63) (value (parts x))) := by
  rw [clamp_limit hx]
  split
  · next hlow => rw [value_neg_limit, max_eq_left ((min_le_right _ _).trans hlow.le)]
  split
  · next hhigh => rw [value_limit, min_eq_left hhigh.le, max_eq_right (by norm_num)]
  · next hlow hhigh => rw [min_eq_right (not_lt.mp hhigh), max_eq_right (not_lt.mp hlow)]

/-- A finite double is rounded to a double that is a nearest integer. -/
theorem exists_nearestEven_roundEven {x : Float} (hx : isFinite x = true) :
    isFinite (roundEven x) = true ∧
      ∃ n : Int, NearestEven (value (parts x)) n ∧ value (parts (roundEven x)) = n := by
  cases hparts : parts x with
  | notANumber => simp [isFinite, hparts] at hx
  | infinity s => simp [isFinite, hparts] at hx
  | zero s =>
    have hround : roundEven x = x := by simp only [roundEven, hparts]
    rw [hround, hparts]
    exact ⟨hx, 0, by simpa [value] using nearestEven_intCast 0, by simp [value]⟩
  | finite s m e h =>
    have hround : roundEven x = nearest s (roundScaled m e) 0 := by simp only [roundEven, hparts]
    have hshort := short_roundScaled hparts
    rw [hround]
    exact ⟨isFinite_nearest s hshort, _, nearestEven_roundScaled h, value_nearest s hshort⟩

/-- **Values.** What is left of a finite coordinate is a nearest integer, kept in the interval. -/
theorem exists_nearestEven_settled {x : Float} (hx : isFinite x = true) :
    ∃ n : Int, NearestEven (value (parts x)) n ∧
      value (parts (settled x)) = max (-2 ^ 63) (min (2 ^ 63) (n : ℚ)) := by
  obtain ⟨hround, n, hn, hvalue⟩ := exists_nearestEven_roundEven hx
  exact ⟨n, hn, by rw [settled, value_plain, value_clamp_limit hround, hvalue]⟩

theorem isFinite_settled (x : Float) : isFinite (settled x) = true := by
  have hread := finite?_integerText_settled x
  rw [finite?, Option.filter_eq_some_iff] at hread
  exact hread.2

/-- **Coordinates in the interval.** They are only rounded, but for the sign of zero. -/
theorem settled_beq_roundEven {x : Float} (hlow : -limit ≤ x) (hhigh : x ≤ limit) :
    (settled x == roundEven x) = true := by
  have hx := isFinite_of_le_of_le isFinite_neg_limit isFinite_limit hlow hhigh
  rw [le_iff_value_le isFinite_neg_limit hx, value_neg_limit] at hlow
  rw [le_iff_value_le hx isFinite_limit, value_limit] at hhigh
  obtain ⟨hround, n, hn, hvalue⟩ := exists_nearestEven_roundEven hx
  -- Rounding does not leave the interval either.
  have hlow : -2 ^ 63 ≤ (n : ℚ) := by
    have := hn.ge_of_ge (k := -9223372036854775808) (by norm_num at hlow ⊢; exact hlow)
    exact (Int.cast_le.mpr this).trans' (by norm_num)
  have hhigh : (n : ℚ) ≤ 2 ^ 63 := by
    have := hn.le_of_le (k := 9223372036854775808) (by norm_num at hhigh ⊢; exact hhigh)
    exact (Int.cast_le.mpr this).trans (by norm_num)
  rw [beq_iff_value_eq (isFinite_settled x) hround, settled, value_plain,
    value_clamp_limit hround, hvalue, min_eq_right hhigh, max_eq_right hlow]

end Number

/-! ### Records -/

/-- What is left of a vertex. -/
def Point.settled (p : Point Float) : Point Float :=
  ⟨Number.settled p.x, Number.settled p.y, Number.settled p.z⟩

/-- The coordinates of a point. -/
def Point.coordinates (p : Point Float) : List Float :=
  [p.x, p.y, p.z]

theorem vertexOfWord_vertexWord (p : Point Float) : vertexOfWord (vertexWord p) = .ok p.settled :=
  vertexOfWord_vertexWord_eq_ok.mpr ⟨finite?_integerText_settled p.x,
    finite?_integerText_settled p.y, finite?_integerText_settled p.z⟩

namespace Record

/-- What is left of a record. -/
def settled (r : Record) : Record :=
  { r with corners := r.corners.map Point.settled }

/-- The nine coordinates of a record. -/
def coordinates (r : Record) : List Float :=
  r.corners.toList.flatMap Point.coordinates

/-- **Lines.** The line of a record is read as what is left of the record. -/
theorem ofLine_line_settled (r : Record) : ofLine r.line = .ok r.settled := by
  obtain ⟨⟨⟨a, b, c⟩, key⟩, hr', hkey, ha, hb, hc⟩ := ofLine_line r
  rw [vertexOfWord_vertexWord] at ha hb hc
  obtain rfl := Except.ok.inj ha
  obtain rfl := Except.ok.inj hb
  obtain rfl := Except.ok.inj hc
  obtain rfl : key = r.key := hkey
  exact hr'

/-- Coordinate by coordinate, in the interval a record is only rounded. -/
theorem settled_beq_rounded {r : Record} (h : ∀ c ∈ r.coordinates, -limit ≤ c ∧ c ≤ limit) :
    List.Forall₂ (fun c c' => (c == c') = true) r.settled.coordinates r.rounded.coordinates := by
  have hmap : ∀ f : Float → Float, ∀ g : Point Float → Point Float,
      (∀ p, (g p).coordinates = p.coordinates.map f) →
      (r.corners.map g).toList.flatMap Point.coordinates = r.coordinates.map f := by
    intro f g hg
    simp [coordinates, Triple.map, Triple.toList, hg]
  have hsettled : r.settled.coordinates = r.coordinates.map Number.settled := hmap _ _ fun _ => rfl
  have hrounded : r.rounded.coordinates = r.coordinates.map roundEven := hmap _ _ fun _ => rfl
  rw [hsettled, hrounded, List.forall₂_map_left_iff, List.forall₂_map_right_iff, List.forall₂_same]
  exact fun c hc => settled_beq_roundEven (h c hc).1 (h c hc).2

/-- **Round trip.** The line of a record is read as a record with its key, or without one if it
    has none, and with what is left of its coordinates. That record and the rounded one have the
    same line; if all coordinates are in the interval the two are the same but for the signs of
    zeros. -/
theorem round_trip (r : Record) :
    ofLine r.line = .ok r.settled ∧ r.settled.key = r.key ∧
      r.settled.coordinates = r.coordinates.map Number.settled ∧
      r.settled.line = r.line ∧ r.rounded.line = r.line ∧
      ((∀ c ∈ r.coordinates, -limit ≤ c ∧ c ≤ limit) →
        r.settled.key = r.rounded.key ∧
          List.Forall₂ (fun c c' => (c == c') = true) r.settled.coordinates r.rounded.coordinates) :=
  ⟨ofLine_line_settled r, rfl, rfl, line_readBack (ofLine_line_settled r), line_rounded r.corners r.key,
    fun h => ⟨rfl, settled_beq_rounded h⟩⟩

/-- A record with the key zero, with halves, a small negative fraction and `2 ^ 63` in it. -/
def halves : Record :=
  ⟨⟨⟨2.5, 3.5, -0.25⟩, ⟨-2.5, 0.0, 9223372036854775808.0⟩, ⟨7.0, -7.75, 1e15⟩⟩, some Key.zero⟩

theorem round_trip_halves :
    (∀ c ∈ halves.coordinates, -limit ≤ c ∧ c ≤ limit) ∧
      ofLine halves.line = .ok halves.settled ∧
      List.Forall₂ (fun c c' => (c == c') = true) halves.settled.coordinates
        halves.rounded.coordinates := by
  have hlimit : ∀ c ∈ halves.coordinates, -limit ≤ c ∧ c ≤ limit := by decide +kernel
  have htrip := round_trip halves
  exact ⟨hlimit, htrip.1, (htrip.2.2.2.2.2 hlimit).2⟩

example : halves.line
    = "TRI 2;4;0 -2;0;9223372036854775807 7;-8;1000000000000000 0 0" := by decide +kernel

end Record

end CollisionMesh
