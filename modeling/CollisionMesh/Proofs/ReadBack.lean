import CollisionMesh.AreaMap
import CollisionMesh.Proofs.Values
import CollisionMesh.Proofs.WrittenRecord

namespace CollisionMesh

open Number Record Text

/-!
# Written once is written for good

A coordinate that was rounded and written is read as a double that is rounded to the same
integer, however large it was. So the line of a record is read as a record with the same line.
A point on the 16-bit grid is not even moved: it is read where it was.

* `toInteger_readBack` — what is read of a rounded double is rounded to the same integer;
* `integral?_readBack` — a small integer is read as itself;
* `vertexWord_readBack`, `gridPoint_readBack` — the same for vertices;
* `Record.line_readBack` — and for the line of a record.
-/

namespace Number

/-! ### Doubles -/

theorem signed_signOf (n : Int) : signed (signOf n) n.natAbs = n := by
  unfold signOf
  split <;> simp only [signed] <;> omega

/-- What a double is rounded to fits in 64 bits. -/
theorem toInteger_bounds (x : Float) :
    leastInteger ≤ toInteger x ∧ toInteger x ≤ greatestInteger := by
  unfold toInteger
  split
  · decide
  · decide
  · decide
  · decide
  · exact ⟨le_max_left _ _, max_le (by decide) (min_le_left _ _)⟩

/-- The double that an integer is read as. -/
theorem eq_nearest_of_finite? {n : Int} {y : Float} (h : finite? (integerText n) = some y) :
    y = nearest (signOf n) n.natAbs 0 := by
  rw [finite?, real?_integerText, Option.filter_eq_some_iff] at h
  exact (Option.some.inj h.1).symm

/-- **Rounding for good.** What a double was rounded to is read as a double that is rounded to
    the same integer. -/
theorem toInteger_readBack {x y : Float} (h : finite? (integerText (toInteger x)) = some y) :
    toInteger y = toInteger x := by
  obtain ⟨hleast, hgreatest⟩ := toInteger_bounds x
  rw [eq_nearest_of_finite? h]
  rcases short_natAbs_toInteger x with hshort | hmax
  · rw [toInteger_nearest _ hshort, signed_signOf, min_eq_right hgreatest, max_eq_right hleast]
  -- The greatest integer is read as the power of two above it, and that does not fit.
  · rw [hmax]
    decide +kernel

/-- A double that is an integer is rounded to it, if it fits in 64 bits. -/
theorem toInteger_of_integral? {x : Float} {n : Int} (h : integral? x = some n) :
    toInteger x = max leastInteger (min greatestInteger n) := by
  unfold integral? at h
  unfold toInteger
  split at h
  · next s hx =>
    obtain rfl := Option.some.inj h
    rw [hx]
    exact (by decide : (0 : Int) = max leastInteger (min greatestInteger 0))
  · next s m e hm hx =>
    obtain rfl := Option.some.inj h
    rw [hx]
    rfl
  · next s m e hm hx =>
    rw [hx]
    split at h
    · next hdvd =>
      obtain rfl := Option.some.inj h
      -- Nothing is left over, so the quotient is not rounded.
      have hlt : compare (2 * (m % Nat.pow 2 (e + 1))) (Nat.pow 2 (e + 1)) = .lt := by
        rw [hdvd, Nat.mul_zero]
        exact Nat.compare_eq_lt.mpr (Nat.pow_pos (by decide))
      simp only [roundScaled, roundQuotient, hlt]
    · exact absurd h (by simp)
  · exact absurd h (by simp)

/-- **Small integers.** A double that is an integer of 53 bits is written as it, and read as a
    double that is the same integer. -/
theorem integral?_readBack {x y : Float} {n : Int} (hn : n.natAbs < 2 ^ 53)
    (hx : integral? x = some n) (h : finite? (integerText (toInteger x)) = some y) :
    integral? y = some n := by
  have hsmall : leastInteger ≤ n ∧ n ≤ greatestInteger := by
    unfold leastInteger greatestInteger
    omega
  rw [toInteger_of_integral? hx, min_eq_right hsmall.2, max_eq_right hsmall.1] at h
  have hshort : Short n.natAbs := .inl hn
  rw [eq_nearest_of_finite? h, integral?_eq_some_iff, value_nearest _ hshort, signed_signOf]
  exact ⟨isFinite_nearest _ hshort, rfl⟩

end Number

/-! ### Vertices -/

/-- A vertex that was written and read is written alike. -/
theorem vertexWord_readBack {p q : Point Float} (h : vertexOfWord (vertexWord p) = .ok q) :
    vertexWord q = vertexWord p := by
  obtain ⟨hx, hy, hz⟩ := vertexOfWord_vertexWord_eq_ok.mp h
  rw [vertexWord, toInteger_readBack hx, toInteger_readBack hy, toInteger_readBack hz, vertexWord]

/-- When a coordinate is on the grid. -/
theorem gridCoordinate_eq_ok {c : Float} {g : Int16} :
    gridCoordinate c = .ok g ↔
      ∃ n : Int, integral? c = some n ∧ -32768 ≤ n ∧ n ≤ 32767 ∧ g = Int16.ofInt n := by
  unfold gridCoordinate
  split
  · next n hn =>
    split
    · next hrange =>
      constructor
      · intro h
        exact ⟨n, hn, hrange.1, hrange.2, (Except.ok.inj h).symm⟩
      · rintro ⟨n', hn', -, -, rfl⟩
        rw [Option.some.inj (hn.symm.trans hn')]
    · next hrange =>
      constructor
      · intro h
        exact absurd h (by simp)
      · rintro ⟨n', hn', hlow, hhigh, -⟩
        obtain rfl := Option.some.inj (hn.symm.trans hn')
        exact absurd ⟨hlow, hhigh⟩ hrange
  · next hnone =>
    constructor
    · intro h
      exact absurd h (by simp)
    · rintro ⟨n, hn, -⟩
      exact absurd (hnone.symm.trans hn) (by simp)

/-- A coordinate on the grid is read where it was. -/
theorem gridCoordinate_readBack {c y : Float} {g : Int16} (hc : gridCoordinate c = .ok g)
    (h : finite? (integerText (toInteger c)) = some y) : gridCoordinate y = .ok g := by
  obtain ⟨n, hn, hlow, hhigh, rfl⟩ := gridCoordinate_eq_ok.mp hc
  exact gridCoordinate_eq_ok.mpr
    ⟨n, integral?_readBack (by omega) hn h, hlow, hhigh, rfl⟩

/-- Two steps succeed if both do, the second with what the first gave. -/
theorem bind_eq_ok {ε β γ : Type} {x : Except ε β} {f : β → Except ε γ} {c : γ} :
    x >>= f = .ok c ↔ ∃ b, x = .ok b ∧ f b = .ok c := by
  cases x <;> simp [bind, Except.bind]

/-- A step that fails does not succeed. -/
theorem throw_ne_ok {ε β : Type} {e : ε} {b : β} : (throw e : Except ε β) ≠ .ok b := by
  simp [throw, throwThe, MonadExceptOf.throw]

/-- When a point is on the grid. -/
theorem gridPoint_eq_ok {p : Point Float} {g : GridPoint} :
    gridPoint p = .ok g ↔ gridCoordinate p.x = .ok g.x ∧ gridCoordinate p.y = .ok g.y ∧
      gridCoordinate p.z = .ok g.z := by
  simp only [gridPoint, bind_eq_ok]
  constructor
  · rintro ⟨x, hx, y, hy, z, hz, h⟩
    obtain rfl := Except.ok.inj h
    exact ⟨hx, hy, hz⟩
  · rintro ⟨hx, hy, hz⟩
    exact ⟨g.x, hx, g.y, hy, g.z, hz, rfl⟩

/-- **The grid.** A point on the grid that was written is read where it was. -/
theorem gridPoint_readBack {p q : Point Float} {g : GridPoint} (hp : gridPoint p = .ok g)
    (h : vertexOfWord (vertexWord p) = .ok q) : gridPoint q = .ok g := by
  obtain ⟨hx, hy, hz⟩ := vertexOfWord_vertexWord_eq_ok.mp h
  obtain ⟨hgx, hgy, hgz⟩ := gridPoint_eq_ok.mp hp
  exact gridPoint_eq_ok.mpr ⟨gridCoordinate_readBack hgx hx, gridCoordinate_readBack hgy hy,
    gridCoordinate_readBack hgz hz⟩

/-! ### Records -/

namespace Record

/-- **Lines.** The record that the line of a record is read as has the same line. -/
theorem line_readBack {r r' : Record} (h : ofLine r.line = .ok r') : r'.line = r.line := by
  obtain ⟨r'', hr'', hkey, ha, hb, hc⟩ := ofLine_line r
  obtain rfl := Except.ok.inj (hr''.symm.trans h)
  simp only [line, toWords, Triple.toList, List.map_cons, List.map_nil, vertexWord_readBack ha,
    vertexWord_readBack hb, vertexWord_readBack hc, hkey]

end Record

end CollisionMesh
