import CollisionMesh.Proofs.Numerals
import CollisionMesh.Proofs.Reading
import CollisionMesh.Proofs.Text

namespace CollisionMesh

open Number Record Text

/-!
# Written records read back

Coordinates are rounded where a record is written, so what is read back need not be the
record. It is a record, though, of the same key.

* `IsNumeral` — the characters of an integer that is written;
* `vertexOfWord_vertexWord_eq_ok`, `exists_vertexOfWord_vertexWord` — a vertex that is written is
  read again;
* `words_line`, `isTriangle_line`, `trim_line`, `not_mem_line` — the line of a record;
* `ofLine_line`, `carriesKey_line` — it is read as a record with the same key.
-/

/-! ### Words -/

/-- A digit or a minus sign. -/
def IsNumeral (c : Char) : Prop :=
  isDigit c = true ∨ c = '-'

theorem isNumeral_of_mem_integerText {n : Int} {c : Char} (h : c ∈ integerText n) :
    IsNumeral c := by
  cases n with
  | ofNat n => exact .inl (isDigit_of_mem_digits n c h)
  | negSucc n =>
    rcases List.mem_cons.mp h with rfl | h
    · exact .inr rfl
    · exact .inl (isDigit_of_mem_digits (n + 1) c h)

theorem IsNumeral.bounds {c : Char} (h : IsNumeral c) : 0x2D ≤ c.toNat ∧ c.toNat ≤ 0x39 := by
  rcases h with h | rfl
  · simp only [isDigit, Bool.and_eq_true, decide_eq_true_eq] at h
    have hzero : '0'.toNat = 0x30 := rfl
    have hnine : '9'.toNat = 0x39 := rfl
    omega
  · decide

/-- A numeral is no blank. -/
theorem IsNumeral.isBlank {c : Char} (h : IsNumeral c) : isBlank c = false := by
  obtain ⟨hlow, hhigh⟩ := h.bounds
  simp only [Text.isBlank, Bool.or_eq_false_iff, Bool.and_eq_false_iff, decide_eq_false_iff_not,
    beq_eq_false_iff_ne]
  omega

/-- A numeral does not part the coordinates of a vertex. -/
theorem IsNumeral.ne_semicolon {c : Char} (h : IsNumeral c) : (c == ';') = false := by
  rw [beq_eq_false_iff_ne]
  rintro rfl
  exact absurd h.bounds (by decide)

theorem isWord_digits (n : Nat) : IsWord (digits n) :=
  ⟨digits_ne_nil n, fun _ hc => IsNumeral.isBlank (.inl (isDigit_of_mem_digits n _ hc))⟩

theorem isWord_vertexWord (p : Point Float) : IsWord (vertexWord p) := by
  refine ⟨by simp [vertexWord], ?_⟩
  intro c hc
  rw [vertexWord, List.mem_append, List.mem_append, List.mem_cons, List.mem_cons] at hc
  rcases hc with (hc | rfl | hc) | rfl | hc
  · exact (isNumeral_of_mem_integerText hc).isBlank
  · decide
  · exact (isNumeral_of_mem_integerText hc).isBlank
  · decide
  · exact (isNumeral_of_mem_integerText hc).isBlank

/-- The tag of a triangle is a word. -/
theorem isWord_triangleTag : IsWord triangleTag.toList := by
  have htag : triangleTag.toList = ['T', 'R', 'I'] := rfl
  rw [htag]
  exact ⟨List.cons_ne_nil _ _, by simp [isBlank]⟩

/-- A record is written in words. -/
theorem isWord_of_mem_toWords {r : Record} {w : List Char} (h : w ∈ r.toWords) : IsWord w := by
  rw [toWords, List.cons_append, List.mem_cons, List.mem_append] at h
  rcases h with rfl | h | h
  · exact isWord_triangleTag
  · obtain ⟨p, -, rfl⟩ := List.mem_map.mp h
    exact isWord_vertexWord p
  · cases hkey : r.key with
    | none =>
      rw [hkey] at h
      exact absurd h List.not_mem_nil
    | some k =>
      rw [hkey] at h
      rcases List.mem_cons.mp h with rfl | h
      · exact isWord_digits _
      · rw [List.mem_singleton.mp h]
        exact isWord_digits _

/-! ### Vertices -/

/-- The coordinates of a vertex that is written. -/
theorem split_vertexWord (p : Point Float) :
    split (· == ';') (vertexWord p)
      = [integerText (toInteger p.x), integerText (toInteger p.y), integerText (toInteger p.z)] := by
  have hpiece : ∀ n : Int, (integerText n).splitOnP (· == ';') = [integerText n] :=
    fun n => List.splitOnP_eq_singleton fun c hc => (isNumeral_of_mem_integerText hc).ne_semicolon
  rw [split_eq_splitOnP, vertexWord, List.splitOnP_append_cons _ _ (by decide),
    List.splitOnP_append_cons _ _ (by decide), hpiece, hpiece, hpiece]
  rfl

/-- A vertex that is written is read coordinate by coordinate. -/
theorem vertexOfWord_vertexWord_eq_ok {p q : Point Float} :
    vertexOfWord (vertexWord p) = .ok q ↔
      finite? (integerText (toInteger p.x)) = some q.x ∧
        finite? (integerText (toInteger p.y)) = some q.y ∧
        finite? (integerText (toInteger p.z)) = some q.z := by
  have hx := finite?_integerText_toInteger p.x
  have hy := finite?_integerText_toInteger p.y
  have hz := finite?_integerText_toInteger p.z
  obtain ⟨x, y, z⟩ := q
  simp [vertexOfWord, split_vertexWord, vertexOfWord.component, hx, hy, hz, bind, Except.bind, pure,
    Except.pure]

/-- A rounded point is written as the point is. -/
@[simp] theorem vertexWord_rounded (p : Point Float) : vertexWord p.rounded = vertexWord p := by
  simp [vertexWord, Point.rounded]

/-- **Vertices.** A vertex that is written is read again, its coordinates rounded. -/
theorem exists_vertexOfWord_vertexWord (p : Point Float) :
    ∃ q, vertexOfWord (vertexWord p) = .ok q :=
  ⟨⟨_, _, _⟩, vertexOfWord_vertexWord_eq_ok.mpr ⟨finite?_integerText_toInteger _,
    finite?_integerText_toInteger _, finite?_integerText_toInteger _⟩⟩

namespace Record

/-- **Keys.** A key that is written is read again. -/
theorem keyOfWords_digits (k : Key) :
    keyOfWords (digits k.high.toNat) (digits k.low.toNat) = .ok k := by
  simp [keyOfWords, keyByteOfWord, bind, Except.bind, pure, Except.pure]

/-! ### Lines -/

/-- The words of the line of a record are those of the record. -/
theorem words_line (r : Record) : words r.line.toList = r.toWords :=
  words_joinWords fun _ => isWord_of_mem_toWords

/-- **Lines.** The line of a record is read as a record with the same key, and with corners
    that its words are read as. -/
theorem ofLine_line (r : Record) :
    ∃ r', ofLine r.line = .ok r' ∧ r'.key = r.key ∧
      vertexOfWord (vertexWord r.corners.a) = .ok r'.corners.a ∧
      vertexOfWord (vertexWord r.corners.b) = .ok r'.corners.b ∧
      vertexOfWord (vertexWord r.corners.c) = .ok r'.corners.c := by
  obtain ⟨⟨a, b, c⟩, key⟩ := r
  obtain ⟨a', ha⟩ := exists_vertexOfWord_vertexWord a
  obtain ⟨b', hb⟩ := exists_vertexOfWord_vertexWord b
  obtain ⟨c', hc⟩ := exists_vertexOfWord_vertexWord c
  have hcorners : cornersOfWords (vertexWord a) (vertexWord b) (vertexWord c) = .ok ⟨a', b', c'⟩ := by
    simp [cornersOfWords, ha, hb, hc, bind, Except.bind, pure, Except.pure]
  refine ⟨⟨⟨a', b', c'⟩, key⟩, ?_, rfl, ha, hb, hc⟩
  rw [ofLine, words_line]
  cases key with
  | none => simp [toWords, Triple.toList, ofWords, hcorners, bind, Except.bind, pure, Except.pure]
  | some k =>
    simp [toWords, Triple.toList, ofWords, hcorners, keyOfWords_digits, bind, Except.bind, pure,
      Except.pure]

/-- A record is written with rounded corners, whether they are or not. -/
theorem line_rounded (corners : Triple (Point Float)) (key : Option Key) :
    (⟨corners.map Point.rounded, key⟩ : Record).line = (⟨corners, key⟩ : Record).line := by
  simp [line, toWords, Triple.map, Triple.toList]

/-- The line of a record is read as a record with the same key. -/
theorem exists_ofLine_line (r : Record) : ∃ r', ofLine r.line = .ok r' ∧ r'.key = r.key := by
  obtain ⟨r', hr', hkey, -⟩ := ofLine_line r
  exact ⟨r', hr', hkey⟩

/-- The line of a record is a triangle line. -/
@[simp] theorem isTriangle_line (r : Record) : isTriangle r.line = true := by
  rw [isTriangle, LineKind.of, words_line, decide_eq_true_eq]
  rfl

/-- The record of a line carries a key iff the record that it was written for does. -/
@[simp] theorem carriesKey_line (r : Record) : carriesKey r.line = r.key.isSome := by
  obtain ⟨r', hr', hkey⟩ := exists_ofLine_line r
  rw [carriesKey, hr', ← hkey]

/-- The line of a record has no blanks around. -/
@[simp] theorem trim_line (r : Record) : trim r.line = r.line :=
  trim_joinWords fun _ => isWord_of_mem_toWords

/-- The line of a record is a single line. -/
theorem not_mem_line (r : Record) : '\n' ∉ r.line.toList :=
  not_mem_joinWords (fun _ => isWord_of_mem_toWords) (by decide) (by decide)

end Record

end CollisionMesh
