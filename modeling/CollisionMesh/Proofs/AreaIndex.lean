import CollisionMesh.AreaMap
import CollisionMesh.Proofs.Text
import Std.Data.HashMap.Lemmas

namespace CollisionMesh

open Number Text

/-!
# The vertices of an area and their index

A builder keeps the vertices of an area twice: as a list, and as an index that says of a position
where in the list it stands. Both say the same all along. So a builder finds what a search in the
list finds, and a document is read as by a reader that has no index at all.

* `Area.vertex`, `Area.add`, `AreaMap.addLine` — a vertex looked up in the list itself, and a
  triangle added that way; `Area.vertex_cases` — what is found;
* `AreaBuilder.Indexed` — list and index agree; `AreaBuilder.Indexed.vertex`, `Indexed.push` — a
  vertex and a triangle more;
* `AreaMap.Reader`, `AreaMap.Builder.plain` — a reader without an index, and the one that is where a
  builder is; `Builder.Indexed.step`, `Indexed.run` — both read a line and a document alike;
* `AreaMap.parse_eq` — a document is read as by the reader without an index.
-/

/-! ### Without an index -/

namespace Area

/-- The position of a vertex, and the area with that vertex: a new one goes to the end of the
    list. -/
def vertex (a : Area) (p : GridPoint) : Nat × Area :=
  match a.vertices.idxOf? p with
  | some i => (i, a)
  | none => (a.vertices.size, { a with vertices := a.vertices.push p })

/-- The area with one triangle more. -/
def add (a : Area) (collisionType : UInt8) (corners : Triple GridPoint)
    (params : Option (UInt8 × UInt8)) : Area :=
  let (i, a) := a.vertex corners.a
  let (j, a) := a.vertex corners.b
  let (k, a) := a.vertex corners.c
  { a with triangles := a.triangles.push ⟨collisionType, ⟨i, j, k⟩, params⟩ }

/-- What a vertex is looked up as: it is there already, or it is put at the end. -/
theorem vertex_cases (a : Area) (p : GridPoint) :
    a.vertices[(a.vertex p).1]? = some p ∧ (a.vertex p).2 = a ∨
      p ∉ a.vertices ∧ (a.vertex p).1 = a.vertices.size ∧
        (a.vertex p).2 = { a with vertices := a.vertices.push p } := by
  unfold vertex
  split
  · next i hi =>
    rw [Array.idxOf?_eq_map_finIdxOf?_val, Option.map_eq_some_iff] at hi
    obtain ⟨k, hk, rfl⟩ := hi
    have hget := (Array.finIdxOf?_eq_some_iff.mp hk).1
    exact .inl ⟨Array.getElem?_eq_some_iff.mpr ⟨k.isLt, hget⟩, rfl⟩
  · next hi => exact .inr ⟨Array.idxOf?_eq_none_iff.mp hi, rfl, rfl⟩

end Area

namespace AreaMap

/-- The area with the triangle of a line. -/
def addLine (area : Area) (collisionType : UInt8) (ws : List (List Char)) :
    Except LineFault Area := do
  let record ← Record.ofWords ws
  let a ← gridPoint record.corners.a
  let b ← gridPoint record.corners.b
  let c ← gridPoint record.corners.c
  return area.add collisionType ⟨a, b, c⟩ (record.key.map Key.bytes)

end AreaMap

/-! ### List and index -/

/-- The index has the vertices of the list, each at its place there. -/
structure AreaBuilder.Indexed (b : AreaBuilder) : Prop where
  slot : ∀ (p : GridPoint) (i : Nat), b.index[p]? = some i ↔ b.area.vertices[i]? = some p

namespace AreaBuilder

theorem indexed_new (level number : UInt32) : (new level number).Indexed :=
  ⟨fun p i => by simp [new, Area.empty]⟩

namespace Indexed

variable {b : AreaBuilder}

/-- A vertex that the list has is in the index, and nothing happens. -/
private theorem vertex_of_mem (h : b.Indexed) {p : GridPoint} {i : Nat}
    (hget : b.area.vertices[i]? = some p) :
    (b.vertex p).1 = i ∧ (b.vertex p).2.area = b.area ∧ (b.vertex p).2.Indexed := by
  have hindex : b.index[p]? = some i := (h.slot p i).mpr hget
  have hslot : b.index.getD p b.area.vertices.size = i := by
    rw [Std.HashMap.getD_eq_getD_getElem?, hindex, Option.getD_some]
  have hne : i ≠ b.area.vertices.size := (Array.getElem?_eq_some_iff.mp hget).1.ne
  have hvertex : b.vertex p
      = (i, { b with index := b.index.insertIfNew p b.area.vertices.size }) := by
    simp only [vertex, hslot, if_neg hne]
  rw [hvertex]
  refine ⟨rfl, rfl, ⟨fun q j => ?_⟩⟩
  rw [← h.slot]
  show (b.index.insertIfNew p _)[q]? = some j ↔ _
  rw [Std.HashMap.getElem?_insertIfNew, if_neg]
  rintro ⟨-, hnew⟩
  exact hnew (Std.HashMap.mem_iff_isSome_getElem?.mpr (by rw [hindex]; rfl))

/-- A vertex that the list does not have goes to its end, and into the index with that place. -/
private theorem vertex_of_not_mem (h : b.Indexed) {p : GridPoint} (hnew : p ∉ b.area.vertices) :
    (b.vertex p).1 = b.area.vertices.size ∧
      (b.vertex p).2.area = { b.area with vertices := b.area.vertices.push p } ∧
      (b.vertex p).2.Indexed := by
  have hindex : b.index[p]? = none := by
    rw [Option.eq_none_iff_forall_ne_some]
    exact fun i hi => hnew (Array.mem_of_getElem? ((h.slot p i).mp hi))
  have hslot : b.index.getD p b.area.vertices.size = b.area.vertices.size := by
    rw [Std.HashMap.getD_eq_getD_getElem?, hindex, Option.getD_none]
  have hvertex : b.vertex p = (b.area.vertices.size,
      ⟨{ b.area with vertices := b.area.vertices.push p },
        b.index.insertIfNew p b.area.vertices.size⟩) := by
    simp only [vertex, hslot, if_pos]
  have hnot : p ∉ b.index := by
    rw [Std.HashMap.mem_iff_isSome_getElem?, hindex]
    simp
  rw [hvertex]
  refine ⟨rfl, rfl, ⟨fun q j => ?_⟩⟩
  show (b.index.insertIfNew p _)[q]? = some j ↔ (b.area.vertices.push p)[j]? = some q
  rw [Std.HashMap.getElem?_insertIfNew, Array.getElem?_push]
  by_cases hpq : p = q
  · -- The list did not have the position before, so it stands at the end only.
    subst hpq
    rw [if_pos ⟨beq_self_eq_true p, hnot⟩]
    split
    · next hj => simp [hj]
    · next hj =>
      have hnone : b.area.vertices[j]? ≠ some p := fun hj => hnew (Array.mem_of_getElem? hj)
      simp [hnone, Ne.symm hj]
  · rw [if_neg fun hq => hpq (beq_iff_eq.mp hq.1), h.slot]
    split
    · next hj => simp [hj, hpq]
    · rfl

/-- **Vertices.** A vertex is found where a search in the list finds it, and list and index agree
    again. -/
theorem vertex (h : b.Indexed) (p : GridPoint) :
    (b.vertex p).1 = (b.area.vertex p).1 ∧ (b.vertex p).2.area = (b.area.vertex p).2 ∧
      (b.vertex p).2.Indexed := by
  rcases b.area.vertex_cases p with ⟨hget, harea⟩ | ⟨hnew, hslot, harea⟩
  · rw [harea]
    exact h.vertex_of_mem hget
  · rw [hslot, harea]
    exact h.vertex_of_not_mem hnew

/-- **Triangles.** The triangle of a line is added as without an index, and list and index agree
    again. -/
theorem push (h : b.Indexed) (type : UInt8) (ws : List (List Char)) :
    (b.push type ws).map AreaBuilder.area = AreaMap.addLine b.area type ws ∧
      ∀ b', b.push type ws = .ok b' → b'.Indexed := by
  unfold AreaBuilder.push AreaMap.addLine
  cases Record.ofWords ws with
  | error fault => exact ⟨rfl, fun b' h => nomatch h⟩
  | ok r =>
    simp only [bind, Except.bind]
    cases gridPoint r.corners.a with
    | error fault => exact ⟨rfl, fun b' h => nomatch h⟩
    | ok u =>
      cases gridPoint r.corners.b with
      | error fault => exact ⟨rfl, fun b' h => nomatch h⟩
      | ok v =>
        cases gridPoint r.corners.c with
        | error fault => exact ⟨rfl, fun b' h => nomatch h⟩
        | ok w =>
          obtain ⟨hi, hu, h₁⟩ := h.vertex u
          obtain ⟨hj, hv, h₂⟩ := h₁.vertex v
          obtain ⟨hk, hw, h₃⟩ := h₂.vertex w
          constructor
          · simp [Except.map, pure, Except.pure, Area.add, hi, hj, hk, hu, hv, hw]
          · rintro b' hb'
            obtain rfl := Except.ok.inj hb'
            exact ⟨h₃.slot⟩

end Indexed

end AreaBuilder

/-! ### Documents -/

namespace AreaMap

/-- A reader without an index: the areas before the open one, the open one, and the type of the
    triangles to come. -/
structure Reader where
  closed : Array Area
  current : Option Area
  collisionType : UInt8

namespace Reader

/-- The reader before the first line. -/
def start : Reader :=
  ⟨#[], none, 0⟩

/-- The areas read so far, the open one included. -/
def areas (r : Reader) : List Area :=
  r.closed.toList ++ r.current.toList

/-- Reads a line by its words. -/
def step (r : Reader) (ws : List (List Char)) : Except LineFault Reader :=
  match ws with
  | [] => return r
  | tag :: _ =>
    if tag = areaTag.toList then do
      let level ← headerNumber ws 1 word?
      let number ← headerNumber ws 2 word?
      return ⟨r.areas.toArray, some (Area.empty level number), 0⟩
    else if tag = collisionTypeTag.toList then do
      return { r with collisionType := ← headerNumber ws 1 byte? }
    else if tag = triangleTag.toList then
      match r.current with
      | none => throw .outsideArea
      | some area => return { r with current := some (← addLine area r.collisionType ws) }
    else return r

/-- Reads lines from a line number on, up to the first fault. -/
def run (r : Reader) (number : Nat) : List String → Except Error Reader
  | [] => .ok r
  | line :: rest =>
    match r.step (words line.toList) with
    | .error fault => .error (.malformed number fault)
    | .ok r => r.run (number + 1) rest

end Reader

namespace Builder

/-- The reader without an index that is where a builder is. -/
def plain (b : Builder) : Reader :=
  ⟨b.closed, b.current.map AreaBuilder.area, b.collisionType⟩

@[simp] theorem plain_start : start.plain = Reader.start := rfl

/-- The open area has an index that agrees with it. -/
def Indexed (b : Builder) : Prop :=
  ∀ area, b.current = some area → area.Indexed

theorem indexed_start : start.Indexed :=
  fun _ h => nomatch h

variable {b : Builder}

/-- **Lines.** A line is read as without an index, and the index of the open area agrees with it
    again. -/
theorem Indexed.step (h : b.Indexed) (ws : List (List Char)) :
    (b.step ws).map plain = b.plain.step ws ∧ ∀ b', b.step ws = .ok b' → b'.Indexed := by
  cases ws with
  | nil => exact ⟨rfl, fun b' hb' => Except.ok.inj hb' ▸ h⟩
  | cons tag rest =>
    unfold Builder.step Reader.step
    dsimp only
    split
    · -- A new area has no vertices and an empty index.
      cases headerNumber (tag :: rest) 1 word? with
      | error fault => exact ⟨rfl, fun b' h => nomatch h⟩
      | ok level =>
        cases headerNumber (tag :: rest) 2 word? with
        | error fault => exact ⟨rfl, fun b' h => nomatch h⟩
        | ok number =>
          refine ⟨rfl, fun b' hb' area harea => ?_⟩
          obtain rfl := Except.ok.inj hb'
          obtain rfl := Option.some.inj harea
          exact AreaBuilder.indexed_new level number
    split
    · cases headerNumber (tag :: rest) 1 byte? with
      | error fault => exact ⟨rfl, fun b' h => nomatch h⟩
      | ok type => exact ⟨rfl, fun b' hb' => Except.ok.inj hb' ▸ h⟩
    split
    · cases hcurrent : b.current with
      | none =>
        simp only [plain, hcurrent]
        exact ⟨rfl, fun b' h => nomatch h⟩
      | some area =>
        obtain ⟨hpush, hindexed⟩ := (h area hcurrent).push b.collisionType (tag :: rest)
        simp only [plain, hcurrent, Option.map_some, ← hpush]
        cases hresult : area.push b.collisionType (tag :: rest) with
        | error fault => exact ⟨rfl, fun b' h => nomatch h⟩
        | ok area' =>
          refine ⟨rfl, fun b' hb' area'' harea => ?_⟩
          obtain rfl := Except.ok.inj hb'
          obtain rfl := Option.some.inj harea
          exact hindexed area' hresult
    · exact ⟨rfl, fun b' hb' => Except.ok.inj hb' ▸ h⟩

/-- **Documents.** So are all lines. -/
theorem Indexed.run (h : b.Indexed) (number : Nat) (lines : List String) :
    (b.run number lines).map plain = b.plain.run number lines := by
  induction lines generalizing b number with
  | nil => rfl
  | cons line rest ih =>
    obtain ⟨hstep, hindexed⟩ := h.step (words line.toList)
    rw [Builder.run, Reader.run, ← hstep]
    cases hb' : b.step (words line.toList) with
    | error fault => rfl
    | ok b' => exact ih (hindexed b' hb') (number + 1)

end Builder

/-- **Area maps.** A document is read as by the reader without an index. -/
theorem parse_eq (text : String) :
    parse text = (Reader.start.run 1 (lines text)).map fun r => ⟨r.areas⟩ := by
  have hrun := Builder.indexed_start.run 1 (lines text)
  rw [Builder.plain_start] at hrun
  rw [parse, ← hrun]
  cases Builder.start.run 1 (lines text) with
  | error e => rfl
  | ok b => rfl

end AreaMap

end CollisionMesh
