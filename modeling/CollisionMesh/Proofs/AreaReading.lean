import CollisionMesh.Proofs.Areas
import CollisionMesh.Proofs.Literals
import CollisionMesh.Proofs.RoundTrip
import CollisionMesh.Proofs.Trimming

namespace CollisionMesh

open Number Text

/-!
# What an area map says

A document is an area map if every line fits what stands before it, and the first line that does
not is the one at fault. A map has an area for every header. Its triangles are the triangle lines
up to the next header, in order, each with the type that was set last and between places of which
the area has a list: every place once, in the order in which the triangles first come to it.

* `HasWord`, `levelOf?_eq_some_iff` — a line with a word of some form, such as a level;
* `WellFormed`, `Legible` — a line that is right by itself and one that fits what stands before
  it, with a condition on coordinates; `exists_step_iff` — the lines that fit are read;
* `FitsAt`, `forall_fitsAt_iff` — the same for the lines of a document;
* `sections` — the headers of a document with the lines that follow; `typed` — triangle lines with
  their types;
* `Area.Numbered`, `Area.IsOf`, `Area.Account` — an area with its vertices in order, the area of a
  section, and all that it says of it;
* `AreaMap.Reader.Holds` — the reader after some lines, and `Holds.takes`, `Holds.run` — a line and
  a document more;
* `AreaMap.parse_reads_sections` — all of it.
-/

/-! ### Coordinates on the grid -/

/-- An integer of 16 bits. -/
def IsShort (c : Float) : Prop :=
  isFinite c = true ∧ ∃ n : Int, value (parts c) = n ∧ -32768 ≤ n ∧ n ≤ 32767

/-- A coordinate is on the grid at its value. -/
theorem gridCoordinate_eq_ok_iff_value {c : Float} {g : Int16} :
    gridCoordinate c = .ok g ↔ isFinite c = true ∧ value (parts c) = g.toInt := by
  simp only [gridCoordinate_eq_ok, integral?_eq_some_iff]
  constructor
  · rintro ⟨n, ⟨hfinite, hvalue⟩, hlow, hhigh, rfl⟩
    rw [Int16.toInt_ofInt_of_le (by omega) (by omega)]
    exact ⟨hfinite, hvalue⟩
  · rintro ⟨hfinite, hvalue⟩
    have hlow := g.le_toInt
    have hhigh := g.toInt_lt
    exact ⟨g.toInt, ⟨hfinite, hvalue⟩, by omega, by omega, g.ofInt_toInt.symm⟩

theorem exists_gridCoordinate_iff {c : Float} : (∃ g, gridCoordinate c = .ok g) ↔ IsShort c := by
  simp only [gridCoordinate_eq_ok, integral?_eq_some_iff]
  constructor
  · rintro ⟨-, n, ⟨hfinite, hvalue⟩, hlow, hhigh, -⟩
    exact ⟨hfinite, n, hvalue, hlow, hhigh⟩
  · rintro ⟨hfinite, n, hvalue, hlow, hhigh⟩
    exact ⟨_, n, ⟨hfinite, hvalue⟩, hlow, hhigh, rfl⟩

/-- A vertex is where a point is, coordinate by coordinate. -/
def GridPoint.IsAt (v : GridPoint) (p : Point Float) : Prop :=
  value (parts p.x) = v.x.toInt ∧ value (parts p.y) = v.y.toInt ∧ value (parts p.z) = v.z.toInt

theorem GridPoint.isAt_of_gridPoint {p : Point Float} {v : GridPoint} (h : gridPoint p = .ok v) :
    v.IsAt p := by
  obtain ⟨hx, hy, hz⟩ := gridPoint_eq_ok.mp h
  exact ⟨(gridCoordinate_eq_ok_iff_value.mp hx).2, (gridCoordinate_eq_ok_iff_value.mp hy).2,
    (gridCoordinate_eq_ok_iff_value.mp hz).2⟩

theorem exists_gridPoint_iff {p : Point Float} :
    (∃ v, gridPoint p = .ok v) ↔ ∀ c ∈ p.coordinates, IsShort c := by
  simp only [Point.coordinates, List.forall_mem_cons, List.not_mem_nil, false_implies, forall_true_iff,
    and_true, ← exists_gridCoordinate_iff, gridPoint_eq_ok]
  constructor
  · rintro ⟨v, hx, hy, hz⟩
    exact ⟨⟨_, hx⟩, ⟨_, hy⟩, ⟨_, hz⟩⟩
  · rintro ⟨⟨x, hx⟩, ⟨y, hy⟩, ⟨z, hz⟩⟩
    exact ⟨⟨x, y, z⟩, hx, hy, hz⟩

/-- A line has all corners on the grid iff it is a record with short coordinates. -/
theorem onGrid_iff {line : String} :
    OnGrid line ↔ ∃ r, Record.ofLine line = .ok r ∧ ∀ c ∈ r.coordinates, IsShort c := by
  have hpoints : ∀ r : Record,
      (∀ p ∈ r.corners.toList, ∃ v, gridPoint p = .ok v) ↔ ∀ c ∈ r.coordinates, IsShort c := by
    intro r
    simp only [exists_gridPoint_iff, Record.coordinates, List.mem_flatMap]
    exact ⟨fun h c hc => hc.elim fun p hp => h p hp.1 c hp.2, fun h p hp c hc => h c ⟨p, hp, hc⟩⟩
  simp only [OnGrid, hpoints]

/-! ### Lines that fit -/

open AreaMap

/-- A line has a word of some form at a place. -/
def HasWord (place : Nat) (form : List Char → Prop) (line : String) : Prop :=
  ∃ word, (words line.toList)[place]? = some word ∧ form word

theorem levelOf?_eq_some_iff {line : String} {level : UInt32} :
    levelOf? line = some level ↔ HasWord 1 (WordText level) line := by
  simp only [levelOf?, Option.bind_eq_bind, Option.bind_eq_some_iff, word?_eq_some_iff, HasWord]

theorem numberOf?_eq_some_iff {line : String} {number : UInt32} :
    numberOf? line = some number ↔ HasWord 2 (WordText number) line := by
  simp only [numberOf?, Option.bind_eq_bind, Option.bind_eq_some_iff, word?_eq_some_iff, HasWord]

theorem typeOf?_eq_some_iff {line : String} {type : UInt8} :
    typeOf? line = some type ↔ HasWord 1 (ByteText type) line := by
  simp only [typeOf?, Option.bind_eq_bind, Option.bind_eq_some_iff, byte?_eq_some_iff, HasWord]

@[simp] theorem hasWord_trim (place : Nat) (form : List Char → Prop) (line : String) :
    HasWord place form (trim line) ↔ HasWord place form line := by
  rw [HasWord, words_trim, HasWord]

/-- A line that is right by itself: a header says a level and a number, a type line says a type,
    and a triangle line is a record with coordinates that fulfil a condition. -/
structure WellFormed (P : Float → Prop) (line : String) : Prop where
  header : hasTag areaTag line = true →
    (∃ level, HasWord 1 (WordText level) line) ∧ ∃ number, HasWord 2 (WordText number) line
  type : hasTag collisionTypeTag line = true → ∃ type, HasWord 1 (ByteText type) line
  triangle : hasTag triangleTag line = true →
    ∃ r, Record.ofLine line = .ok r ∧ ∀ c ∈ r.coordinates, P c

/-- The condition on a triangle line can be checked. -/
instance {P : Float → Prop} [DecidablePred P] (line : String) :
    Decidable (∃ r, Record.ofLine line = .ok r ∧ ∀ c ∈ r.coordinates, P c) :=
  match h : Record.ofLine line with
  | .ok r => decidable_of_iff (∀ c ∈ r.coordinates, P c) (by simp)
  | .error _ => isFalse (by simp)

instance {P : Float → Prop} [DecidablePred P] (line : String) : Decidable (WellFormed P line) :=
  decidable_of_iff
    ((hasTag areaTag line = true → (levelOf? line).isSome = true ∧ (numberOf? line).isSome = true) ∧
      (hasTag collisionTypeTag line = true → (typeOf? line).isSome = true) ∧
      (hasTag triangleTag line = true →
        ∃ r, Record.ofLine line = .ok r ∧ ∀ c ∈ r.coordinates, P c))
    (by simp only [Option.isSome_iff_exists, levelOf?_eq_some_iff, numberOf?_eq_some_iff,
      typeOf?_eq_some_iff]; exact ⟨fun h => ⟨h.1, h.2.1, h.2.2⟩,
      fun h => ⟨h.header, h.type, h.triangle⟩⟩)

/-- A line that can stand after some others: it is right by itself, and a triangle line stands
    after a header. -/
structure Legible (P : Float → Prop) (before : List String) (line : String) : Prop extends
    WellFormed P line where
  within : hasTag triangleTag line = true → ∃ header ∈ before, hasTag areaTag header = true

/-- **Lines that fit.** They are the lines that are read. -/
theorem exists_step_iff {r : Reader} {before : List String} {line : String}
    (hopen : r.current.isSome = true ↔ ∃ header ∈ before, hasTag areaTag header = true) :
    (∃ r', r.step (words line.toList) = .ok r') ↔ Legible IsShort before line := by
  simp only [Reader.step_eq_ok]
  constructor
  · rintro ⟨r', h⟩
    cases h with
    | header htag hlevel hnumber =>
      rw [levelOf?_eq_some_iff] at hlevel
      rw [numberOf?_eq_some_iff] at hnumber
      have htype : hasTag collisionTypeTag line = false := hasTag_of_ne htag (by decide)
      have htriangle : hasTag triangleTag line = false := hasTag_of_ne htag (by decide)
      exact ⟨⟨fun _ => ⟨⟨_, hlevel⟩, ⟨_, hnumber⟩⟩, by simp [htype], by simp [htriangle]⟩,
        by simp [htriangle]⟩
    | type htag htype =>
      rw [typeOf?_eq_some_iff] at htype
      have harea : hasTag areaTag line = false := hasTag_of_ne htag (by decide)
      have htriangle : hasTag triangleTag line = false := hasTag_of_ne htag (by decide)
      exact ⟨⟨by simp [harea], fun _ => ⟨_, htype⟩, by simp [htriangle]⟩, by simp [htriangle]⟩
    | triangle htag ha hadd =>
      have harea : hasTag areaTag line = false := hasTag_of_ne htag (by decide)
      have htype : hasTag collisionTypeTag line = false := hasTag_of_ne htag (by decide)
      exact ⟨⟨by simp [harea], by simp [htype], fun _ => onGrid_iff.mp (onGrid_of_addLine hadd)⟩,
        fun _ => hopen.mp (by rw [ha]; rfl)⟩
    | other harea htype htriangle =>
      exact ⟨⟨by simp [harea], by simp [htype], by simp [htriangle]⟩, by simp [htriangle]⟩
  · intro h
    by_cases harea : hasTag areaTag line = true
    · obtain ⟨⟨level, hlevel⟩, ⟨number, hnumber⟩⟩ := h.header harea
      exact ⟨_, .header harea (levelOf?_eq_some_iff.mpr hlevel) (numberOf?_eq_some_iff.mpr hnumber)⟩
    by_cases htype : hasTag collisionTypeTag line = true
    · obtain ⟨type, hread⟩ := h.type htype
      exact ⟨_, .type htype (typeOf?_eq_some_iff.mpr hread)⟩
    by_cases htriangle : hasTag triangleTag line = true
    · have hgrid := onGrid_iff.mpr (h.triangle htriangle)
      obtain ⟨a, ha⟩ := Option.isSome_iff_exists.mp (hopen.mpr (h.within htriangle))
      obtain ⟨a', hadd⟩ := exists_addLine_of_onGrid hgrid a r.collisionType
      exact ⟨_, .triangle htriangle ha hadd⟩
    · exact ⟨_, .other (by simpa using harea) (by simpa using htype) (by simpa using htriangle)⟩

/-- The line of a document at a position fits the lines before it. -/
def FitsAt (P : Float → Prop) (lines : List String) (n : Nat) : Prop :=
  ∀ line, lines[n]? = some line → Legible P (lines.take n) line

/-- **Documents that fit.** All lines are right by themselves, and there is no triangle line before
    the first header. -/
theorem forall_fitsAt_iff {P : Float → Prop} {lines : List String} :
    (∀ n, FitsAt P lines n) ↔ (∀ line ∈ lines, WellFormed P line) ∧
      ∀ line ∈ lines.takeWhile (fun l => !hasTag areaTag l), hasTag triangleTag line = false := by
  constructor
  · intro h
    refine ⟨fun line hline => ?_, fun line hline => ?_⟩
    · obtain ⟨n, hn⟩ := List.getElem?_of_mem hline
      exact (h n line hn).toWellFormed
    · obtain ⟨n, hn⟩ := List.getElem?_of_mem hline
      obtain ⟨after, hafter⟩ := List.takeWhile_prefix (l := lines) fun l => !hasTag areaTag l
      have hlt := (List.getElem?_eq_some_iff.mp hn).1
      have hget : lines[n]? = some line := by
        rw [← hafter, List.getElem?_append_left hlt, hn]
      -- What stands before such a line is no header.
      by_contra htriangle
      obtain ⟨header, hheader, htag⟩ := (h n line hget).within (Bool.eq_true_of_not_eq_false htriangle)
      rw [← hafter, List.take_append_of_le_length hlt.le] at hheader
      have := List.mem_takeWhile_imp (List.mem_of_mem_take hheader)
      simp [htag] at this
  · rintro ⟨hwell, hleading⟩ n line hline
    refine ⟨hwell line (List.mem_of_getElem? hline), fun htriangle => ?_⟩
    by_contra hnone
    have hbefore : ∀ l ∈ lines.take (n + 1), (!hasTag areaTag l) = true := by
      rw [List.take_add_one, hline]
      intro l hl
      rcases List.mem_append.mp hl with hl | hl
      · exact Bool.not_eq_true' _ ▸ Bool.eq_false_iff.mpr fun htag => hnone ⟨l, hl, htag⟩
      · obtain rfl : l = line := by simpa using hl
        exact Bool.not_eq_true' _ ▸ hasTag_of_ne htriangle (by decide)
    have hmem : line ∈ lines.takeWhile fun l => !hasTag areaTag l := by
      rw [← List.take_append_drop (n + 1) lines, List.takeWhile_append_of_pos hbefore,
        List.take_add_one, hline]
      simp
    simp [hleading line hmem] at htriangle

/-- The blanks around lines do not matter. -/
theorem forall_fitsAt_map_trim {P : Float → Prop} {lines : List String} :
    (∀ n, FitsAt P (lines.map trim) n) ↔ ∀ n, FitsAt P lines n := by
  have hwell : ∀ line, WellFormed P (trim line) ↔ WellFormed P line := by
    intro line
    constructor <;> rintro ⟨harea, htype, htriangle⟩ <;> refine ⟨?_, ?_, ?_⟩ <;> simp_all
  simp [forall_fitsAt_iff, hwell, List.takeWhile_map, Function.comp_def]

/-! ### Sections -/

/-- The headers of a document, each with the lines up to the next one. -/
def sections : List String → List (String × List String)
  | [] => []
  | line :: rest =>
    if hasTag areaTag line then
      (line, rest.takeWhile fun l => !hasTag areaTag l) :: sections rest
    else sections rest

theorem sections_eq_nil_iff {lines : List String} :
    sections lines = [] ↔ ∀ line ∈ lines, hasTag areaTag line = false := by
  induction lines with
  | nil => simp [sections]
  | cons line rest ih =>
    rw [sections, List.forall_mem_cons]
    split
    · next h => simp [h]
    · next h => simp [h, ih]

/-- Where a header stands, what follows is not among the lines up to it. -/
private theorem takeWhile_concat {line : String} {lines : List String}
    (h : ∃ l ∈ lines ++ [line], hasTag areaTag l = true) :
    (lines ++ [line]).takeWhile (fun l => !hasTag areaTag l)
      = lines.takeWhile fun l => !hasTag areaTag l := by
  induction lines with
  | nil => simpa using h
  | cons first rest ih =>
    rw [List.cons_append, List.takeWhile_cons, List.takeWhile_cons]
    split
    · next hfirst =>
      rw [ih]
      obtain ⟨l, hl, htag⟩ := h
      rcases List.mem_cons.mp hl with rfl | hl
      · simp [htag] at hfirst
      · exact ⟨l, hl, htag⟩
    · rfl

/-- A header more starts a section. -/
theorem sections_concat_of_header {line : String} (h : hasTag areaTag line = true)
    (lines : List String) : sections (lines ++ [line]) = sections lines ++ [(line, [])] := by
  induction lines with
  | nil => simp [sections, h]
  | cons first rest ih =>
    rw [List.cons_append, sections, sections, takeWhile_concat ⟨line, by simp, h⟩, ih]
    split <;> simp

/-- Any other line more before the first header belongs to none. -/
theorem sections_concat_of_eq_nil {line : String} (h : hasTag areaTag line = false)
    {lines : List String} (hlines : sections lines = []) : sections (lines ++ [line]) = [] := by
  rw [sections_eq_nil_iff] at hlines ⊢
  simpa [or_imp, forall_and, h] using hlines

/-- Any other line more belongs to the last section. -/
theorem sections_concat {line : String} (h : hasTag areaTag line = false) {lines : List String}
    {earlier : List (String × List String)} {header : String} {body : List String}
    (hlines : sections lines = earlier ++ [(header, body)]) :
    sections (lines ++ [line]) = earlier ++ [(header, body ++ [line])] := by
  induction lines generalizing earlier with
  | nil => simp [sections] at hlines
  | cons first rest ih =>
    rw [List.cons_append, sections]
    rw [sections] at hlines
    split at hlines
    · next hfirst =>
      rw [if_pos hfirst]
      cases earlier with
      -- The first line is the only header.
      | nil =>
        obtain ⟨hsection, hrest⟩ := List.cons.inj hlines
        have hnone := sections_eq_nil_iff.mp hrest
        have hall : ∀ l ∈ rest, (!hasTag areaTag l) = true := by simpa using hnone
        have hall' : ∀ l ∈ rest ++ [line], (!hasTag areaTag l) = true := by
          simpa [or_imp, forall_and, h] using hnone
        rw [List.takeWhile_eq_self_iff.mpr hall] at hsection
        obtain ⟨rfl, rfl⟩ := Prod.mk.inj hsection
        rw [List.takeWhile_eq_self_iff.mpr hall', sections_concat_of_eq_nil h hrest]
        rfl
      | cons head later =>
        obtain ⟨rfl, hrest⟩ := List.cons.inj hlines
        have hheader : ∃ l ∈ rest, hasTag areaTag l = true := by
          by_contra hnone
          have hnil := sections_eq_nil_iff.mpr (by simpa using hnone)
          rw [hnil] at hrest
          exact absurd hrest (by simp)
        obtain ⟨l, hl, htag⟩ := hheader
        rw [takeWhile_concat ⟨l, List.mem_append_left _ hl, htag⟩, ih hrest]
        rfl
    · next hfirst =>
      rw [if_neg hfirst]
      exact ih hlines

/-- The type that some lines set last, and zero if they set none. -/
def typeAfter (lines : List String) : UInt8 :=
  ((lines.filter (hasTag collisionTypeTag)).getLast?.bind typeOf?).getD 0

theorem typeAfter_concat (lines : List String) (line : String) :
    typeAfter (lines ++ [line])
      = if hasTag collisionTypeTag line then (typeOf? line).getD 0 else typeAfter lines := by
  unfold typeAfter
  rw [List.filter_append]
  split
  · next h => simp [h]
  · next h => simp [h]

/-- The triangle lines among some lines, each with the type that was set last before it. -/
def typed (lines : List String) : List (UInt8 × String) :=
  (lines.zipIdx.filter fun l => hasTag triangleTag l.1).map fun l =>
    (typeAfter (lines.take l.2), l.1)

theorem typed_concat (lines : List String) (line : String) :
    typed (lines ++ [line])
      = typed lines ++ if hasTag triangleTag line then [(typeAfter lines, line)] else [] := by
  -- What stands before a line does not change when lines are added at the end.
  have hearlier : ∀ l ∈ lines.zipIdx.filter fun l => hasTag triangleTag l.1,
      (typeAfter ((lines ++ [line]).take l.2), l.1) = (typeAfter (lines.take l.2), l.1) := by
    intro l hl
    have hlt := (List.mem_zipIdx (List.mem_of_mem_filter hl)).2.1
    rw [List.take_append_of_le_length (by omega)]
  rw [typed, List.zipIdx_append, List.filter_append, List.map_append, List.map_congr_left hearlier,
    typed]
  congr 1
  by_cases h : hasTag triangleTag line = true <;> simp [h]

/-! ### Vertices -/

namespace Area

/-- The positions of all corners, triangle by triangle. -/
def indices (a : Area) : List Nat :=
  a.triangles.toList.flatMap fun t => t.corners.toList

/-- A vertex list without repeats, with the vertices in the order of their first use. -/
structure Numbered (indices : List Nat) (vertices : Array GridPoint) : Prop where
  nodup : vertices.toList.Nodup
  firstUse : indices.eraseDups = List.range vertices.size

/-- The positions that are used are those of the vertices. -/
theorem Numbered.mem_iff {indices : List Nat} {vertices : Array GridPoint}
    (h : Numbered indices vertices) {i : Nat} : i ∈ indices ↔ i < vertices.size := by
  rw [← List.mem_eraseDups, h.firstUse, List.mem_range]

/-- The position of a vertex is where it is found. -/
theorem getElem?_vertex (a : Area) (p : GridPoint) :
    (a.vertex p).2.vertices[(a.vertex p).1]? = some p := by
  rcases a.vertex_cases p with ⟨hget, harea⟩ | ⟨-, hindex, harea⟩
  · rw [harea, hget]
  · rw [harea, hindex]
    exact Array.getElem?_push_size

/-- A vertex stays where it is. -/
theorem getElem?_vertex_of_eq_some {a : Area} {i : Nat} {v : GridPoint}
    (h : a.vertices[i]? = some v) (p : GridPoint) : (a.vertex p).2.vertices[i]? = some v := by
  rcases a.vertex_cases p with ⟨-, harea⟩ | ⟨-, -, harea⟩
  · rw [harea, h]
  · have hlt := (Array.getElem?_eq_some_iff.mp h).1
    rw [harea, Array.getElem?_push, if_neg (by omega), h]

/-- **Numbering.** A vertex more is numbered in its turn. -/
theorem Numbered.vertex {indices : List Nat} {a : Area} (h : Numbered indices a.vertices)
    (p : GridPoint) : Numbered (indices ++ [(a.vertex p).1]) (a.vertex p).2.vertices := by
  rcases a.vertex_cases p with ⟨hget, harea⟩ | ⟨hnew, hindex, harea⟩
  · have hmem : (a.vertex p).1 ∈ indices := h.mem_iff.mpr (Array.getElem?_eq_some_iff.mp hget).1
    rw [harea]
    exact ⟨h.nodup, by rw [eraseDups_concat, if_pos hmem, h.firstUse]⟩
  · have hmem : a.vertices.size ∉ indices := fun hmem => absurd (h.mem_iff.mp hmem) (lt_irrefl _)
    rw [harea, hindex]
    refine ⟨?_, ?_⟩
    · rw [Array.toList_push, List.nodup_append]
      refine ⟨h.nodup, List.nodup_singleton p, ?_⟩
      intro v hv w hw
      rw [List.mem_singleton.mp hw]
      rintro rfl
      exact hnew (Array.mem_toList_iff.mp hv)
    · rw [eraseDups_concat, if_neg hmem, h.firstUse, Array.size_push, List.range_succ]

/-- **Numbering.** So are the corners of a triangle more. -/
theorem Numbered.add {a : Area} (h : Numbered a.indices a.vertices) (type : UInt8)
    (corners : Triple GridPoint) (params : Option (UInt8 × UInt8)) :
    Numbered (a.add type corners params).indices (a.add type corners params).vertices := by
  have hcorners := ((h.vertex corners.a).vertex corners.b).vertex corners.c
  rw [List.append_assoc, List.append_assoc] at hcorners
  have hindices : (a.add type corners params).indices = a.indices ++ [(a.vertex corners.a).1,
      ((a.vertex corners.a).2.vertex corners.b).1,
      (((a.vertex corners.a).2.vertex corners.b).2.vertex corners.c).1] := by
    simp [indices, Area.add, Triple.toList]
  rw [hindices]
  exact hcorners

/-- A vertex stays where it is when a triangle is added. -/
theorem getElem?_add_of_eq_some {a : Area} {i : Nat} {v : GridPoint}
    (h : a.vertices[i]? = some v) (type : UInt8) (corners : Triple GridPoint)
    (params : Option (UInt8 × UInt8)) : (a.add type corners params).vertices[i]? = some v :=
  getElem?_vertex_of_eq_some (getElem?_vertex_of_eq_some (getElem?_vertex_of_eq_some h _) _) _

/-- The triangle that is added has its corners where they are found. -/
theorem exists_triangles_add (a : Area) (type : UInt8) (corners : Triple GridPoint)
    (params : Option (UInt8 × UInt8)) :
    ∃ t : AreaTriangle, (a.add type corners params).triangles = a.triangles.push t ∧
      t.collisionType = type ∧ t.params = params ∧
      List.Forall₂ (fun i v => (a.add type corners params).vertices[i]? = some v)
        t.corners.toList corners.toList := by
  have htriangles : (a.add type corners params).triangles = a.triangles.push ⟨type,
      ⟨(a.vertex corners.a).1, ((a.vertex corners.a).2.vertex corners.b).1,
        (((a.vertex corners.a).2.vertex corners.b).2.vertex corners.c).1⟩, params⟩ := by
    simp [add]
  refine ⟨_, htriangles, rfl, rfl, ?_⟩
  simp only [Triple.toList, List.forall₂_cons, List.Forall₂.nil, and_true]
  exact ⟨getElem?_vertex_of_eq_some (getElem?_vertex_of_eq_some (getElem?_vertex _ _) _) _,
    getElem?_vertex_of_eq_some (getElem?_vertex _ _) _, getElem?_vertex _ _⟩

/-! ### Areas of sections -/

/-- A triangle of an area as the record of a line of a type: looked up, its corners are where
    those of the record are. -/
structure Shows (a : Area) (type : UInt8) (r : Record) (t : AreaTriangle) : Prop where
  type : t.collisionType = type
  params : t.params = r.key.map Key.bytes
  corners : List.Forall₂ (fun i p => ∃ v, a.vertices[i]? = some v ∧ v.IsAt p)
    t.corners.toList r.corners.toList

/-- The area of a header and of the lines that follow it: its triangles are those of the triangle
    lines, and its vertices are numbered by first use. -/
structure IsOf (header : String) (body : List String) (a : Area) : Prop where
  level : HasWord 1 (WordText a.level) header
  number : HasWord 2 (WordText a.number) header
  triangles : List.Forall₂
    (fun entry t => ∃ r, Record.ofLine entry.2 = .ok r ∧ a.Shows entry.1 r t)
    (typed body) a.triangles.toList
  numbered : Numbered a.indices a.vertices

/-- The area of a header alone. -/
theorem isOf_empty {header : String} {level number : UInt32} (hlevel : levelOf? header = some level)
    (hnumber : numberOf? header = some number) : (Area.empty level number).IsOf header [] :=
  ⟨levelOf?_eq_some_iff.mp hlevel, numberOf?_eq_some_iff.mp hnumber, .nil, List.nodup_nil, rfl⟩

variable {header line : String} {body : List String} {a a' : Area}

/-- A line that is no triangle changes nothing. -/
theorem IsOf.concat (h : a.IsOf header body) (hline : hasTag triangleTag line = false) :
    a.IsOf header (body ++ [line]) := by
  refine ⟨h.level, h.number, ?_, h.numbered⟩
  rw [typed_concat, hline]
  simpa using h.triangles

/-- **Triangle lines.** A triangle line adds its record with the type that was set last. -/
theorem IsOf.addLine (h : a.IsOf header body) (hline : hasTag triangleTag line = true)
    (hadd : AreaMap.addLine a (typeAfter body) (words line.toList) = .ok a') :
    a'.IsOf header (body ++ [line]) := by
  obtain ⟨r, corners, hr, hu, hv, hw, rfl⟩ := addLine_eq_ok.mp hadd
  obtain ⟨t, htriangles, htype, hparams, hcorners⟩ :=
    a.exists_triangles_add (typeAfter body) corners (r.key.map Key.bytes)
  refine ⟨by simp [h.level, Area.add], by simp [h.number, Area.add], ?_, h.numbered.add _ _ _⟩
  rw [typed_concat, if_pos hline, htriangles, Array.toList_push]
  refine List.rel_append (h.triangles.imp ?_) (.cons ⟨r, hr, htype, hparams, ?_⟩ .nil)
  -- The triangles before are found where they were.
  · rintro entry t' ⟨r', hr', hshows⟩
    refine ⟨r', hr', hshows.type, hshows.params, hshows.corners.imp ?_⟩
    rintro i p ⟨v, hget, hat⟩
    exact ⟨v, getElem?_add_of_eq_some hget _ _ _, hat⟩
  · simp only [Triple.toList, List.forall₂_cons, List.Forall₂.nil, and_true] at hcorners ⊢
    exact ⟨⟨_, hcorners.1, GridPoint.isAt_of_gridPoint hu⟩,
      ⟨_, hcorners.2.1, GridPoint.isAt_of_gridPoint hv⟩,
      ⟨_, hcorners.2.2, GridPoint.isAt_of_gridPoint hw⟩⟩

/-! ### Histograms -/

/-- A histogram lists the types that occur with their counts. -/
theorem mem_histogram_iff {type : UInt8} {n : Nat} :
    (type, n) ∈ a.histogram ↔ n ≠ 0 ∧ a.countOf type = n := by
  simp only [histogram, List.mem_filter, List.mem_map, List.mem_range, Prod.mk.injEq,
    bne_iff_ne]
  constructor
  · rintro ⟨⟨k, -, rfl, rfl⟩, hn⟩
    exact ⟨hn, rfl⟩
  · rintro ⟨hn, rfl⟩
    exact ⟨⟨type.toNat, type.toNat_lt, by simp, by simp⟩, hn⟩

/-- The types stand in ascending order. -/
theorem pairwise_histogram (a : Area) : (a.histogram.map Prod.fst).Pairwise (· < ·) := by
  have hall : ((List.range 256).map UInt8.ofNat).Pairwise (· < ·) := by
    rw [List.pairwise_map]
    refine List.pairwise_lt_range.imp_of_mem fun {j k} _ hk hlt => ?_
    have hk := List.mem_range.mp hk
    rw [UInt8.lt_iff_toNat_lt, UInt8.toNat_ofNat_of_lt' (hlt.trans hk), UInt8.toNat_ofNat_of_lt' hk]
    exact hlt
  refine hall.sublist ?_
  have hmap : ((List.range 256).map fun n => (UInt8.ofNat n, a.countOf (UInt8.ofNat n))).map Prod.fst
      = (List.range 256).map UInt8.ofNat := by
    rw [List.map_map]
    rfl
  rw [← hmap]
  exact List.filter_sublist.map Prod.fst

/-- The triangles of a type are the triangle lines that have it. -/
theorem IsOf.countOf (h : a.IsOf header body) (type : UInt8) :
    a.countOf type = (typed body).countP fun entry => entry.1 == type := by
  have hcount : ∀ {entries : List (UInt8 × String)} {ts : List AreaTriangle}, List.Forall₂
      (fun entry t => ∃ r, Record.ofLine entry.2 = .ok r ∧ a.Shows entry.1 r t) entries ts →
      ts.countP (fun t => t.collisionType == type) = entries.countP fun entry => entry.1 == type := by
    intro entries ts hts
    induction hts with
    | nil => rfl
    | cons hshows _ ih =>
      obtain ⟨r, -, hshows⟩ := hshows
      rw [List.countP_cons, List.countP_cons, ih, hshows.type]
  exact hcount h.triangles

/-- All that an area says about the section that it was read from. -/
structure Account (header : String) (body : List String) (a : Area) : Prop extends
    IsOf header body a where
  /-- The positions that the triangles use are all of the vertex list. -/
  used : ∀ i, i ∈ a.indices ↔ i < a.vertices.size
  types : (a.histogram.map Prod.fst).Pairwise (· < ·)
  counts : ∀ type n, (type, n) ∈ a.histogram ↔
    n ≠ 0 ∧ ((typed body).countP fun entry => entry.1 == type) = n

theorem IsOf.account (h : a.IsOf header body) : a.Account header body where
  toIsOf := h
  used _ := h.numbered.mem_iff
  types := a.pairwise_histogram
  counts type n := by rw [mem_histogram_iff, h.countOf]

end Area

namespace AreaMap

namespace Reader

/-! ### The reader -/

/-- A reader after some lines: its areas are those of the sections, the open one of the last. -/
structure Holds (lines : List String) (r : Reader) : Prop where
  idle : r.current = none → sections lines = [] ∧ r.closed.toList = []
  within : ∀ a, r.current = some a → ∃ earlier header body,
    sections lines = earlier ++ [(header, body)] ∧
      List.Forall₂ (fun s a => Area.IsOf s.1 s.2 a) earlier r.closed.toList ∧
      a.IsOf header body ∧ r.collisionType = typeAfter body

theorem holds_start : Holds [] start :=
  ⟨fun _ => ⟨rfl, rfl⟩, fun a ha => absurd ha (by simp [start])⟩

variable {lines : List String} {r r' : Reader}

/-- The areas are those of the sections. -/
theorem Holds.areas (h : Holds lines r) :
    List.Forall₂ (fun s a => Area.IsOf s.1 s.2 a) (sections lines) r.areas := by
  unfold Reader.areas
  cases hcurrent : r.current with
  | none =>
    obtain ⟨hsections, hclosed⟩ := h.idle hcurrent
    rw [hsections, hclosed]
    exact .nil
  | some a =>
    obtain ⟨earlier, header, body, hsections, hclosed, ha, -⟩ := h.within a hcurrent
    rw [hsections]
    exact List.rel_append hclosed (.cons ha .nil)

/-- An area is open iff there was a header. -/
theorem Holds.isSome_iff (h : Holds lines r) :
    r.current.isSome = true ↔ ∃ header ∈ lines, hasTag areaTag header = true := by
  have hnone : sections lines = [] ↔ ¬ ∃ header ∈ lines, hasTag areaTag header = true := by
    rw [sections_eq_nil_iff]
    simp
  cases hcurrent : r.current with
  | none => simpa using hnone.mp (h.idle hcurrent).1
  | some a =>
    obtain ⟨earlier, header, body, hsections, -⟩ := h.within a hcurrent
    have hne : ¬ sections lines = [] := by simp [hsections]
    simpa using not_not.mp (hnone.not.mp hne)

/-- **Lines.** A line that is read is one line more. -/
theorem Holds.takes (h : Holds lines r) {line : String} (hline : Takes line r r') :
    Holds (lines ++ [line]) r' := by
  cases hline with
  | header htag hlevel hnumber =>
    refine ⟨fun hcurrent => absurd hcurrent (by simp), ?_⟩
    intro a ha
    obtain rfl := Option.some.inj ha
    exact ⟨sections lines, line, [], sections_concat_of_header htag lines, h.areas,
      Area.isOf_empty hlevel hnumber, rfl⟩
  | type htag htype =>
    have harea : hasTag areaTag line = false := hasTag_of_ne htag (by decide)
    have htriangle : hasTag triangleTag line = false := hasTag_of_ne htag (by decide)
    refine ⟨fun hcurrent => (h.idle hcurrent).imp_left (sections_concat_of_eq_nil harea), ?_⟩
    intro a hcurrent
    obtain ⟨earlier, header, body, hsections, hclosed, ha, -⟩ := h.within a hcurrent
    refine ⟨earlier, header, body ++ [line], sections_concat harea hsections, hclosed,
      ha.concat htriangle, ?_⟩
    rw [typeAfter_concat, if_pos htag, htype, Option.getD_some]
  | triangle htag hcurrent hadd =>
    have harea : hasTag areaTag line = false := hasTag_of_ne htag (by decide)
    have htype : hasTag collisionTypeTag line = false := hasTag_of_ne htag (by decide)
    obtain ⟨earlier, header, body, hsections, hclosed, ha, hset⟩ := h.within _ hcurrent
    refine ⟨fun hcurrent => absurd hcurrent (by simp), ?_⟩
    intro a ha'
    obtain rfl := Option.some.inj ha'
    refine ⟨earlier, header, body ++ [line], sections_concat harea hsections, hclosed,
      ha.addLine htag (hset ▸ hadd), ?_⟩
    rw [typeAfter_concat, htype]
    exact hset
  | other harea htype htriangle =>
    refine ⟨fun hcurrent => (h.idle hcurrent).imp_left (sections_concat_of_eq_nil harea), ?_⟩
    intro a hcurrent
    obtain ⟨earlier, header, body, hsections, hclosed, ha, hset⟩ := h.within a hcurrent
    refine ⟨earlier, header, body ++ [line], sections_concat harea hsections, hclosed,
      ha.concat htriangle, ?_⟩
    rw [typeAfter_concat, htype]
    exact hset

end Reader

/-- **Documents.** The lines to come are read if all of them fit, and up to the first one that
    does not. -/
theorem Reader.Holds.run {before : List String} {r : Reader} (h : Holds before r)
    (rest : List String) :
    ((∀ n, before.length ≤ n → FitsAt IsShort (before ++ rest) n) ∧
      ∃ r', r.run (before.length + 1) rest = .ok r' ∧ Holds (before ++ rest) r') ∨
    ∃ n fault, before.length ≤ n ∧ ¬ FitsAt IsShort (before ++ rest) n ∧
      (∀ k, before.length ≤ k → k < n → FitsAt IsShort (before ++ rest) k) ∧
      r.run (before.length + 1) rest = .error (.malformed (n + 1) fault) := by
  induction rest generalizing before r with
  | nil =>
    refine .inl ⟨fun n hn line hline => ?_, r, rfl, by rwa [List.append_nil]⟩
    rw [List.append_nil, List.getElem?_eq_none hn] at hline
    exact absurd hline (by simp)
  | cons line rest ih =>
    have hfits : FitsAt IsShort (before ++ line :: rest) before.length ↔ Legible IsShort before line := by
      simp [FitsAt]
    rw [← exists_step_iff h.isSome_iff] at hfits
    rw [Reader.run]
    cases hstep : r.step (words line.toList) with
    | error fault =>
      refine .inr ⟨before.length, fault, Nat.le_refl _, ?_, by omega, rfl⟩
      rw [hfits, hstep]
      simp
    | ok r₁ =>
      have hfits : FitsAt IsShort (before ++ line :: rest) before.length := hfits.mpr ⟨r₁, hstep⟩
      have hassoc : before ++ line :: rest = before ++ [line] ++ rest := by simp
      have hlength : (before ++ [line]).length = before.length + 1 := by simp
      have hrest := ih (h.takes (step_eq_ok.mp hstep))
      rw [← hassoc, hlength] at hrest
      rcases hrest with ⟨hall, hread⟩ | ⟨n, fault, hn, hnot, hall, herror⟩
      · refine .inl ⟨fun n hn => ?_, hread⟩
        rcases Nat.eq_or_lt_of_le hn with rfl | hn
        · exact hfits
        · exact hall n hn
      · refine .inr ⟨n, fault, by omega, hnot, fun k hk hlt => ?_, herror⟩
        rcases Nat.eq_or_lt_of_le hk with rfl | hk
        · exact hfits
        · exact hall k hk hlt

/-- A document fits and is read, or the first line that does not fit is at fault. -/
theorem parse_cases (text : String) :
    ((∀ n, FitsAt IsShort (lines text) n) ∧
      ∃ r : Reader, parse text = .ok ⟨r.areas⟩ ∧ r.Holds (lines text)) ∨
    ∃ n fault, parse text = .error (.malformed (n + 1) fault) ∧ ¬ FitsAt IsShort (lines text) n ∧
      ∀ k < n, FitsAt IsShort (lines text) k := by
  have hrun := Reader.holds_start.run (lines text)
  rw [List.nil_append, List.length_nil] at hrun
  rw [parse_eq]
  rcases hrun with ⟨hall, r, hread, hholds⟩ | ⟨n, fault, -, hnot, hbefore, herror⟩
  · rw [hread]
    exact .inl ⟨fun n => hall n (Nat.zero_le n), r, rfl, hholds⟩
  · rw [herror]
    exact .inr ⟨n, fault, rfl, hnot, fun k hk => hbefore k (Nat.zero_le k) hk⟩

/-- **Success.** A document is an area map iff every line fits what stands before it. -/
theorem exists_parse_iff {text : String} :
    (∃ m, parse text = .ok m) ↔ ∀ n, FitsAt IsShort (lines text) n := by
  rcases parse_cases text with ⟨hall, r, hparse, -⟩ | ⟨n, fault, hparse, hnot, -⟩
  · exact iff_of_true ⟨_, hparse⟩ hall
  · exact iff_of_false (by simp [hparse]) fun h => hnot (h n)

/-! ### The result -/

/-- **Area maps.** A document is an area map iff every line fits what stands before it; else the
    first line that does not is the one at fault. A map has the areas of the sections, in order. -/
theorem parse_reads_sections (text : String) :
    ((∃ m, parse text = .ok m) ↔ ∀ n, FitsAt IsShort (lines text) n) ∧
    (∀ e, parse text = .error e → ∃ n fault, e = .malformed (n + 1) fault ∧
      ¬ FitsAt IsShort (lines text) n ∧ ∀ k < n, FitsAt IsShort (lines text) k) ∧
    ∀ m, parse text = .ok m →
      List.Forall₂ (fun s a => Area.Account s.1 s.2 a) (sections (lines text)) m.areas := by
  refine ⟨exists_parse_iff, ?_, ?_⟩
  · intro e he
    rcases parse_cases text with ⟨-, r, hparse, -⟩ | ⟨n, fault, hparse, hnot, hbefore⟩
    · exact absurd (hparse.symm.trans he) (by simp)
    · exact ⟨n, fault, Except.error.inj (he.symm.trans hparse), hnot, hbefore⟩
  · intro m hm
    rcases parse_cases text with ⟨-, r, hparse, hholds⟩ | ⟨n, fault, hparse, -⟩
    · obtain rfl := Except.ok.inj (hparse.symm.trans hm)
      exact hholds.areas.imp fun s a ha => ha.account
    · exact absurd (hparse.symm.trans hm) (by simp)

/-- Two areas with the same numbers, a triangle with a repeated corner, and a type that was set before
    the second header; a document where a type is at fault before a triangle is; and one where a
    level has more than 32 bits. -/
theorem parse_reads_sections_twice :
    (∃ m, parse "AREA 6 1\nTRI 0;0;0 1;0;0 0;0;0 7 9\nCOLLISIONTYPE 3\nTRI 1;0;0 0;0;0 0;2;0\nAREA +6 01"
        = .ok m ∧ List.Forall₂ (fun s a => Area.Account s.1 s.2 a)
          [("AREA 6 1", ["TRI 0;0;0 1;0;0 0;0;0 7 9", "COLLISIONTYPE 3", "TRI 1;0;0 0;0;0 0;2;0"]),
            ("AREA +6 01", [])] m.areas) ∧
    (∃ e, parse "AREA 6 1\nCOLLISIONTYPE 256\nTRI 0.5;0;0 0;0;0 0;0;0" = .error e ∧
      ∃ n fault, e = .malformed (n + 1) fault) ∧
    ¬ ∀ n, FitsAt IsShort (lines "AREA 4294967295 1\nAREA 4294967296 1") n := by
  refine ⟨?_, ?_, ?_⟩
  · have hparse : parse
        "AREA 6 1\nTRI 0;0;0 1;0;0 0;0;0 7 9\nCOLLISIONTYPE 3\nTRI 1;0;0 0;0;0 0;2;0\nAREA +6 01"
        = .ok ⟨[⟨6, 1, #[⟨0, 0, 0⟩, ⟨1, 0, 0⟩, ⟨0, 2, 0⟩],
          #[⟨0, ⟨0, 1, 0⟩, some (7, 9)⟩, ⟨3, ⟨1, 0, 2⟩, none⟩]⟩, Area.empty 6 1]⟩ := by
      rw [parse_eq]
      decide +kernel
    exact ⟨_, hparse, (parse_reads_sections _).2.2 _ hparse⟩
  · have hparse : parse "AREA 6 1\nCOLLISIONTYPE 256\nTRI 0.5;0;0 0;0;0 0;0;0"
        = .error (.malformed 2 (.header "COLLISIONTYPE 256")) := by
      rw [parse_eq]
      decide +kernel
    obtain ⟨n, fault, he, -⟩ := (parse_reads_sections _).2.1 _ hparse
    exact ⟨_, hparse, n, fault, he⟩
  · have hparse : parse "AREA 4294967295 1\nAREA 4294967296 1"
        = .error (.malformed 2 (.header "AREA 4294967296 1")) := by
      rw [parse_eq]
      decide +kernel
    rw [← (parse_reads_sections _).1, hparse]
    simp

end AreaMap

end CollisionMesh
