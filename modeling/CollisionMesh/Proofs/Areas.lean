import CollisionMesh.Proofs.Again
import CollisionMesh.Proofs.AreaIndex
import CollisionMesh.Proofs.Provenance
import CollisionMesh.Proofs.ReadBack

namespace CollisionMesh

open Number Record Text

/-!
# Area maps of rewritten documents

The lines of a document are read twice, by two readers that part them differently: a run ends at
every line that is no triangle, an area only at the header of the next one. What is written in a
gap has the type and the area of the lines that were there, and its corners are theirs. So a
document that is an area map is one after it was rewritten, area by area.

* `Reader.read` — lines read one after the other; `parse_eq_ok` — a map by its lines without the
  blanks around;
* `hasTag`, `Reader.Takes` — a line by its first word, and what the reader makes of it;
* `Area.Gains`, `gains_of_read` — what triangle lines add to the open area;
* `Area.Shrinks`, `Reader.Follows` — an area with fewer triangles between the same vertices, and
  a reader that found such areas;
* `onGrid_of_mem_blocks` — what is written in a gap lies where its lines lay;
* `Reader.Follows.rewritten` — a rewritten document is read to smaller areas;
* `parse_render_of_process` — so are the lines of a document that was processed.
-/

namespace AreaMap

/-! ### Reading line by line -/

namespace Reader

/-- The reader after some lines, unless one of them is at fault. -/
def read (r : Reader) (lines : List String) : Except LineFault Reader :=
  lines.foldlM (fun r line => r.step (words line.toList)) r

theorem read_cons_eq_ok {r r' : Reader} {line : String} {rest : List String} :
    r.read (line :: rest) = .ok r' ↔
      ∃ r₁, r.step (words line.toList) = .ok r₁ ∧ r₁.read rest = .ok r' := by
  rw [read, List.foldlM_cons, bind_eq_ok]
  rfl

theorem read_append_eq_ok {r r' : Reader} {before after : List String} :
    r.read (before ++ after) = .ok r' ↔ ∃ r₁, r.read before = .ok r₁ ∧ r₁.read after = .ok r' := by
  rw [read, List.foldlM_append, bind_eq_ok]
  rfl

/-- Numbered or not, lines are read alike. -/
theorem run_eq_ok {r r' : Reader} {number : Nat} {lines : List String} :
    r.run number lines = .ok r' ↔ r.read lines = .ok r' := by
  induction lines generalizing r number with
  | nil => simp [run, read, pure, Except.pure]
  | cons line rest ih =>
    rw [run, read_cons_eq_ok]
    cases r.step (words line.toList) with
    | error fault => simp
    | ok r₁ => simp [ih]

/-- The blanks around lines do not matter. -/
theorem read_map_trim (r : Reader) (lines : List String) :
    r.read (lines.map trim) = r.read lines := by
  simp [read, List.foldlM_map]

end Reader

/-- The map of a document by its lines without the blanks around. -/
theorem parse_eq_ok {text : String} {m : AreaMap} :
    parse text = .ok m ↔ ∃ r, Reader.start.read ((lines text).map trim) = .ok r ∧ m.areas = r.areas := by
  rw [Reader.read_map_trim, parse_eq]
  cases hrun : Reader.start.run 1 (lines text) with
  | error e =>
    constructor
    · intro h
      exact absurd h (by simp [Except.map])
    · rintro ⟨r, hr, -⟩
      exact absurd (hrun.symm.trans (Reader.run_eq_ok.mpr hr)) (by simp)
  | ok r =>
    have hread := Reader.run_eq_ok.mp hrun
    obtain ⟨areas⟩ := m
    simp [Except.map, hread, eq_comm]

end AreaMap

/-! ### Triangles of an area -/

/-- A line is a record with all corners on the grid. -/
def OnGrid (line : String) : Prop :=
  ∃ r, Record.ofLine line = .ok r ∧ ∀ p ∈ r.corners.toList, ∃ v, gridPoint p = .ok v

/-- A line is a record with a corner at a place on the grid. -/
def HasCorner (line : String) (v : GridPoint) : Prop :=
  ∃ r, Record.ofLine line = .ok r ∧ ∃ p ∈ r.corners.toList, gridPoint p = .ok v

namespace Area

@[simp] theorem level_vertex (a : Area) (p : GridPoint) : (a.vertex p).2.level = a.level := by
  unfold vertex
  split <;> rfl

@[simp] theorem number_vertex (a : Area) (p : GridPoint) : (a.vertex p).2.number = a.number := by
  unfold vertex
  split <;> rfl

@[simp] theorem triangles_vertex (a : Area) (p : GridPoint) :
    (a.vertex p).2.triangles = a.triangles := by
  unfold vertex
  split <;> rfl

/-- A vertex that is looked up is one of the area from then on. -/
@[simp] theorem mem_vertices_vertex {a : Area} {p v : GridPoint} :
    v ∈ (a.vertex p).2.vertices ↔ v ∈ a.vertices ∨ v = p := by
  unfold vertex
  split
  · next i hi =>
    have hp : p ∈ a.vertices := by
      by_contra hnot
      exact absurd (hi.symm.trans (Array.idxOf?_eq_none_iff.mpr hnot)) (by simp)
    constructor
    · exact .inl
    · rintro (hv | rfl)
      · exact hv
      · exact hp
  · exact Array.mem_push

/-- The corners of a triangle more are vertices of the area. -/
theorem mem_vertices_add {a : Area} {type : UInt8} {corners : Triple GridPoint}
    {params : Option (UInt8 × UInt8)} {v : GridPoint} :
    v ∈ (a.add type corners params).vertices ↔ v ∈ a.vertices ∨ v ∈ corners.toList := by
  simp [add, Triple.toList, or_assoc]

/-- A triangle more is one more of its type. -/
theorem countOf_add (a : Area) (type : UInt8) (corners : Triple GridPoint)
    (params : Option (UInt8 × UInt8)) (t : UInt8) :
    (a.add type corners params).countOf t = a.countOf t + if t = type then 1 else 0 := by
  by_cases ht : t = type
  · simp [add, countOf, List.countP_append, ht]
  · simp [add, countOf, List.countP_append, ht, Ne.symm ht]

/-- An area with some triangle lines of a type more. -/
structure Gains (type : UInt8) (lines : List String) (before after : Area) : Prop where
  level : after.level = before.level
  number : after.number = before.number
  count : ∀ t, after.countOf t = before.countOf t + if t = type then lines.length else 0
  vertices : ∀ v, v ∈ after.vertices ↔ v ∈ before.vertices ∨ ∃ line ∈ lines, HasCorner line v

/-- Nothing more. -/
theorem Gains.nil (type : UInt8) (a : Area) : Gains type [] a a :=
  ⟨rfl, rfl, fun t => by simp, fun v => by simp⟩

/-- A line more, and then others. -/
theorem Gains.cons {type : UInt8} {line : String} {rest : List String} {a₁ a₂ a₃ : Area}
    (h : Gains type [line] a₁ a₂) (h' : Gains type rest a₂ a₃) : Gains type (line :: rest) a₁ a₃ := by
  refine ⟨h'.level.trans h.level, h'.number.trans h.number, ?_, ?_⟩
  · intro t
    rw [h'.count, h.count]
    split
    · rw [List.length_singleton, List.length_cons]
      omega
    · rfl
  · intro v
    rw [h'.vertices, h.vertices]
    simp [or_assoc]

end Area

namespace AreaMap

/-- When a line can be added to an area, and what the area is then. -/
theorem addLine_eq_ok {line : String} {a a' : Area} {type : UInt8} :
    addLine a type (words line.toList) = .ok a' ↔
      ∃ r corners, Record.ofLine line = .ok r ∧ gridPoint r.corners.a = .ok corners.a ∧
        gridPoint r.corners.b = .ok corners.b ∧ gridPoint r.corners.c = .ok corners.c ∧
        a' = a.add type corners (r.key.map Key.bytes) := by
  simp only [addLine, Record.ofLine, bind_eq_ok]
  constructor
  · rintro ⟨r, hr, u, hu, v, hv, w, hw, h⟩
    exact ⟨r, ⟨u, v, w⟩, hr, hu, hv, hw, (Except.ok.inj h).symm⟩
  · rintro ⟨r, corners, hr, hu, hv, hw, rfl⟩
    exact ⟨r, hr, corners.a, hu, corners.b, hv, corners.c, hw, rfl⟩

/-- A line with all corners on the grid can be added to an area. -/
theorem exists_addLine_of_onGrid {line : String} (h : OnGrid line) (a : Area) (type : UInt8) :
    ∃ a', addLine a type (words line.toList) = .ok a' := by
  obtain ⟨r, hr, hgrid⟩ := h
  obtain ⟨u, hu⟩ := hgrid r.corners.a (by simp [Triple.toList])
  obtain ⟨v, hv⟩ := hgrid r.corners.b (by simp [Triple.toList])
  obtain ⟨w, hw⟩ := hgrid r.corners.c (by simp [Triple.toList])
  exact ⟨_, addLine_eq_ok.mpr ⟨r, ⟨u, v, w⟩, hr, hu, hv, hw, rfl⟩⟩

/-- A line that can be added to an area has all corners on the grid. -/
theorem onGrid_of_addLine {line : String} {a a' : Area} {type : UInt8}
    (h : addLine a type (words line.toList) = .ok a') : OnGrid line := by
  obtain ⟨r, corners, hr, hu, hv, hw, -⟩ := addLine_eq_ok.mp h
  exact ⟨r, hr, by simp [Triple.toList, hu, hv, hw]⟩

/-- What a triangle line adds to an area, if it can be added. -/
theorem gains_of_addLine {line : String} {a a' : Area} {type : UInt8}
    (h : addLine a type (words line.toList) = .ok a') : Area.Gains type [line] a a' := by
  obtain ⟨r, corners, hr, hu, hv, hw, rfl⟩ := addLine_eq_ok.mp h
  refine ⟨by simp [Area.add], by simp [Area.add], fun t => Area.countOf_add a type _ _ t, ?_⟩
  intro x
  have hcorner : HasCorner line x ↔ ∃ p ∈ r.corners.toList, gridPoint p = .ok x := by
    constructor
    · rintro ⟨r', hr', hx⟩
      rwa [Except.ok.inj (hr'.symm.trans hr)] at hx
    · exact fun hx => ⟨r, hr, hx⟩
  rw [Area.mem_vertices_add]
  simp [hcorner, Triple.toList, hu, hv, hw, eq_comm]

/-! ### What a line does -/

/-- A line by its first word. -/
def hasTag (tag : String) (line : String) : Bool :=
  (words line.toList).head? = some tag.toList

theorem hasTag_eq_true_iff {tag line : String} :
    hasTag tag line = true ↔ ∃ rest, words line.toList = tag.toList :: rest := by
  rw [hasTag, decide_eq_true_eq, List.head?_eq_some_iff]

@[simp] theorem hasTag_trim (tag line : String) : hasTag tag (trim line) = hasTag tag line := by
  rw [hasTag, words_trim, hasTag]

/-- A line has one tag. -/
theorem hasTag_unique {tag tag' line : String} (h : hasTag tag line = true)
    (h' : hasTag tag' line = true) : tag = tag' := by
  rw [hasTag, decide_eq_true_eq] at h h'
  exact String.toList_injective (Option.some.inj (h.symm.trans h'))

theorem hasTag_of_ne {tag tag' line : String} (h : hasTag tag line = true) (hne : tag ≠ tag') :
    hasTag tag' line = false :=
  Bool.eq_false_iff.mpr fun h' => hne (hasTag_unique h h')

theorem isTriangle_eq_hasTag (line : String) : isTriangle line = hasTag triangleTag line := by
  rw [isTriangle, hasTag, decide_eq_decide, LineKind.of]
  cases words line.toList with
  | nil => simp [LineKind.ofWords]
  | cons tag rest =>
    rw [LineKind.ofWords, List.head?_cons, Option.some.injEq]
    split
    · next h => simp [h]
    · next h => split <;> simp [h]

/-- The level and the number of the area that a header opens, and the type that a line sets, each
    by its place on the line. -/
def levelOf? (line : String) : Option UInt32 :=
  (words line.toList)[1]? >>= word?

@[inherit_doc levelOf?]
def numberOf? (line : String) : Option UInt32 :=
  (words line.toList)[2]? >>= word?

@[inherit_doc levelOf?]
def typeOf? (line : String) : Option UInt8 :=
  (words line.toList)[1]? >>= byte?

theorem headerNumber_eq_ok {β : Type} {ws : List (List Char)} {place : Nat}
    {read? : List Char → Option β} {n : β} :
    headerNumber ws place read? = .ok n ↔ (ws[place]? >>= read?) = some n := by
  unfold headerNumber
  split
  · next m hm => simp [hm]
  · next hm => simp [hm]

namespace Reader

/-- What a line that is not at fault does to a reader. -/
inductive Takes (line : String) (r : Reader) : Reader → Prop where
  /-- A header closes the open area and opens an empty one, whose triangles have no type yet. -/
  | header {level number : UInt32} (htag : hasTag areaTag line = true)
      (hlevel : levelOf? line = some level) (hnumber : numberOf? line = some number) :
      Takes line r ⟨r.areas.toArray, some (Area.empty level number), 0⟩
  /-- The type of the triangles to come. -/
  | type {type : UInt8} (htag : hasTag collisionTypeTag line = true)
      (htype : typeOf? line = some type) : Takes line r { r with collisionType := type }
  /-- A triangle of the open area. -/
  | triangle {a a' : Area} (htag : hasTag triangleTag line = true) (ha : r.current = some a)
      (hadd : addLine a r.collisionType (words line.toList) = .ok a') :
      Takes line r { r with current := some a' }
  /-- Other lines say nothing. -/
  | other (harea : hasTag areaTag line = false) (htype : hasTag collisionTypeTag line = false)
      (htriangle : hasTag triangleTag line = false) : Takes line r r

/-- What is read is read in one of four ways. -/
private theorem takes_of_step {r r' : Reader} {line : String}
    (h : r.step (words line.toList) = .ok r') : Takes line r r' := by
  cases hwords : words line.toList with
  | nil =>
    rw [hwords] at h
    obtain rfl : r = r' := Except.ok.inj h
    exact .other (by simp [hasTag, hwords]) (by simp [hasTag, hwords]) (by simp [hasTag, hwords])
  | cons tag rest =>
    have htag : ∀ t : String, hasTag t line = true ↔ tag = t.toList := by simp [hasTag, hwords]
    simp only [hwords, step] at h
    split at h
    · next harea =>
      obtain ⟨level, hlevel, number, hnumber, h⟩ : ∃ level, _ ∧ ∃ number, _ ∧ _ := by
        simpa only [bind_eq_ok, headerNumber_eq_ok, ← hwords] using h
      obtain rfl := Except.ok.inj h
      exact .header ((htag _).mpr harea) hlevel hnumber
    split at h
    · next htype =>
      obtain ⟨type, hread, h⟩ : ∃ type, _ ∧ _ := by
        simpa only [bind_eq_ok, headerNumber_eq_ok, ← hwords] using h
      obtain rfl := Except.ok.inj h
      exact .type ((htag _).mpr htype) hread
    split at h
    · next htriangle =>
      split at h
      · exact absurd h (by simp [throw, throwThe, MonadExceptOf.throw])
      · next a ha =>
        obtain ⟨a', hadd, h⟩ := bind_eq_ok.mp h
        obtain rfl := Except.ok.inj h
        exact .triangle ((htag _).mpr htriangle) ha (hwords ▸ hadd)
    · next harea htype htriangle =>
      obtain rfl : r = r' := Except.ok.inj h
      simp only [← htag, Bool.not_eq_true] at harea htype htriangle
      exact .other harea htype htriangle

/-- In each of these ways a line is read. -/
private theorem step_of_takes {r r' : Reader} {line : String} (h : Takes line r r') :
    r.step (words line.toList) = .ok r' := by
  cases h with
  | header htag hlevel hnumber =>
    obtain ⟨rest, hwords⟩ := hasTag_eq_true_iff.mp htag
    have hlevel := headerNumber_eq_ok.mpr hlevel
    have hnumber := headerNumber_eq_ok.mpr hnumber
    rw [hwords] at hlevel hnumber ⊢
    simp [step, hlevel, hnumber, bind, Except.bind, pure, Except.pure]
  | type htag htype =>
    obtain ⟨rest, hwords⟩ := hasTag_eq_true_iff.mp htag
    have htype := headerNumber_eq_ok.mpr htype
    have hne : collisionTypeTag.toList ≠ areaTag.toList := by decide
    rw [hwords] at htype ⊢
    simp [step, hne, htype, bind, Except.bind, pure, Except.pure]
  | triangle htag ha hadd =>
    obtain ⟨rest, hwords⟩ := hasTag_eq_true_iff.mp htag
    have hne : triangleTag.toList ≠ areaTag.toList := by decide
    have hne' : triangleTag.toList ≠ collisionTypeTag.toList := by decide
    rw [hwords] at hadd ⊢
    simp [step, hne, hne', ha, hadd, bind, Except.bind, pure, Except.pure]
  | other harea htype htriangle =>
    cases hwords : words line.toList with
    | nil => rfl
    | cons tag rest =>
      simp [hasTag, hwords] at harea htype htriangle
      simp [step, harea, htype, htriangle, pure, Except.pure]

/-- **Steps.** A line is read in one of four ways. -/
theorem step_eq_ok {r r' : Reader} {line : String} :
    r.step (words line.toList) = .ok r' ↔ Takes line r r' :=
  ⟨takes_of_step, step_of_takes⟩

/-! ### Triangle lines in a row -/

/-- A triangle line is read into the open area. -/
theorem step_triangle_eq_ok {r r' : Reader} {line : String} (hline : isTriangle line = true) :
    r.step (words line.toList) = .ok r' ↔
      ∃ a a', r.current = some a ∧ addLine a r.collisionType (words line.toList) = .ok a' ∧
        r' = { r with current := some a' } := by
  rw [isTriangle_eq_hasTag] at hline
  rw [step_eq_ok]
  constructor
  · intro h
    cases h with
    | header htag => exact absurd (hasTag_unique hline htag) (by decide)
    | type htag => exact absurd (hasTag_unique hline htag) (by decide)
    | triangle htag ha hadd => exact ⟨_, _, ha, hadd, rfl⟩
    | other _ _ htriangle => simp [hline] at htriangle
  · rintro ⟨a, a', ha, hadd, rfl⟩
    exact .triangle hline ha hadd

/-- Triangle lines that are read are added to the open area. -/
theorem gains_of_read {r r' : Reader} {stretch : List String}
    (h : ∀ line ∈ stretch, isTriangle line = true) {a : Area} (ha : r.current = some a)
    (hread : r.read stretch = .ok r') :
    (∀ line ∈ stretch, OnGrid line) ∧
      ∃ a', r' = { r with current := some a' } ∧ Area.Gains r.collisionType stretch a a' := by
  induction stretch generalizing r a with
  | nil =>
    obtain rfl : r = r' := Except.ok.inj hread
    exact ⟨by simp, a, by rw [← ha], .nil _ a⟩
  | cons line rest ih =>
    obtain ⟨r₁, hstep, hrest⟩ := read_cons_eq_ok.mp hread
    obtain ⟨a₀, a₁, ha₀, hadd, rfl⟩ := (step_triangle_eq_ok (h line List.mem_cons_self)).mp hstep
    obtain rfl : a₀ = a := Option.some.inj (ha₀.symm.trans ha)
    obtain ⟨hgrid, a', rfl, hgains⟩ := ih (fun l hl => h l (List.mem_cons_of_mem line hl)) rfl hrest
    exact ⟨List.forall_mem_cons.mpr ⟨onGrid_of_addLine hadd, hgrid⟩, a', rfl,
      (gains_of_addLine hadd).cons hgains⟩

/-- Triangle lines with all corners on the grid can be read where an area is open. -/
theorem exists_read_of_onGrid {r : Reader} {stretch : List String}
    (h : ∀ line ∈ stretch, isTriangle line = true) (hgrid : ∀ line ∈ stretch, OnGrid line)
    {a : Area} (ha : r.current = some a) : ∃ r', r.read stretch = .ok r' := by
  induction stretch generalizing r a with
  | nil => exact ⟨r, rfl⟩
  | cons line rest ih =>
    obtain ⟨a₁, hadd⟩ := exists_addLine_of_onGrid (hgrid line List.mem_cons_self) a r.collisionType
    have hstep := (step_triangle_eq_ok (h line List.mem_cons_self)).mpr ⟨a, a₁, ha, hadd, rfl⟩
    obtain ⟨r', hr'⟩ := ih (r := { r with current := some a₁ })
      (fun l hl => h l (List.mem_cons_of_mem line hl))
      (fun l hl => hgrid l (List.mem_cons_of_mem line hl)) rfl
    exact ⟨r', read_cons_eq_ok.mpr ⟨_, hstep, hr'⟩⟩

/-- Where no area is open there is no triangle line. -/
theorem eq_nil_of_read {r r' : Reader} {stretch : List String}
    (h : ∀ line ∈ stretch, isTriangle line = true) (hnone : r.current = none)
    (hread : r.read stretch = .ok r') : stretch = [] := by
  cases stretch with
  | nil => rfl
  | cons line rest =>
    obtain ⟨r₁, hr₁, -⟩ := read_cons_eq_ok.mp hread
    obtain ⟨a, -, ha, -⟩ := (step_triangle_eq_ok (h line List.mem_cons_self)).mp hr₁
    exact absurd (hnone.symm.trans ha) (by simp)

end Reader

end AreaMap

/-! ### What is written in a gap -/

section

variable [Clipper Float]

/-- The lines that are written in a gap: lines that were there, or lines of records that stem
    from them. -/
theorem stemsFrom_of_mem_blocks {s : Settings} {stretch : List String} {line : String}
    (h : line ∈ blocks s stretch) :
    line ∈ stretch ∨ ∃ r k, Record.StemsFrom stretch k r ∧ r.line = line := by
  obtain ⟨g, hg, hline⟩ := List.mem_flatMap.mp h
  unfold Group.block at hline
  split at hline
  · next rs hrs =>
    obtain ⟨r, hr, rfl⟩ := List.mem_map.mp hline
    exact .inr ⟨r, g.key, Group.stemsFrom_of_simplified hg hrs hr, rfl⟩
  · split at hline
    · obtain ⟨m, hm, rfl⟩ := Group.mem_sources_iff.mp hline
      exact .inl ((Run.mem_members_ofStretch hg).2 m hm).1
    · exact absurd hline List.not_mem_nil

/-- **Places.** Where all corners of a gap are on the grid, so are those that are written, and
    they lie where corners of the gap lay. -/
theorem onGrid_of_mem_blocks {s : Settings} {stretch : List String}
    (h : ∀ line ∈ stretch, OnGrid line) {line : String} (hline : line ∈ blocks s stretch) :
    OnGrid line ∧ ∀ v, HasCorner line v → ∃ source ∈ stretch, HasCorner source v := by
  rcases stemsFrom_of_mem_blocks hline with hmem | ⟨r, k, hstems, rfl⟩
  · exact ⟨h line hmem, fun v hv => ⟨line, hmem, hv⟩⟩
  obtain ⟨r', hr', -, ha, hb, hc⟩ := r.ofLine_line
  -- A corner is written as one of the gap, and so it is read where that one lay.
  have hcorner : ∀ p q, p ∈ r.corners.toList → vertexOfWord (vertexWord p) = .ok q →
      ∃ source ∈ stretch, ∃ v, HasCorner source v ∧ gridPoint q = .ok v := by
    intro p q hp hq
    obtain ⟨source, hsource, m, hm, -, p₀, hp₀, hword⟩ := hstems.corners p hp
    obtain ⟨r₀, hr₀, hgrid⟩ := h source hsource
    have hcorners : m.record.corners = r₀.corners := by
      rw [Member.ofLine?, hr₀] at hm
      obtain rfl := Option.some.inj hm
      dsimp only
      split <;> rfl
    rw [hcorners] at hp₀
    obtain ⟨v, hv⟩ := hgrid p₀ hp₀
    exact ⟨source, hsource, v, ⟨r₀, hr₀, p₀, hp₀, hv⟩, gridPoint_readBack hv (hword ▸ hq)⟩
  have hread : ∀ q ∈ r'.corners.toList,
      ∃ source ∈ stretch, ∃ v, HasCorner source v ∧ gridPoint q = .ok v := by
    intro q hq
    simp only [Triple.toList, List.mem_cons, List.not_mem_nil, or_false] at hq
    rcases hq with rfl | rfl | rfl
    · exact hcorner _ _ (by simp [Triple.toList]) ha
    · exact hcorner _ _ (by simp [Triple.toList]) hb
    · exact hcorner _ _ (by simp [Triple.toList]) hc
  constructor
  · refine ⟨r', hr', fun q hq => ?_⟩
    obtain ⟨-, -, v, -, hv⟩ := hread q hq
    exact ⟨v, hv⟩
  · rintro v ⟨r'', hr'', q, hq, hv⟩
    obtain rfl := Except.ok.inj (hr'.symm.trans hr'')
    obtain ⟨source, hsource, v', hcorner', hv'⟩ := hread q hq
    obtain rfl := Except.ok.inj (hv'.symm.trans hv)
    exact ⟨source, hsource, hcorner'⟩

end

/-! ### Smaller areas -/

/-- The same area of the same level, with no more triangles of any type, and no vertices that
    were not there. -/
structure Area.Shrinks (before after : Area) : Prop where
  level : after.level = before.level
  number : after.number = before.number
  count : ∀ type, after.countOf type ≤ before.countOf type
  vertices : ∀ v ∈ after.vertices, v ∈ before.vertices

theorem Area.Shrinks.refl (a : Area) : a.Shrinks a :=
  ⟨rfl, rfl, fun _ => Nat.le_refl _, fun _ hv => hv⟩

/-- A smaller area stays smaller if it gains fewer triangles of the same type, with corners
    where the other one has some. -/
theorem Area.Shrinks.gains {a a' b b' : Area} (h : a.Shrinks b) {type : UInt8}
    {lines lines' : List String} (ha : Gains type lines a a') (hb : Gains type lines' b b')
    (hlength : lines'.length ≤ lines.length)
    (hcorners : ∀ line ∈ lines', ∀ v, HasCorner line v → ∃ source ∈ lines, HasCorner source v) :
    a'.Shrinks b' := by
  refine ⟨?_, ?_, ?_, ?_⟩
  · rw [hb.level, h.level, ha.level]
  · rw [hb.number, h.number, ha.number]
  · intro t
    rw [hb.count, ha.count]
    refine Nat.add_le_add (h.count t) ?_
    split
    · exact hlength
    · exact Nat.le_refl 0
  · intro v hv
    rw [ha.vertices]
    rcases (hb.vertices v).mp hv with hv | ⟨line, hline, hv⟩
    · exact .inl (h.vertices v hv)
    · exact .inr (hcorners line hline v hv)

namespace AreaMap.Reader

/-- A reader that found the same areas, but smaller. -/
structure Follows (r r' : Reader) : Prop where
  closed : List.Forall₂ Area.Shrinks r.closed.toList r'.closed.toList
  current : Option.Rel Area.Shrinks r.current r'.current
  collisionType : r'.collisionType = r.collisionType

namespace Follows

theorem refl (r : Reader) : r.Follows r := by
  refine ⟨List.forall₂_same.mpr fun a _ => .refl a, ?_, rfl⟩
  cases r.current with
  | none => exact .none
  | some a => exact .some (.refl a)

variable {r r' : Reader}

/-- The open area is one of those that were found. -/
theorem areas (h : r.Follows r') : List.Forall₂ Area.Shrinks r.areas r'.areas := by
  have hopen : ∀ {a b : Option Area}, Option.Rel Area.Shrinks a b →
      List.Forall₂ Area.Shrinks a.toList b.toList := by
    rintro _ _ (hab | _)
    · exact .cons hab .nil
    · exact .nil
  exact List.rel_append h.closed (hopen h.current)

/-- **Control lines.** A line that is no triangle is read alike by both readers. -/
theorem step_control (h : r.Follows r') {line : String} (hline : isTriangle line = false)
    {r₁ : Reader} (hstep : r.step (words line.toList) = .ok r₁) :
    ∃ r₁', r'.step (words line.toList) = .ok r₁' ∧ r₁.Follows r₁' := by
  rw [isTriangle_eq_hasTag] at hline
  simp only [step_eq_ok] at hstep ⊢
  cases hstep with
  | header htag hlevel hnumber =>
    exact ⟨_, .header htag hlevel hnumber, h.areas, .some (.refl _), rfl⟩
  | type htag htype => exact ⟨_, .type htag htype, h.closed, h.current, rfl⟩
  | triangle htag => simp [hline] at htag
  | other harea htype htriangle => exact ⟨_, .other harea htype htriangle, h⟩

/-- **Gaps.** What is written in a gap is read to a smaller area. -/
theorem read_blocks [Clipper Float] (h : r.Follows r') (s : Settings) {stretch : List String}
    (hstretch : ∀ line ∈ stretch, isTriangle line = true) {r₁ : Reader}
    (hread : r.read stretch = .ok r₁) :
    ∃ r₁', r'.read (blocks s stretch) = .ok r₁' ∧ r₁.Follows r₁' := by
  obtain ⟨hclosed, hcurrent, htype⟩ := h
  cases ha : r.current with
  | none =>
    obtain rfl := eq_nil_of_read hstretch ha hread
    obtain rfl : r = r₁ := Except.ok.inj hread
    exact ⟨r', rfl, hclosed, hcurrent, htype⟩
  | some a =>
    rw [ha] at hcurrent
    obtain ⟨b, hb, hab⟩ : ∃ b, r'.current = some b ∧ a.Shrinks b := by
      cases hb : r'.current with
      | none =>
        rw [hb] at hcurrent
        exact nomatch hcurrent
      | some b =>
        rw [hb] at hcurrent
        cases hcurrent with
        | some hab => exact ⟨b, rfl, hab⟩
    obtain ⟨hgrid, a', rfl, hgains⟩ := gains_of_read hstretch ha hread
    -- The lines that are written can be read, and the open area of this reader gains them.
    have hlines : ∀ line ∈ blocks s stretch, isTriangle line = true :=
      isTriangle_of_mem_blocks hstretch
    obtain ⟨r₁', hr₁'⟩ := exists_read_of_onGrid hlines
      (fun line hline => (onGrid_of_mem_blocks hgrid hline).1) hb
    obtain ⟨-, b', rfl, hgains'⟩ := gains_of_read hlines hb hr₁'
    rw [htype] at hgains'
    exact ⟨_, hr₁', hclosed, .some (hab.gains hgains hgains' (length_blocks_le s stretch)
      fun line hline => (onGrid_of_mem_blocks hgrid hline).2), htype⟩

/-- **Documents.** A document that was rewritten is read to smaller areas. -/
theorem rewritten [Clipper Float] (h : r.Follows r') (s : Settings) {lines : List String}
    {r₁ : Reader} (hread : r.read lines = .ok r₁) :
    ∃ r₁', r'.read (rewritten s lines) = .ok r₁' ∧ r₁.Follows r₁' := by
  induction lines using gapInduction generalizing r r' with
  | last stretch hstretch =>
    rw [rewritten_of_forall s hstretch]
    exact h.read_blocks s hstretch hread
  | next stretch line rest hstretch hline ih =>
    obtain ⟨r₂, hgap, hlater⟩ := read_append_eq_ok.mp hread
    obtain ⟨r₃, hstep, hrest⟩ := read_cons_eq_ok.mp hlater
    obtain ⟨r₂', hgap', h₂⟩ := h.read_blocks s hstretch hgap
    obtain ⟨r₃', hstep', h₃⟩ := h₂.step_control hline hstep
    obtain ⟨r₁', hrest', h₁⟩ := ih h₃ hrest
    refine ⟨r₁', ?_, h₁⟩
    rw [rewritten_append_cons s hstretch hline]
    exact read_append_eq_ok.mpr ⟨r₂', hgap', read_cons_eq_ok.mpr ⟨r₃', hstep', hrest'⟩⟩

end Follows

end AreaMap.Reader

/-! ### The result -/

section

variable [Clipper Float]

/-- **Area maps.** In any scene that requests lead to, a document that is an area map and is
    rewritten is an area map again: the same areas of the same levels in the same order, each
    with no more triangles of any type than before, between vertices that it had before. -/
theorem parse_render_of_process {scene : Scene Float} (h : scene.Reached) {s : Settings}
    {text : String} {m : AreaMap} (hmap : AreaMap.parse text = .ok m) {written : List String}
    {report : Report} (hok : (process s text scene).result = .ok (written, report)) :
    ∃ m', AreaMap.parse (render written) = .ok m' ∧
      List.Forall₂ Area.Shrinks m.areas m'.areas := by
  obtain ⟨r, hread, hareas⟩ := AreaMap.parse_eq_ok.mp hmap
  obtain ⟨r', hread', hfollows⟩ := (AreaMap.Reader.Follows.refl .start).rewritten s hread
  refine ⟨⟨r'.areas⟩, AreaMap.parse_eq_ok.mpr ⟨r', ?_, rfl⟩, hareas ▸ hfollows.areas⟩
  rw [trim_lines_render_of_process h hok, process_lines h hok]
  exact hread'

end

/-- A level with two areas: a large triangle, where no angle is straight, after a point of another
    type; and nothing but a header. -/
theorem parse_render_of_process_large :
    ∃ written report, (process Settings.unstraightened
        "AREA 6 1\nTRI 7;7;7 7;7;7 7;7;7\n COLLISIONTYPE 3\n  TRI 0;0;0 10;0;0 0;10;0\nAREA 6 2"
        (Scene.new : Scene Float)).result = .ok (written, report) ∧
      ∃ m', AreaMap.parse (render written) = .ok m' ∧ List.Forall₂ Area.Shrinks
        [⟨6, 1, #[⟨7, 7, 7⟩, ⟨0, 0, 0⟩, ⟨10, 0, 0⟩, ⟨0, 10, 0⟩],
          #[⟨0, ⟨0, 0, 0⟩, none⟩, ⟨3, ⟨1, 2, 3⟩, none⟩]⟩, Area.empty 6 2] m'.areas := by
  obtain ⟨written, report, hok⟩ := exists_written_of_fault_eq_none Settings.unstraightened
    "AREA 6 1\nTRI 7;7;7 7;7;7 7;7;7\n COLLISIONTYPE 3\n  TRI 0;0;0 10;0;0 0;10;0\nAREA 6 2" .new
    (by decide +kernel)
  refine ⟨written, report, hok, parse_render_of_process .new (m := ⟨_⟩) ?_ hok⟩
  rw [AreaMap.parse_eq]
  decide +kernel

end CollisionMesh
