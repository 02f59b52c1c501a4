import CollisionMesh.Proofs.AreaReading

namespace CollisionMesh

open AreaMap Number Record Text

/-!
# Whether a rewritten document can be read

An area map has integers for coordinates, and records are written with integers. So a document
with fractions, but none beyond the ends of the grid, is an area map once it was rewritten, where
all its groups succeed. The lines of a group that fails are copied where the failure policy keeps
them, and then they keep their fractions.

* `InReach`, `isShort_settled` — a coordinate that is on the grid once it is rounded;
* `onGrid_line_of_stemsFrom` — so are the records that a group becomes;
* `onGrid_block_iff`, `wellFormed_rewritten_iff` — what is written for a group and a document;
* `exists_parse_rewritten_iff` — when a rewritten document is an area map;
  `not_forall_exists_parse_rewritten` — not always.
-/

/-! ### Coordinates -/

/-- A coordinate between the ends of the grid, perhaps with a fraction. -/
def InReach (c : Float) : Prop :=
  -32768.0 ≤ c ∧ c ≤ 32767.0

instance : DecidablePred InReach := fun c =>
  inferInstanceAs (Decidable (-32768.0 ≤ c ∧ c ≤ 32767.0))

/-- **Coordinates.** What is left of a coordinate between the ends of the grid is on the grid. -/
theorem isShort_settled {c : Float} (h : InReach c) : IsShort (Number.settled c) := by
  have hleast : (-32768.0 : Float) = nearest .negative 32768 0 := by decide +kernel
  have hgreatest : (32767.0 : Float) = nearest .positive 32767 0 := by decide +kernel
  have hshort : Short 32768 ∧ Short 32767 := ⟨.inl (by decide), .inl (by decide)⟩
  have hfinite := isFinite_nearest .negative hshort.1
  have hfinite' := isFinite_nearest .positive hshort.2
  obtain ⟨hlow, hhigh⟩ := h
  rw [hleast] at hlow
  rw [hgreatest] at hhigh
  have hc := isFinite_of_le_of_le hfinite hfinite' hlow hhigh
  rw [le_iff_value_le hfinite hc, value_nearest _ hshort.1] at hlow
  rw [le_iff_value_le hc hfinite', value_nearest _ hshort.2] at hhigh
  -- Rounding does not leave the interval, which is part of the one that coordinates are kept in.
  obtain ⟨n, hn, hvalue⟩ := exists_nearestEven_settled hc
  have hlow : -32768 ≤ n := hn.ge_of_ge (k := -32768) hlow
  have hhigh : n ≤ 32767 := hn.le_of_le (k := 32767) hhigh
  have hlow' : -2 ^ 63 ≤ (n : ℚ) := (Int.cast_le.mpr hlow).trans' (by norm_num)
  have hhigh' : (n : ℚ) ≤ 2 ^ 63 := (Int.cast_le.mpr hhigh).trans (by norm_num)
  rw [min_eq_right hhigh', max_eq_right hlow'] at hvalue
  exact ⟨isFinite_settled c, n, hvalue, hlow, hhigh⟩

/-! ### Lines -/

/-- A triangle line is right by itself iff all its corners are on the grid. -/
theorem wellFormed_iff_onGrid {line : String} (h : isTriangle line = true) :
    WellFormed IsShort line ↔ OnGrid line := by
  rw [isTriangle_eq_hasTag] at h
  rw [onGrid_iff]
  constructor
  · exact fun hline => hline.triangle h
  · intro hline
    refine ⟨fun htag => ?_, fun htag => ?_, fun _ => hline⟩
    · exact absurd (hasTag_unique h htag) (by decide)
    · exact absurd (hasTag_unique h htag) (by decide)

/-- On any other line there are no coordinates. -/
theorem WellFormed.of_control {P Q : Float → Prop} {line : String} (h : WellFormed P line)
    (hline : isTriangle line = false) : WellFormed Q line := by
  rw [isTriangle_eq_hasTag] at hline
  exact ⟨h.header, h.type, fun htag => by simp [hline] at htag⟩

/-- **Records.** The line of a record that stems from lines with coordinates between the ends of
    the grid is on the grid. -/
theorem onGrid_line_of_stemsFrom {stretch : List String}
    (h : ∀ line ∈ stretch, ∃ r, Record.ofLine line = .ok r ∧ ∀ c ∈ r.coordinates, InReach c)
    {k : Key} {r : Record} (hstems : r.StemsFrom stretch k) : OnGrid r.line := by
  refine onGrid_iff.mpr ⟨r.settled, ofLine_line_settled r, ?_⟩
  intro c hc
  obtain ⟨p', hp', hc⟩ := List.mem_flatMap.mp hc
  obtain ⟨p, hp, rfl⟩ : ∃ p ∈ r.corners.toList, p.settled = p' := List.mem_map.mp hp'
  obtain ⟨source, hsource, m, hm, -, q, hq, hword⟩ := hstems.corners p hp
  obtain ⟨r₀, hr₀, hreach⟩ := h source hsource
  -- A corner is written as one of the lines, and so the same is left of both.
  have hsettled : p.settled = q.settled := by
    have hp := vertexOfWord_vertexWord p
    rw [hword, vertexOfWord_vertexWord] at hp
    exact (Except.ok.inj hp).symm
  have hcorners : m.record.corners = r₀.corners := by
    obtain ⟨r₁, hr₁, rfl⟩ := exists_ofLine_of_ofLine? hm
    obtain rfl := Except.ok.inj (hr₀.symm.trans hr₁)
    dsimp only
    split <;> rfl
  rw [hsettled] at hc
  obtain ⟨d, hd, rfl⟩ : ∃ d ∈ q.coordinates, Number.settled d = c := List.mem_map.mp hc
  exact isShort_settled (hreach d (List.mem_flatMap.mpr ⟨q, hcorners ▸ hq, hd⟩))

section

variable [Clipper Float]

/-! ### Groups -/

/-- **Groups.** What is written for a group is on the grid, unless the group fails and keeps lines
    that are not. -/
theorem onGrid_block_iff {s : Settings} {stretch : List String}
    (h : ∀ line ∈ stretch, ∃ r, Record.ofLine line = .ok r ∧ ∀ c ∈ r.coordinates, InReach c)
    {g : Group} (hg : g ∈ (Run.ofStretch stretch).groups) :
    (∀ line ∈ g.block s, OnGrid line) ↔
      (s.failurePolicy = .passThrough → (∃ e, g.simplified s.tolerances = .error e) →
        ∀ line ∈ g.sources, OnGrid line) := by
  unfold Group.block
  split
  · next rs hrs =>
    refine iff_of_true (fun line hline => ?_) fun _ ⟨e, he⟩ => absurd (hrs.symm.trans he) (by simp)
    obtain ⟨r, hr, rfl⟩ := List.mem_map.mp hline
    exact onGrid_line_of_stemsFrom h (Group.stemsFrom_of_simplified hg hrs hr)
  · next e he =>
    split
    · next hpolicy => simp [hpolicy, he]
    · next hpolicy => simp [hpolicy]

/-! ### Documents -/

variable {s : Settings}

/-- **Lines of a document.** What is written for a document is right line by line, unless a group
    fails and keeps lines that are not. -/
theorem wellFormed_rewritten_iff {document : List String}
    (h : ∀ line ∈ document, WellFormed InReach line) :
    (∀ line ∈ rewritten s document, WellFormed IsShort line) ↔
      (s.failurePolicy = .passThrough → ∀ gap ∈ gaps document,
        ∀ g ∈ (Run.ofStretch gap).groups, (∃ e, g.simplified s.tolerances = .error e) →
          ∀ line ∈ g.sources, WellFormed IsShort line) := by
  have hwritten : ∀ line, line ∈ rewritten s document ↔
      line ∈ controls document ∨ ∃ gap ∈ gaps document, line ∈ blocks s gap :=
    fun line => mem_rewrittenBy_iff (Group.isBlock_block s)
  have hgap : ∀ gap ∈ gaps document, ∀ line ∈ gap, isTriangle line = true ∧
      ∃ r, Record.ofLine line = .ok r ∧ ∀ c ∈ r.coordinates, InReach c := by
    intro gap hgap line hline
    have htriangle := isTriangle_of_mem_gaps hgap line hline
    exact ⟨htriangle, (h line (mem_iff_controls_gaps.mpr (.inr ⟨gap, hgap, hline⟩))).triangle
      (isTriangle_eq_hasTag line ▸ htriangle)⟩
  have hsource : ∀ gap ∈ gaps document, ∀ g ∈ (Run.ofStretch gap).groups, ∀ line ∈ g.sources,
      isTriangle line = true := by
    intro gap hmem g hg line hline
    obtain ⟨m, hm, rfl⟩ := Group.mem_sources_iff.mp hline
    exact (hgap gap hmem _ ((Run.mem_members_ofStretch hg).2 m hm).1).1
  constructor
  · rintro hall hpolicy gap hmem g hg ⟨e, he⟩ line hline
    have hblock : line ∈ g.block s := by
      rw [Group.block, he]
      simpa [hpolicy] using hline
    exact hall line ((hwritten line).mpr (.inr ⟨gap, hmem, List.mem_flatMap.mpr ⟨g, hg, hblock⟩⟩))
  · intro hkept line hline
    rcases (hwritten line).mp hline with hcontrol | ⟨gap, hmem, hblock⟩
    · have hcontrol' := List.mem_filter.mp hcontrol
      exact (h line hcontrol'.1).of_control (by simpa using hcontrol'.2)
    · rw [wellFormed_iff_onGrid (isTriangle_of_mem_blocks (fun l hl => (hgap gap hmem l hl).1) line hblock)]
      obtain ⟨g, hg, hblock⟩ := List.mem_flatMap.mp hblock
      refine (onGrid_block_iff (fun l hl => (hgap gap hmem l hl).2) hg).mpr ?_ line hblock
      intro hpolicy hfails l hl
      exact (wellFormed_iff_onGrid (hsource gap hmem g hg l hl)).mp
        (hkept hpolicy gap hmem g hg hfails l hl)

/-- Where no triangle line stands before the first header, none is written there. -/
theorem leading_rewritten {document : List String}
    (h : ∀ line ∈ document.takeWhile (fun l => !hasTag areaTag l), hasTag triangleTag line = false) :
    ∀ line ∈ (rewritten s document).takeWhile (fun l => !hasTag areaTag l),
      hasTag triangleTag line = false := by
  have hnil : ∀ stretch rest : List String, (∀ line ∈ stretch, isTriangle line = true) →
      (∀ line ∈ (stretch ++ rest).takeWhile (fun l => !hasTag areaTag l),
        hasTag triangleTag line = false) → stretch = [] := by
    intro stretch rest hstretch hleading
    cases stretch with
    | nil => rfl
    | cons first later =>
      have htriangle : hasTag triangleTag first = true :=
        isTriangle_eq_hasTag first ▸ hstretch first List.mem_cons_self
      have hheader : hasTag areaTag first = false := hasTag_of_ne htriangle (by decide)
      have hfirst := hleading first (by simp [hheader])
      simp [htriangle] at hfirst
  induction document using gapInduction with
  | last stretch hstretch =>
    obtain rfl := hnil stretch [] hstretch (by simpa using h)
    rw [rewritten_of_forall s hstretch]
    exact h
  | next stretch line rest hstretch hline ih =>
    obtain rfl := hnil stretch (line :: rest) hstretch h
    rw [List.nil_append] at h
    rw [rewritten_append_cons s hstretch hline]
    show ∀ l ∈ (line :: rewritten s rest).takeWhile _, _
    by_cases htag : hasTag areaTag line = true
    · simp [htag]
    · have hnot : (!hasTag areaTag line) = true := by simpa using htag
      rw [List.takeWhile_cons_of_pos (p := fun l => !hasTag areaTag l) hnot,
        List.forall_mem_cons] at h ⊢
      exact ⟨h.1, ih h.2⟩

/-- **Rewritten documents.** In any scene that requests lead to, a document that is an area map but
    for fractions, with all coordinates between the ends of the grid, is one after it was
    rewritten, unless the failure policy keeps the lines of a group that fails and has fractions. -/
theorem exists_parse_rewritten_iff {scene : Scene Float} (h : scene.Reached) {text : String}
    (hfits : ∀ n, FitsAt InReach (lines text) n) {written : List String} {report : Report}
    (hok : (process s text scene).result = .ok (written, report)) :
    (∃ m, AreaMap.parse (render written) = .ok m) ↔
      (s.failurePolicy = .passThrough → ∀ gap ∈ gaps ((lines text).map trim),
        ∀ g ∈ (Run.ofStretch gap).groups, (∃ e, g.simplified s.tolerances = .error e) →
          ∀ line ∈ g.sources, WellFormed IsShort line) := by
  obtain ⟨hwell, hleading⟩ := forall_fitsAt_iff.mp (forall_fitsAt_map_trim.mpr hfits)
  rw [exists_parse_iff, ← forall_fitsAt_map_trim, trim_lines_render_of_process h hok,
    process_lines h hok, forall_fitsAt_iff, wellFormed_rewritten_iff hwell]
  exact and_iff_left (leading_rewritten hleading)

end

/-- A triangle with fractions, and two small ones without. -/
def halves : List String :=
  ["AREA 1 1", "TRI 0.5;0;0 10.25;0;0 0;10.75;0", "COLLISIONTYPE 3", "TRI 7;7;7 7;7;7 7;7;7",
    "TRI 7;7;7 8;7;7 7;8;7"]

/-- The triangle with fractions can be simplified, where no angle is straight. -/
theorem exists_simplified_half {g : Group} (hg : g ∈ (Run.ofStretch [halves[1]]).groups) :
    ∃ rs, g.simplified Settings.unstraightened.tolerances = .ok rs := by
  have hgroups : ∀ g ∈ (Run.ofStretch [halves[1]]).groups,
      (∀ p ∈ Record.points g.records, p.Finite) ∧ ((meshOfRecords g.records).toMesh.weld
        Tolerances.standard.weldDistance).faces ≠ [] := by
    decide +kernel
  obtain ⟨hfinite, hweld⟩ := hgroups g hg
  obtain ⟨faces, hfaces⟩ := exists_simplified_of_scattered hfinite
    ((Record.faces_weld_ne_nil_iff hfinite _).mp hweld)
  obtain ⟨triangles, -, hok⟩ := Group.simplified_of_ok hfaces
  exact ⟨_, hok⟩

/-- The small triangles can be read as they are. -/
theorem wellFormed_small : ∀ line ∈ [halves[3], halves[4]], WellFormed IsShort line := by
  have hparse : ∃ m, AreaMap.parse (render (halves[0] :: halves.drop 3)) = .ok m := by
    rw [AreaMap.parse_eq]
    exact ⟨⟨[⟨1, 1, #[⟨7, 7, 7⟩, ⟨8, 7, 7⟩, ⟨7, 8, 7⟩], #[⟨0, ⟨0, 0, 0⟩, none⟩,
      ⟨0, ⟨0, 1, 2⟩, none⟩]⟩]⟩, by decide +kernel⟩
  rw [exists_parse_iff, ← forall_fitsAt_map_trim, forall_fitsAt_iff] at hparse
  have hlines : ∀ line ∈ [halves[3], halves[4]],
      line ∈ (lines (render (halves[0] :: halves.drop 3))).map trim := by
    decide +kernel
  exact fun line hline => hparse.1 line (hlines line hline)

/-- A document where the lines of groups that fail are left out, and where they are kept: there the
    triangle with fractions succeeds, and the small ones fail. -/
theorem exists_parse_rewritten_halves :
    (∃ written report, (process { Settings.standard with failurePolicy := .drop } (render halves)
        (Scene.new : Scene Float)).result = .ok (written, report) ∧
      ∃ m, AreaMap.parse (render written) = .ok m) ∧
    (Run.ofStretch [halves[3], halves[4]]).groups.map
        (Group.simplified Settings.unstraightened.tolerances) = [.error (.edit .edgeSplit .noFaces)] ∧
    ∃ written report, (process Settings.unstraightened (render halves)
        (Scene.new : Scene Float)).result = .ok (written, report) ∧
      ∃ m, AreaMap.parse (render written) = .ok m := by
  have hfits : ∀ n, FitsAt InReach (lines (render halves)) n :=
    forall_fitsAt_iff.mpr (by decide +kernel)
  refine ⟨?_, by decide +kernel, ?_⟩
  · obtain ⟨written, report, hok⟩ := exists_written_of_fault_eq_none
      { Settings.standard with failurePolicy := .drop } (render halves) .new (by decide +kernel)
    exact ⟨written, report, hok,
      (exists_parse_rewritten_iff .new hfits hok).mpr fun h => by simp at h⟩
  · obtain ⟨written, report, hok⟩ :=
      exists_written_of_fault_eq_none Settings.unstraightened (render halves) .new (by decide +kernel)
    refine ⟨written, report, hok, (exists_parse_rewritten_iff .new hfits hok).mpr fun _ => ?_⟩
    have hgaps : gaps ((lines (render halves)).map trim)
        = [[], [halves[1]], [halves[3], halves[4]]] := by
      decide +kernel
    rw [hgaps]
    simp only [List.forall_mem_cons, List.not_mem_nil, false_implies, implies_true, and_true]
    refine ⟨?_, ?_, ?_⟩
    · exact fun g hg => absurd hg List.not_mem_nil
    · rintro g hg ⟨e, he⟩
      obtain ⟨rs, hrs⟩ := exists_simplified_half hg
      exact absurd (he.symm.trans hrs) (by simp)
    · intro g hg _ line hline
      obtain ⟨m, hm, rfl⟩ := Group.mem_sources_iff.mp hline
      exact wellFormed_small _ ((Run.mem_members_ofStretch hg).2 m hm).1

/-- A group that fails can keep fractions: a triangle that is a point, but not on the grid. -/
theorem not_forall_exists_parse_rewritten :
    ¬ ∀ (s : Settings) (text : String) (written : List String) (report : Report),
      (∀ n, FitsAt InReach (lines text) n) →
      (process s text (Scene.new : Scene Float)).result = .ok (written, report) →
      ∃ m, AreaMap.parse (render written) = .ok m := by
  intro h
  have hok : (process Settings.standard "AREA 1 1\nTRI 0.5;0;0 0.5;0;0 0.5;0;0"
      (Scene.new : Scene Float)).result
        = .ok (["AREA 1 1", "TRI 0.5;0;0 0.5;0;0 0.5;0;0"], ⟨1, 1, 1, 1, 1, 1⟩) := by
    decide +kernel
  have hfault : AreaMap.parse (render ["AREA 1 1", "TRI 0.5;0;0 0.5;0;0 0.5;0;0"])
      = .error (.malformed 2 (.notShort "0.5")) := by
    decide +kernel
  obtain ⟨m, hm⟩ := h _ _ _ _ (forall_fitsAt_iff.mpr (by decide +kernel)) hok
  exact absurd (hfault.symm.trans hm) (by simp)

end CollisionMesh
