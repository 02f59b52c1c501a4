import CollisionMesh.Proofs.Group
import CollisionMesh.Proofs.Items
import CollisionMesh.Proofs.WrittenRecord

namespace CollisionMesh

open Record Text

/-!
# Documents written group by group

A document is written by saying what stands for each group: lines of records with the key of the
group, the lines that it was read from, or nothing. Then what is written in a gap can be read as a
run again, of the same keys in the same order, perhaps fewer.

* `Group.IsBlock` — what can be written for a group;
* `blocksBy`, `rewrittenBy` — what is written in a gap, and for a document; `gaps_rewrittenBy`,
  `controls_rewrittenBy` — a document gap by gap;
* `Group.IsBlock.exists_member` — each line is read with the key of its group;
* `keyed_blocksBy`, `readable_blocksBy` — what is written in a gap that can be read can be read,
  and carries keys iff the gap does.
-/

/-- What can be written for a group: lines of records with its key, the lines that it was read
    from, or nothing. -/
inductive Group.IsBlock (g : Group) : List String → Prop where
  | records {rs : List Record} (h : ∀ r ∈ rs, r.key = g.written) : IsBlock g (rs.map Record.line)
  | sources : IsBlock g g.sources
  | nothing : IsBlock g []

/-- The lines that are written for the run of a stretch, group by group. -/
def blocksBy (f : Group → List String) (stretch : List String) : List String :=
  (Run.ofStretch stretch).groups.flatMap f

/-- The lines that are written for a passage: a line as it is, a run group by group. -/
def Passage.linesBy (f : Group → List String) : Passage → List String
  | .line text => [text]
  | .run r => r.groups.flatMap f

/-- A document by its lines without the blanks around, as it is written group by group. -/
def rewrittenBy (f : Group → List String) (lines : List String) : List String :=
  (passages lines).flatMap (Passage.linesBy f)

/-! ### The lines of a group -/

namespace Group.IsBlock

variable {g : Group} {block : List String} {line : String}

/-- What is written for a group: a line that it was read from, or the line of a record with
    its key. -/
theorem mem (h : g.IsBlock block) (hline : line ∈ block) :
    (∃ m ∈ g.members, m.source = line) ∨ ∃ r : Record, r.key = g.written ∧ r.line = line := by
  cases h with
  | records hrs =>
    obtain ⟨r, hr, rfl⟩ := List.mem_map.mp hline
    exact .inr ⟨r, hrs r hr, rfl⟩
  | sources => exact .inl (mem_sources_iff.mp hline)
  | nothing => exact absurd hline List.not_mem_nil

/-- What is written for a group is read with its key. -/
theorem exists_member {stretch : List String} (h : g.IsBlock block)
    (hg : g ∈ (Run.ofStretch stretch).groups) (hline : line ∈ block) :
    ∃ m, Member.ofLine? g.keyed line = some m ∧ m.source = line ∧ m.record.groupKey = g.key := by
  obtain ⟨hkeyed, hmembers⟩ := Run.mem_members_ofStretch hg
  rcases h.mem hline with ⟨m, hm, rfl⟩ | ⟨r, hkey, rfl⟩
  · exact ⟨m, hkeyed ▸ (hmembers m hm).2.1, rfl, (hmembers m hm).2.2⟩
  · obtain ⟨r', hr', hkey'⟩ := exists_ofLine_line r
    refine ⟨_, Member.ofLine?_of_ofLine hr' g.keyed, ?_, ?_⟩ <;> dsimp only
    rw [hkey, Group.written] at hkey'
    cases hrun : g.keyed with
    | false => exact (Run.key_of_unkeyed hg (hkeyed.symm.trans hrun)).symm
    | true =>
      rw [hrun, if_pos rfl] at hkey'
      rw [if_pos rfl, Record.groupKey, hkey', Option.getD_some]

end Group.IsBlock

/-! ### The lines of a gap -/

section

variable {f : Group → List String} (hf : ∀ g : Group, g.IsBlock (f g)) {stretch : List String}

include hf

/-- **Lines.** What is written in a gap: lines that were there, or lines of records that carry
    a key iff the run does. -/
theorem mem_blocksBy {line : String} (h : line ∈ blocksBy f stretch) :
    line ∈ stretch ∨ ∃ r : Record, r.key.isSome = (Run.ofStretch stretch).keyed ∧ r.line = line := by
  obtain ⟨g, hg, hline⟩ := List.mem_flatMap.mp h
  obtain ⟨hkeyed, hmembers⟩ := Run.mem_members_ofStretch hg
  rcases (hf g).mem hline with ⟨m, hm, rfl⟩ | ⟨r, hkey, rfl⟩
  · exact .inl (hmembers m hm).1
  · refine .inr ⟨r, ?_, rfl⟩
    rw [hkey, Group.written, hkeyed]
    cases (Run.ofStretch stretch).keyed <;> rfl

/-- What is written in a gap are triangle lines. -/
theorem isTriangle_of_mem_blocksBy (h : ∀ line ∈ stretch, isTriangle line = true) :
    ∀ line ∈ blocksBy f stretch, isTriangle line = true := by
  intro line hline
  rcases mem_blocksBy hf hline with hline | ⟨r, -, rfl⟩
  · exact h line hline
  · exact isTriangle_line r

/-- In a run without keys all lines are records without keys, or all are as they were, or
    there is none. -/
theorem blocksBy_of_unkeyed {policy : KeyPolicy} (h : Readable policy stretch)
    (hkeyed : (Run.ofStretch stretch).keyed = false) :
    (∃ rs : List Record, blocksBy f stretch = rs.map Record.line ∧ ∀ r ∈ rs, r.key = none) ∨
      blocksBy f stretch = stretch ∨ blocksBy f stretch = [] := by
  by_cases hne : stretch = []
  · exact .inr (.inl (by rw [hne]; rfl))
  -- Every line is a triangle of the run, and they are all in one group.
  have hsources := Member.sources_ofLines h.record false
  have hgroups := Run.groups_ofStretch_of_unkeyed hkeyed fun hnil =>
    hne (by rw [← hsources, hnil]; rfl)
  rw [blocksBy, hgroups, List.flatMap_singleton]
  have hblock := hf (.ofMembers Key.zero false (stretch.filterMap (Member.ofLine? false)))
  generalize f _ = block at hblock ⊢
  cases hblock with
  | records hrs => exact .inl ⟨_, rfl, hrs⟩
  | sources => exact .inr (.inl hsources)
  | nothing => exact .inr (.inr rfl)

/-- What is written in a gap are lines of records. -/
theorem exists_record_of_mem_blocksBy {line : String} (h : line ∈ blocksBy f stretch) :
    ∃ r, Record.ofLine line = .ok r := by
  obtain ⟨g, hg, hline⟩ := List.mem_flatMap.mp h
  obtain ⟨m, hm, -⟩ := (hf g).exists_member hg hline
  obtain ⟨r, hr, -⟩ := exists_ofLine_of_ofLine? hm
  exact ⟨r, hr⟩

/-- If the lines of a gap all carry a key, or none does, so it is with what is written. -/
theorem carriesKey_of_mem_blocksBy
    (h : ∀ line ∈ stretch, carriesKey line = (Run.ofStretch stretch).keyed) {line : String}
    (hline : line ∈ blocksBy f stretch) : carriesKey line = (Run.ofStretch stretch).keyed := by
  rcases mem_blocksBy hf hline with hline | ⟨r, hkey, rfl⟩
  · exact h line hline
  · rw [carriesKey_line, hkey]

/-- **Keys.** What is written in a gap is a run with keys iff the run there was one, if it is
    any run at all. -/
theorem keyed_blocksBy {policy : KeyPolicy} (h : Readable policy stretch)
    (hne : blocksBy f stretch ≠ []) :
    (Run.ofStretch (blocksBy f stretch)).keyed = (Run.ofStretch stretch).keyed := by
  show (blocksBy f stretch).head?.any carriesKey = _
  cases hkeyed : (Run.ofStretch stretch).keyed with
  | true =>
    obtain ⟨line, rest, heq⟩ := List.exists_cons_of_ne_nil hne
    have hall : ∀ line ∈ stretch, carriesKey line = (Run.ofStretch stretch).keyed :=
      fun line hline => (h.keyed hkeyed line hline).trans hkeyed.symm
    rw [heq]
    exact (carriesKey_of_mem_blocksBy hf hall (heq ▸ List.mem_cons_self)).trans hkeyed
  | false =>
    -- The lines may still carry keys that do not count, but then the first is the same.
    rcases blocksBy_of_unkeyed hf h hkeyed with ⟨rs, heq, hrs⟩ | heq | heq
    · rw [heq]
      cases rs with
      | nil => rfl
      | cons r later =>
        show carriesKey r.line = false
        rw [carriesKey_line, hrs r List.mem_cons_self]
        rfl
    · rw [heq]
      exact hkeyed
    · exact absurd heq hne

/-- **Reading again.** What is written in a gap that can be read can be read as well. -/
theorem readable_blocksBy {policy : KeyPolicy} (h : Readable policy stretch) :
    Readable policy (blocksBy f stretch) := by
  by_cases hne : blocksBy f stretch = []
  · rw [hne]
    exact .nil policy
  refine ⟨fun line hline => exists_record_of_mem_blocksBy hf hline, ?_, ?_⟩
  · rw [keyed_blocksBy hf h hne]
    intro hkeyed line hline
    rw [carriesKey_of_mem_blocksBy hf
      (fun l hl => (h.keyed hkeyed l hl).trans hkeyed.symm) hline, hkeyed]
  · rw [keyed_blocksBy hf h hne]
    intro hpolicy hkeyed line hline
    rw [carriesKey_of_mem_blocksBy hf
      (fun l hl => (h.unkeyed hpolicy hkeyed l hl).trans hkeyed.symm) hline, hkeyed]

end

/-! ### Documents gap by gap -/

theorem rewrittenBy_of_forall (f : Group → List String) {stretch : List String}
    (h : ∀ line ∈ stretch, isTriangle line = true) :
    rewrittenBy f stretch = blocksBy f stretch := by
  rw [rewrittenBy, passages_of_forall h]
  cases stretch with
  | nil => rfl
  | cons first later => exact List.append_nil _

theorem rewrittenBy_append_cons (f : Group → List String) {stretch : List String}
    (h : ∀ line ∈ stretch, isTriangle line = true) {line : String}
    (hline : isTriangle line = false) (rest : List String) :
    rewrittenBy f (stretch ++ line :: rest) = blocksBy f stretch ++ line :: rewrittenBy f rest := by
  rw [← rewrittenBy_of_forall f h, rewrittenBy, rewrittenBy, passages_append_cons h hline,
    passages_of_forall h, List.flatMap_append]
  rfl

section

variable {f : Group → List String} (hf : ∀ g : Group, g.IsBlock (f g))

include hf

/-- **Gaps.** A document is written gap by gap. -/
theorem gaps_rewrittenBy (lines : List String) :
    gaps (rewrittenBy f lines) = (gaps lines).map (blocksBy f) := by
  induction lines using gapInduction with
  | last stretch hstretch =>
    rw [rewrittenBy_of_forall f hstretch, gaps_of_forall (isTriangle_of_mem_blocksBy hf hstretch),
      gaps_of_forall hstretch]
    rfl
  | next stretch line rest hstretch hline ih =>
    rw [rewrittenBy_append_cons f hstretch hline,
      gaps_append_cons (isTriangle_of_mem_blocksBy hf hstretch) hline, ih,
      gaps_append_cons hstretch hline]
    rfl

/-- **Control lines.** They stay as they are. -/
theorem controls_rewrittenBy (lines : List String) : controls (rewrittenBy f lines) = controls lines := by
  induction lines using gapInduction with
  | last stretch hstretch =>
    rw [rewrittenBy_of_forall f hstretch,
      controls_of_forall (isTriangle_of_mem_blocksBy hf hstretch), controls_of_forall hstretch]
  | next stretch line rest hstretch hline ih =>
    rw [rewrittenBy_append_cons f hstretch hline,
      controls_append_cons (isTriangle_of_mem_blocksBy hf hstretch) hline, ih,
      controls_append_cons hstretch hline]

/-- The lines of a document that was written: its control lines, and what is written in its gaps. -/
theorem mem_rewrittenBy_iff {lines : List String} {line : String} :
    line ∈ rewrittenBy f lines ↔
      line ∈ controls lines ∨ ∃ gap ∈ gaps lines, line ∈ blocksBy f gap := by
  rw [mem_iff_controls_gaps, controls_rewrittenBy hf, gaps_rewrittenBy hf]
  simp only [List.mem_map, exists_exists_and_eq_and]

/-- A line of a document that was written was there before, or is the line of a record. -/
theorem mem_rewrittenBy {lines : List String} {line : String} (h : line ∈ rewrittenBy f lines) :
    line ∈ lines ∨ ∃ r : Record, r.line = line := by
  rcases (mem_rewrittenBy_iff hf).mp h with h | ⟨gap, hgap, h⟩
  · exact .inl (mem_iff_controls_gaps.mpr (.inl h))
  · rcases mem_blocksBy hf h with h | ⟨r, -, hr⟩
    · exact .inl (mem_iff_controls_gaps.mpr (.inr ⟨gap, hgap, h⟩))
    · exact .inr ⟨r, hr⟩

/-- **Reading.** The lines of a document that was written are read as they stand. -/
theorem trim_lines_render_rewrittenBy (text : String) :
    (lines (render (rewrittenBy f ((lines text).map trim)))).map trim
      = rewrittenBy f ((lines text).map trim) := by
  -- Every line was trimmed and is part of a line, or is the line of a record.
  have hline : ∀ line ∈ rewrittenBy f ((lines text).map trim),
      '\n' ∉ line.toList ∧ trim line = line := by
    intro line hmem
    rcases mem_rewrittenBy hf hmem with hmem | ⟨r, rfl⟩
    · obtain ⟨raw, hraw, rfl⟩ := List.mem_map.mp hmem
      refine ⟨fun hfeed => not_mem_of_mem_lines hraw (mem_of_mem_trimmed ?_), trim_trim raw⟩
      rwa [trim, String.toList_ofList] at hfeed
    · exact ⟨r.not_mem_line, r.trim_line⟩
  exact trim_lines_render (fun line hmem => (hline line hmem).1) fun line hmem => (hline line hmem).2

end

end CollisionMesh
