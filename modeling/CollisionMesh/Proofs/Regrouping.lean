import CollisionMesh.Proofs.Balance
import CollisionMesh.Proofs.ReadBack
import CollisionMesh.Proofs.Writers

namespace CollisionMesh

open Record Text

/-!
# Groups that are read again

Where a document is written group by group and every group keeps its number of triangles, the
lines are read to the same groups, each as what was written for it is read. So what is written
for such groups again is the same, if only it is so group by group.

* `groupsOf_flatMap` — triangles that stand by key are grouped as they stand;
* `Group.reread`, `ofStretch_blocksBy` — a group, and a run, as what was written is read;
* `Report.Counts`, `Report.Counts.rewrittenBy` — what is counted of a document does not change;
* `rewrittenBy_rewrittenBy` — and what is written does not either;
* `Group.copied`, `Group.copied_reread` — a group written record by record;
* `Group.sources_reread`, `passages_rewrittenBy_sources` — a group written as it was read.
-/

/-! ### Grouping -/

/-- Triangles that stand by key, no key twice, are grouped as they stand. -/
theorem groupsOf_flatMap (keyed : Bool) {groups : List Group} {f : Group → List Member}
    (hnodup : (groups.map Group.key).Nodup)
    (hkey : ∀ g ∈ groups, ∀ m ∈ f g, m.record.groupKey = g.key) (hne : ∀ g ∈ groups, f g ≠ []) :
    groupsOf keyed (groups.flatMap f) = groups.map fun g => .ofMembers g.key keyed (f g) := by
  have hkeys : ((groups.flatMap f).map (·.record.groupKey)).eraseDups = groups.map Group.key := by
    rw [List.map_flatMap]
    apply eraseDups_flatMap hnodup
    · intro g hg k hk
      obtain ⟨m, hm, rfl⟩ := List.mem_map.mp hk
      exact hkey g hg m hm
    · exact fun g hg => mt List.map_eq_nil_iff.mp (hne g hg)
  rw [groupsOf, hkeys, List.map_map]
  apply List.map_congr_left
  intro g hg
  rw [Function.comp_apply, groupOf, filter_flatMap_key hnodup hkey hg]

/-- A group of a run has a triangle. -/
theorem Run.size_pos_of_mem {stretch : List String} {g : Group}
    (hg : g ∈ (ofStretch stretch).groups) : 0 < g.size := by
  have hkey : g.key ∈ (ofStretch stretch).groups.map Group.key := List.mem_map_of_mem hg
  rw [map_key_groups_ofStretch, List.mem_eraseDups] at hkey
  obtain ⟨m, hm, hmkey⟩ := List.mem_map.mp hkey
  obtain ⟨k, -, rfl⟩ := List.mem_map.mp hg
  have hmem : m ∈ (groupOf (ofStretch stretch).keyed
      (stretch.filterMap (Member.ofLine? (ofStretch stretch).keyed)) k).members := by
    rw [groupOf, Group.members_ofMembers]
    exact List.mem_filter.mpr ⟨hm, beq_iff_eq.mpr hmkey⟩
  exact Group.length_members _ ▸ List.length_pos_of_mem hmem

/-! ### Reading again -/

/-- A group as what is written for it is read. -/
def Group.reread (f : Group → List String) (g : Group) : Group :=
  .ofMembers g.key g.keyed ((f g).filterMap (Member.ofLine? g.keyed))

section

variable {f : Group → List String} (hf : ∀ g : Group, g.IsBlock (f g))
  (hsize : ∀ g : Group, (f g).length = g.size) {policy : KeyPolicy} {stretch lines : List String}

include hf

/-- The lines of a group that is read again are those that were written. -/
theorem Group.sources_reread_eq {g : Group} (hg : g ∈ (Run.ofStretch stretch).groups) :
    (g.reread f).sources = f g := by
  apply Member.sources_ofLines
  intro line hline
  obtain ⟨m, hm, -⟩ := (hf g).exists_member hg hline
  obtain ⟨r, hr, -⟩ := exists_ofLine_of_ofLine? hm
  exact ⟨r, hr⟩

include hsize

omit hf in
/-- What is written in a gap has as many lines as were there. -/
theorem length_blocksBy (h : Readable policy stretch) :
    (blocksBy f stretch).length = stretch.length := by
  rw [← size_ofStretch h, Run.size_eq_sum, blocksBy, List.length_flatMap]
  exact congrArg List.sum (List.map_congr_left fun g _ => hsize g)

/-- **Runs.** What is written in a gap is read to the same groups, each as what is written for it
    is read. -/
theorem ofStretch_blocksBy (h : Readable policy stretch) :
    Run.ofStretch (blocksBy f stretch)
      = ⟨(Run.ofStretch stretch).keyed, (Run.ofStretch stretch).groups.map (Group.reread f)⟩ := by
  by_cases hnil : stretch = []
  · rw [hnil]
    rfl
  have hne : blocksBy f stretch ≠ [] := by
    rwa [← List.length_pos_iff, length_blocksBy hsize h, List.length_pos_iff]
  have hkeyed := keyed_blocksBy hf h hne
  -- Every line that is written for a group is read with its key, and there is one.
  have hmembers : ∀ g ∈ (Run.ofStretch stretch).groups,
      ∀ m ∈ (f g).filterMap (Member.ofLine? (Run.ofStretch stretch).keyed),
        m.record.groupKey = g.key := by
    intro g hg m hm
    obtain ⟨line, hline, hof⟩ := List.mem_filterMap.mp hm
    obtain ⟨m', hof', -, hkey⟩ := (hf g).exists_member hg hline
    rw [(Run.mem_members_ofStretch hg).1] at hof'
    rw [Option.some.inj (hof.symm.trans hof'), hkey]
  have hone : ∀ g ∈ (Run.ofStretch stretch).groups,
      (f g).filterMap (Member.ofLine? (Run.ofStretch stretch).keyed) ≠ [] := by
    intro g hg hnone
    have hsources := Group.sources_reread_eq hf hg
    rw [Group.reread, Group.sources_ofMembers, (Run.mem_members_ofStretch hg).1, hnone] at hsources
    have hpos := Run.size_pos_of_mem hg
    rw [← hsize g, ← hsources] at hpos
    exact absurd hpos (by simp)
  have hgroups : (Run.ofStretch (blocksBy f stretch)).groups
      = groupsOf (Run.ofStretch (blocksBy f stretch)).keyed ((blocksBy f stretch).filterMap
          (Member.ofLine? (Run.ofStretch (blocksBy f stretch)).keyed)) := rfl
  rw [hkeyed, blocksBy, List.filterMap_flatMap,
    groupsOf_flatMap _ (Run.nodup_keys_ofStretch stretch) hmembers hone] at hgroups
  have hreread : (Run.ofStretch stretch).groups.map (fun g =>
      Group.ofMembers g.key (Run.ofStretch stretch).keyed
        ((f g).filterMap (Member.ofLine? (Run.ofStretch stretch).keyed)))
        = (Run.ofStretch stretch).groups.map (Group.reread f) := by
    apply List.map_congr_left
    intro g hg
    rw [Group.reread, (Run.mem_members_ofStretch hg).1]
  rw [← hkeyed, ← hreread]
  exact congrArg (Run.mk _) hgroups

/-- What is counted of a document that was written are the counts of the document. -/
theorem Report.Counts.eq_of_rewrittenBy (h : ∀ gap ∈ gaps lines, Readable policy gap)
    {written : List String} {r r' : Report} (hr : r.Counts lines written)
    (hr' : r'.Counts (rewrittenBy f lines) written)
    (hfailed : r'.groups = r.groups → r'.groupsFailed = r.groupsFailed) : r' = r := by
  have hgaps := gaps_rewrittenBy hf lines
  have hcontrols : r'.controlLines = r.controlLines := by
    have hlength : ∀ lines : List String,
        lines.countP (fun line => !isTriangle line) = (controls lines).length :=
      fun lines => List.countP_eq_length_filter
    rw [hr'.controlLines, hr.controlLines, hlength, hlength, controls_rewrittenBy hf]
  have hruns : r'.runs = r.runs := by
    rw [hr'.runs, hr.runs, hgaps, List.countP_map]
    apply List.countP_congr
    intro gap hgap
    have hlength := length_blocksBy hsize (h gap hgap)
    simp [← List.length_eq_zero_iff, hlength]
  have hgroups : r'.groups = r.groups := by
    rw [hr'.groups, hr.groups, groupsOfLines, groupsOfLines, hgaps, List.length_flatMap,
      List.length_flatMap, List.map_map]
    refine congrArg List.sum (List.map_congr_left fun gap hgap => ?_)
    rw [Function.comp_apply, ofStretch_blocksBy hf hsize (h gap hgap), List.length_map]
  have hin : r'.trianglesIn = r.trianglesIn := by
    rw [hr'.trianglesIn, hr.trianglesIn, ← sum_length_gaps, ← sum_length_gaps, hgaps, List.map_map]
    exact congrArg List.sum (List.map_congr_left fun gap hgap => length_blocksBy hsize (h gap hgap))
  have hout : r'.trianglesOut = r.trianglesOut := by
    have hwritten := hr.written
    rw [hr'.written, hcontrols] at hwritten
    exact Nat.add_left_cancel hwritten
  have hfailed := hfailed hgroups
  obtain ⟨⟩ := r
  obtain ⟨⟩ := r'
  simp_all

/-- **Writing again.** Where what is written for each group that is read again is the same, a
    document that was written is written as it is. -/
theorem rewrittenBy_rewrittenBy (h : ∀ gap ∈ gaps lines, Readable policy gap)
    (hstable : ∀ stretch, ∀ g ∈ (Run.ofStretch stretch).groups, f (g.reread f) = f g) :
    rewrittenBy f (rewrittenBy f lines) = rewrittenBy f lines := by
  have hgap : ∀ {stretch}, Readable policy stretch →
      blocksBy f (blocksBy f stretch) = blocksBy f stretch := by
    intro stretch hstretch
    rw [blocksBy, ofStretch_blocksBy hf hsize hstretch, List.flatMap_map]
    exact List.flatMap_congr fun g hg => hstable stretch g hg
  induction lines using gapInduction with
  | last stretch hstretch =>
    rw [gaps_of_forall hstretch, List.forall_mem_singleton] at h
    rw [rewrittenBy_of_forall f hstretch,
      rewrittenBy_of_forall f (isTriangle_of_mem_blocksBy hf hstretch), hgap h]
  | next stretch line rest hstretch hline ih =>
    rw [gaps_append_cons hstretch hline, List.forall_mem_cons] at h
    rw [rewrittenBy_append_cons f hstretch hline,
      rewrittenBy_append_cons f (isTriangle_of_mem_blocksBy hf hstretch) hline, hgap h.1, ih h.2]

end

/-! ### Groups written record by record -/

namespace Group

/-- A group record by record, each with the key of the group. -/
def copied (g : Group) : List String :=
  (g.records.map fun r => (⟨r.corners, g.written⟩ : Record)).map Record.line

theorem isBlock_copied (g : Group) : g.IsBlock g.copied := by
  apply IsBlock.records
  intro r hr
  obtain ⟨r₀, -, rfl⟩ := List.mem_map.mp hr
  rfl

@[simp] theorem length_copied (g : Group) : g.copied.length = g.size := by
  rw [copied, List.length_map, List.length_map, length_records]

/-- **Records.** A group that is written record by record and read is written alike. -/
theorem copied_reread (g : Group) : (g.reread copied).copied = g.copied := by
  have hrecords : ∀ rs : List Record,
      (((((rs.map fun r => (⟨r.corners, g.written⟩ : Record)).map Record.line).filterMap
        (Member.ofLine? g.keyed)).map (·.record)).map
          fun r => (⟨r.corners, g.written⟩ : Record)).map Record.line
        = (rs.map fun r => (⟨r.corners, g.written⟩ : Record)).map Record.line := by
    intro rs
    induction rs with
    | nil => rfl
    | cons r rest ih =>
      obtain ⟨r', hr', hkey, -⟩ := Record.ofLine_line ⟨r.corners, g.written⟩
      have hcorners : (if g.keyed then r' else r'.withoutKey).corners = r'.corners := by
        split <;> rfl
      have hline : (⟨r'.corners, g.written⟩ : Record).line
          = (⟨r.corners, g.written⟩ : Record).line := by
        rw [← Record.line_readBack hr']
        exact congrArg Record.line (congrArg (Record.mk _) hkey.symm)
      rw [List.map_cons, List.map_cons,
        List.filterMap_cons_some (Member.ofLine?_of_ofLine hr' g.keyed), List.map_cons,
        List.map_cons, List.map_cons, ih, hcorners, hline]
  rw [copied, copied, ← hrecords g.records]
  rfl

/-! ### Groups written as they were read -/

/-- **Sources.** A group that is written as it was read is read as it was. -/
theorem reread_sources {stretch : List String} {g : Group} (hg : g ∈ (Run.ofStretch stretch).groups) :
    g.reread sources = g := by
  obtain ⟨hkeyed, hmembers⟩ := Run.mem_members_ofStretch hg
  have hall : g.sources.filterMap (Member.ofLine? g.keyed) = g.members := by
    rw [← map_source_members, List.filterMap_map]
    refine (List.filterMap_congr fun m hm => ?_).trans List.filterMap_some
    rw [Function.comp_apply, hkeyed]
    exact (hmembers m hm).2.1
  rw [reread, hall, ofMembers_members]

end Group

/-- **Passages.** A document that is written as it was read has the same passages. -/
theorem passages_rewrittenBy_sources {policy : KeyPolicy} {lines : List String}
    (h : ∀ gap ∈ gaps lines, Readable policy gap) :
    passages (rewrittenBy Group.sources lines) = passages lines := by
  have hblock : ∀ g : Group, g.IsBlock g.sources := fun g => .sources
  have hgap : ∀ {stretch}, Readable policy stretch →
      pendingOf (blocksBy Group.sources stretch) = pendingOf stretch := by
    intro stretch hstretch
    have hlength := length_blocksBy Group.length_sources hstretch
    have hrun := ofStretch_blocksBy hblock Group.length_sources hstretch
    rw [List.map_congr_left fun g hg => Group.reread_sources hg, List.map_id'] at hrun
    cases stretch with
    | nil => rfl
    | cons line rest =>
      obtain ⟨first, later, hcons⟩ := List.exists_cons_of_length_pos
        (by rw [hlength]; exact Nat.succ_pos _ : 0 < (blocksBy Group.sources (line :: rest)).length)
      rw [hcons] at hrun ⊢
      exact congrArg some hrun
  induction lines using gapInduction with
  | last stretch hstretch =>
    rw [gaps_of_forall hstretch, List.forall_mem_singleton] at h
    rw [rewrittenBy_of_forall _ hstretch,
      passages_of_forall (isTriangle_of_mem_blocksBy hblock hstretch), passages_of_forall hstretch,
      hgap h]
  | next stretch line rest hstretch hline ih =>
    rw [gaps_append_cons hstretch hline, List.forall_mem_cons] at h
    rw [rewrittenBy_append_cons _ hstretch hline,
      passages_append_cons (isTriangle_of_mem_blocksBy hblock hstretch) hline, hgap h.1, ih h.2,
      passages_append_cons hstretch hline]

end CollisionMesh
