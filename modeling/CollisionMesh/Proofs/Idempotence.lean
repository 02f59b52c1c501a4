import CollisionMesh.Proofs.Keeping
import CollisionMesh.Proofs.Passages
import CollisionMesh.Proofs.Provenance
import CollisionMesh.Proofs.Regrouping

namespace CollisionMesh

open Text

/-!
# Documents that are written for good

Where an editor leaves the geometry of every group as it is, or fails at every group, what is
written for a group depends on the group alone and is read to a group for which the same is
written. So a document that was written is written as it is when it is processed again, and
counted alike.

* `WritesBy` — groups are written so in all states that requests lead to;
  `KeepsGeometry.writesBy`, `FailsAt.writesBy` — record by record, or as they were read;
* `WritesBy.eq_rewrittenBy`, `WritesBy.written_again` — a document is written so, and again as
  it is;
* `process_idempotent` — all of it.
-/

section

variable {σ : Type} [MeshEditor Float σ] {editor st : σ}
  {holds : σ → Handle → TriangleMesh Float → Prop}

/-! ### Groups -/

/-- In all states that requests lead to, groups are written so, and all of them fail or none. -/
structure WritesBy (s : Settings) (editor : σ) (f : Group → List String) (fails : Bool) : Prop where
  lines : ∀ {st}, Leads editor st → ∀ g : Group,
    g.linesOf s.failurePolicy (simplifyGroup s.tolerances g st).1 = f g
  fails : ∀ {st}, Leads editor st → ∀ g : Group,
    (faultOf (simplifyGroup s.tolerances g st).1).isSome = fails

/-- **Keeping.** An editor that keeps its geometry writes groups record by record. -/
theorem KeepsGeometry.writesBy (h : KeepsGeometry editor holds) (s : Settings) :
    WritesBy s editor Group.copied false := by
  have hanswer : ∀ {st}, Leads editor st → ∀ g : Group, (simplifyGroup s.tolerances g st).1
      = .ok (g.records.map fun r => ⟨r.corners.map Point.rounded, g.written⟩) := by
    intro st hst g
    have hread := h.simplify hst s.tolerances (wellIndexed_meshOfRecords g.records)
    have hthree : ∀ face ∈ (meshOfRecords g.records).toMesh.readBack,
        face.indices.length = 3 ∧ face.positions.length = 3 := by
      intro face hface
      obtain ⟨corners, hcorners, rfl⟩ := List.mem_map.mp hface
      obtain ⟨t, -, rfl⟩ := List.mem_map.mp hcorners
      exact ⟨rfl, rfl⟩
    obtain ⟨triangles, htriangles, hrecords⟩ := recordsOfFacesFrom_eq hthree g.written 0
    -- The corners that are read back are those of the records.
    have hshape : triangles.map Triple.toList = (g.records.map (·.corners)).map Triple.toList := by
      rw [htriangles, ← TriangleMesh.shape_ofTriangles, Mesh.readBack, List.map_map]
      rfl
    have hinj : Function.Injective (Triple.toList (β := Point Float)) := by
      rintro ⟨a, b, c⟩ ⟨a', b', c'⟩ heq
      simpa [Triple.toList] using heq
    obtain rfl := List.map_injective_iff.mpr hinj hshape
    show ((CollisionMesh.simplify s.tolerances (meshOfRecords g.records) st).1).bind _ = _
    rw [hread]
    refine hrecords.trans ?_
    rw [List.map_map]
    rfl
  constructor
  · intro st hst g
    rw [hanswer hst g, Group.linesOf, Group.copied, List.map_map, List.map_map]
    refine List.map_congr_left fun r _ => ?_
    rw [Function.comp_apply, Function.comp_apply, Record.line_rounded]
  · intro st hst g
    rw [hanswer hst g]
    rfl

/-- **Failing.** An editor that always fails at a pass keeps groups as they were read, if the
    failure policy does. -/
theorem FailsAt.writesBy {pass : Pass Float} (h : FailsAt pass editor) {s : Settings}
    (hpass : pass ∈ s.tolerances.passes) (hpolicy : s.failurePolicy = .passThrough) :
    WritesBy s editor Group.sources true := by
  have hanswer : ∀ {st}, Leads editor st → ∀ g : Group,
      ∃ e, (simplifyGroup s.tolerances g st).1 = .error e := by
    intro st hst g
    obtain ⟨e, he⟩ := h.simplify hpass hst (meshOfRecords g.records)
    refine ⟨e, ?_⟩
    show ((CollisionMesh.simplify s.tolerances (meshOfRecords g.records) st).1).bind _ = _
    rw [he]
    rfl
  constructor
  · intro st hst g
    obtain ⟨e, he⟩ := hanswer hst g
    rw [he, hpolicy, Group.linesOf]
  · intro st hst g
    obtain ⟨e, he⟩ := hanswer hst g
    rw [he]
    rfl

/-! ### Documents -/

section

variable {s : Settings} {f : Group → List String} {fails : Bool} {raws written : List String}
  {report : Report}

/-- A group is written as groups are, and counted as failed if groups fail. -/
theorem WritesBy.emitGroup (h : WritesBy s editor f fails) {g : Group} {p p' : Progress σ}
    (hp : Leads editor p.editor) (hok : emitGroup s g p = (.ok (), p')) :
    Leads editor p'.editor ∧ p'.lines.toList = p.lines.toList ++ f g ∧
      p'.report.groups = p.report.groups + 1 ∧
      p'.report.groupsFailed = p.report.groupsFailed + if fails then 1 else 0 := by
  have hleads := hp.emitGroup s g
  rw [hok] at hleads
  obtain ⟨-, rfl⟩ := emitGroup_eq_ok_iff.mp hok
  refine ⟨hleads, ?_, rfl, ?_⟩
  · rw [Array.toList_appendList, h.lines hp]
  · have hfails := h.fails hp g
    show _ + (faultOf (simplifyGroup s.tolerances g p.editor).1).toList.length = _
    generalize faultOf (simplifyGroup s.tolerances g p.editor).1 = fault at hfails
    subst hfails
    cases fault <;> rfl

/-- A document part way through, where groups are written so and all of them fail or none. -/
structure Progress.WrittenBy (editor : σ) (f : Group → List String) (fails : Bool)
    (added : List String) (p : Progress σ) : Prop where
  leads : Leads editor p.editor
  lines : p.lines.toList = added
  failed : p.report.groupsFailed = if fails then p.report.groups else 0

/-- **Items.** What is written for an item are the lines of its passage. -/
theorem WritesBy.emitItem (h : WritesBy s editor f fails) {item : Item} {added : List String}
    {p p' : Progress σ} (hp : p.WrittenBy editor f fails added)
    (hok : emitItem s item p = (.ok (), p')) :
    p'.WrittenBy editor f fails (added ++ item.passage?.toList.flatMap (Passage.linesBy f)) := by
  cases item with
  | ambiguous line =>
    obtain rfl : p.tell (.ambiguous line) = p' := congrArg Prod.snd hok
    exact ⟨hp.leads, hp.lines.trans (List.append_nil _).symm, hp.failed⟩
  | control line text =>
    obtain rfl : ((p.tell (.control line text)).count Report.addControl).write [text] = p' :=
      congrArg Prod.snd hok
    refine ⟨hp.leads, ?_, hp.failed⟩
    show (p.lines ++ [text]).toList = _
    rw [Array.toList_appendList, hp.lines]
    rfl
  | run r =>
    -- By induction on the groups of the run.
    have hgroup : ∀ (done : List Group) g (p p' : Progress σ),
        p.WrittenBy editor f fails (added ++ done.flatMap f) →
        CollisionMesh.emitGroup s g p = (.ok (), p') →
        p'.WrittenBy editor f fails (added ++ (done ++ [g]).flatMap f) := by
      intro done g p p' hp hok
      obtain ⟨hleads, hlines, hgroups, hfailed⟩ := h.emitGroup hp.leads hok
      refine ⟨hleads, ?_, ?_⟩
      · rw [hlines, hp.lines, List.flatMap_append, List.flatMap_singleton, List.append_assoc]
      · rw [hfailed, hgroups, hp.failed]
        cases fails <;> rfl
    have hstart : (p.count Report.addRun).WrittenBy editor f fails
        (added ++ ([] : List Group).flatMap f) :=
      ⟨hp.leads, hp.lines.trans (List.append_nil _).symm, hp.failed⟩
    show p'.WrittenBy editor f fails (added ++ (r.groups.flatMap f ++ []))
    rw [List.append_nil]
    exact forEach_ok_induction hgroup hstart hok

/-- **Writing.** A document that is rewritten is written group by group. -/
theorem WritesBy.eq_rewrittenBy (h : WritesBy s editor f fails) (hst : Leads editor st)
    (hok : (processLines s raws st).result = .ok (written, report)) :
    written = rewrittenBy f (raws.map trim) ∧
      report.groupsFailed = if fails then report.groups else 0 := by
  obtain ⟨hfault, p, hitems, rfl, rfl⟩ := processLines_eq_ok_iff.mp hok
  have hitem : ∀ (done : List Item) item (p p' : Progress σ),
      p.WrittenBy editor f fails
        (done.flatMap fun item => item.passage?.toList.flatMap (Passage.linesBy f)) →
      CollisionMesh.emitItem s item p = (.ok (), p') →
      p'.WrittenBy editor f fails
        ((done ++ [item]).flatMap fun item => item.passage?.toList.flatMap (Passage.linesBy f)) := by
    intro done item p p' hp hok
    rw [List.flatMap_append, List.flatMap_singleton]
    exact h.emitItem hp hok
  have hstart : (Progress.start st).WrittenBy editor f fails
      (([] : List Item).flatMap fun item => item.passage?.toList.flatMap (Passage.linesBy f)) :=
    ⟨hst, rfl, by cases fails <;> rfl⟩
  have hall := forEach_ok_induction hitem hstart hitems
  refine ⟨?_, hall.failed⟩
  rw [hall.lines, List.nil_append, rewrittenBy, ← Document.passages_ofLines hfault,
    List.filterMap_eq_flatMap_toList, List.flatMap_assoc]

/-- A document without a malformed line is rewritten if no group fails but for itself. -/
theorem exists_written_of_local (hlocal : ∀ {st}, Leads editor st → ∀ (g : Group) e,
      (simplifyGroup s.tolerances g st).1 = .error e → e.isGroupLocal = true)
    (hfault : (Document.ofLines s.keyPolicy raws).fault = none) (hst : Leads editor st) :
    ∃ written report, (processLines s raws st).result = .ok (written, report) := by
  have hgroup : ∀ (g : Group) (p : Progress σ), Leads editor p.editor →
      ∃ p', CollisionMesh.emitGroup s g p = (.ok (), p') ∧ Leads editor p'.editor := by
    intro g p hp
    refine ⟨_, emitGroup_eq_ok_iff.mpr ⟨?_, rfl⟩, ?_⟩
    · intro e he
      cases hanswer : (simplifyGroup s.tolerances g p.editor).1 with
      | ok rs => simp [hanswer, faultOf] at he
      | error e' =>
        rw [hanswer] at he
        obtain rfl : e' = e := Option.some.inj he
        exact hlocal hp g _ hanswer
    · have hleads := hp.emitGroup s g
      rwa [(emitGroup_eq s g p).1] at hleads
  have hitem : ∀ (item : Item) (p : Progress σ), Leads editor p.editor →
      ∃ p', CollisionMesh.emitItem s item p = (.ok (), p') ∧ Leads editor p'.editor := by
    intro item p hp
    cases item with
    | ambiguous line => exact ⟨_, rfl, hp⟩
    | control line text => exact ⟨_, rfl, hp⟩
    | run r =>
      have hcounted : Leads editor (p.count Report.addRun).editor := hp
      exact forEach_total hgroup r.groups hcounted
  have hstart : Leads editor (Progress.start st).editor := hst
  obtain ⟨p, hitems, -⟩ := forEach_total hitem (Document.ofLines s.keyPolicy raws).items hstart
  exact ⟨_, _, processLines_eq_ok_iff.mpr ⟨hfault, p, hitems, rfl, rfl⟩⟩

/-- The lines that were written for a document that can be read can be read. -/
theorem fault_render_rewrittenBy (hf : ∀ g : Group, g.IsBlock (f g)) {policy : KeyPolicy}
    {text : String} (h : (Document.ofLines policy (lines text)).fault = none) :
    (Document.ofLines policy (lines (render (rewrittenBy f ((lines text).map trim))))).fault = none := by
  rw [Document.fault_eq_none_iff, ← forall_gaps_readable_iff] at h ⊢
  rw [trim_lines_render_rewrittenBy hf, gaps_rewrittenBy hf]
  intro gap hgap
  obtain ⟨source, hsource, rfl⟩ := List.mem_map.mp hgap
  exact readable_blocksBy hf (h source hsource)

/-- **Writing again.** Where groups are written so, as many lines as they have triangles, and what
    is written for a group that is read again is the same, a document that was written is written
    as it is, and counted alike, wherever it is rewritten at all. -/
theorem WritesBy.written_again (h : WritesBy s editor f fails) (hf : ∀ g : Group, g.IsBlock (f g))
    (hsize : ∀ g : Group, (f g).length = g.size)
    (hstable : ∀ stretch, ∀ g ∈ (Run.ofStretch stretch).groups, f (g.reread f) = f g)
    {text : String} (hst : Leads editor st)
    (hok : (process s text st).result = .ok (written, report)) {later : σ}
    (hlater : Leads editor later) {again : List String} {report' : Report}
    (hagain : (process s (render written) later).result = .ok (again, report')) :
    (process s (render written) later).result = .ok (written, report) := by
  have hfault := (processLines_eq_ok_iff.mp hok).1
  have hread := forall_gaps_readable_iff.mpr (Document.fault_eq_none_iff.mp hfault)
  obtain ⟨rfl, hfailed⟩ := h.eq_rewrittenBy hst hok
  obtain ⟨hwritten, hfailed'⟩ := h.eq_rewrittenBy hlater hagain
  have hcounts := counts_of_processLines hagain
  rw [trim_lines_render_rewrittenBy hf] at hwritten hcounts
  rw [rewrittenBy_rewrittenBy hf hsize hread hstable] at hwritten
  subst hwritten
  have hreport : report' = report :=
    (counts_of_processLines hok).eq_of_rewrittenBy hf hsize hread hcounts fun hgroups => by
      rw [hfailed, hfailed', hgroups]
  rw [hagain, hreport]

end

/-! ### The result -/

/-- **Writing for good.** In an editor that keeps the geometry it is given, what is written for a
    document is written as it is when it is processed again, with equal counts, in any state that
    requests lead to. So it is, if failed groups are kept, in an editor that always fails at one
    of the passes: in the same state, and, if all its failures concern just the group, in any
    state that requests lead to. -/
theorem process_idempotent {s : Settings} {text : String} {written : List String}
    {report : Report} (hok : (process s text editor).result = .ok (written, report)) :
    ((∃ holds, KeepsGeometry editor holds) → ∀ later, Leads editor later →
      (process s (render written) later).result = .ok (written, report)) ∧
    (s.failurePolicy = .passThrough → (∃ pass ∈ s.tolerances.passes, FailsAt pass editor) →
      (process s (render written) editor).result = .ok (written, report) ∧
      (FailsLocally editor → ∀ later, Leads editor later →
        (process s (render written) later).result = .ok (written, report))) := by
  have hfault := (exists_balanced_of_processLines hok).1
  constructor
  · rintro ⟨holds, hkeeps⟩ later hlater
    have hwrites := hkeeps.writesBy s
    obtain ⟨rfl, -⟩ := hwrites.eq_rewrittenBy (.refl editor) hok
    -- No group fails, so the document is rewritten again.
    have hnone : ∀ {st}, Leads editor st → ∀ (g : Group) e,
        (simplifyGroup s.tolerances g st).1 = .error e → e.isGroupLocal = true := by
      intro st hst g e he
      have hfails := hwrites.fails hst g
      rw [he] at hfails
      exact absurd hfails (by simp [faultOf])
    obtain ⟨again, report', hagain⟩ := exists_written_of_local hnone
      (fault_render_rewrittenBy Group.isBlock_copied hfault) hlater
    exact hwrites.written_again Group.isBlock_copied Group.length_copied
      (fun _ g _ => g.copied_reread) (.refl editor) hok hlater hagain
  · rintro hpolicy ⟨pass, hpass, hfails⟩
    have hwrites := hfails.writesBy hpass hpolicy
    have hblock : ∀ g : Group, g.IsBlock g.sources := fun g => .sources
    obtain ⟨rfl, -⟩ := hwrites.eq_rewrittenBy (.refl editor) hok
    have hagainFault := fault_render_rewrittenBy hblock hfault
    refine ⟨?_, fun hlocal later hlater => ?_⟩
    · -- The document has the passages that it had, so the same requests are made.
      rw [← hok]
      refine result_eq_of_passages hfault hagainFault ?_ editor
      rw [trim_lines_render_rewrittenBy hblock]
      exact passages_rewrittenBy_sources
        (forall_gaps_readable_iff.mpr (Document.fault_eq_none_iff.mp hfault))
    · obtain ⟨again, report', hagain⟩ := exists_written_of_local
        (fun hst g e he => hfails.isGroupLocal hlocal hpass hst he) hagainFault hlater
      refine hwrites.written_again hblock Group.length_sources ?_ (.refl editor) hok hlater hagain
      intro stretch g hg
      rw [Group.reread_sources hg]

end


/-- A run of two keys, with a coordinate that does not fit in 64 bits: in an editor that keeps its
    geometry it is written by key, its coordinates rounded, and in one that dissolves nothing as
    it was read, and so it stays. -/
theorem process_idempotent_two_keys :
    (∀ later, Leads (Scripted.new none none : Scripted Float) later →
      (process Settings.standard (render ["AREA 1 1", "TRI 9223372036854775807;0;-2 0;0;9 9;0;0 0 5",
          "TRI 2;2;2 3;2;2 2;3;2 0 5", "TRI 0;0;0 1;0;0 0;1;0 0 4"]) later).result
        = .ok (["AREA 1 1", "TRI 9223372036854775807;0;-2 0;0;9 9;0;0 0 5",
          "TRI 2;2;2 3;2;2 2;3;2 0 5", "TRI 0;0;0 1;0;0 0;1;0 0 4"], ⟨1, 1, 2, 0, 3, 3⟩)) ∧
    ∀ later, Leads (Scripted.new (some .dissolve) none : Scripted Float) later →
      (process Settings.standard (render ["AREA 1 1", "TRI 1e19;0.5;-2.5 0;0;9 9;0;0 0 5",
          "TRI 2;2;2 3;2;2 2;3;2 0 5", "TRI 0;0;0 1;0;0 0;1;0 0 4"]) later).result
        = .ok (["AREA 1 1", "TRI 1e19;0.5;-2.5 0;0;9 9;0;0 0 5",
          "TRI 2;2;2 3;2;2 2;3;2 0 5", "TRI 0;0;0 1;0;0 0;1;0 0 4"], ⟨1, 1, 2, 2, 3, 3⟩) := by
  have hkept : (process Settings.standard
      "AREA 1 1\nTRI 1e19;0.5;-2.5 0;0;9 9;0;0 0 5\n TRI 0;0;0 1;0;0 0;1;0 0 4\nTRI 2;2;2 3;2;2 2;3;2 0 5"
      (Scripted.new none none : Scripted Float)).result
        = .ok (["AREA 1 1", "TRI 9223372036854775807;0;-2 0;0;9 9;0;0 0 5",
          "TRI 2;2;2 3;2;2 2;3;2 0 5", "TRI 0;0;0 1;0;0 0;1;0 0 4"], ⟨1, 1, 2, 0, 3, 3⟩) := by
    decide +kernel
  have hfailed : (process Settings.standard
      "AREA 1 1\nTRI 1e19;0.5;-2.5 0;0;9 9;0;0 0 5\n TRI 0;0;0 1;0;0 0;1;0 0 4\nTRI 2;2;2 3;2;2 2;3;2 0 5"
      (Scripted.new (some .dissolve) none : Scripted Float)).result
        = .ok (["AREA 1 1", "TRI 1e19;0.5;-2.5 0;0;9 9;0;0 0 5",
          "TRI 2;2;2 3;2;2 2;3;2 0 5", "TRI 0;0;0 1;0;0 0;1;0 0 4"], ⟨1, 1, 2, 2, 3, 3⟩) := by
    decide +kernel
  have hpass : Pass.dissolve Settings.standard.tolerances.dissolveAngle
      ∈ Settings.standard.tolerances.passes := by
    simp [Tolerances.passes]
  have hfails := Scripted.failsAt (.dissolve Settings.standard.tolerances.dissolveAngle)
  have hstays := process_idempotent hfailed
  exact ⟨(process_idempotent hkept).1 ⟨_, Scripted.keepsGeometry⟩,
    (hstays.2 rfl ⟨_, hpass, hfails⟩).2 (Scripted.failsLocally _)⟩

end CollisionMesh
