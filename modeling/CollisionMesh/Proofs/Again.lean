import CollisionMesh.Proofs.Blocks

namespace CollisionMesh

open Text

/-!
# Documents processed again

What is written for a document is read as it stands, can be processed by the same settings,
and only loses triangles and keys when it is. So a document can be processed any number of
times, each time as it was written the time before.

* `ThinsOut` — a document with the same control lines and thinner gaps;
* `process_ok_iff` — a document is rewritten iff all its gaps can be read;
* `trim_lines_render_of_process` — what was written is read as it stands;
* `thinsOut_of_process`, `readable_of_process` — and was thinned out, gap by gap, to gaps
  that can be read;
* `processAgain` — processing what was processed;
* `process_again` — all of it.
-/

/-- A document with the control lines of another, each gap of which lost triangles or keys at
    most. -/
structure ThinsOut (before after : List String) : Prop where
  controls : controls after = controls before
  gaps : List.Forall₂ Thins (gaps before) (gaps after)

theorem ThinsOut.refl (lines : List String) : ThinsOut lines lines :=
  ⟨rfl, List.forall₂_same.mpr fun gap _ => .refl gap⟩

/-- Gaps that were thinned twice were thinned. -/
private theorem forall₂_thins_trans {first second third : List (List String)}
    (h₁ : List.Forall₂ Thins first second) (h₂ : List.Forall₂ Thins second third) :
    List.Forall₂ Thins first third := by
  induction h₁ generalizing third with
  | nil =>
    cases h₂
    exact .nil
  | cons hgap _ ih =>
    cases h₂ with
    | cons hgap' hrest => exact .cons (hgap.trans hgap') (ih hrest)

theorem ThinsOut.trans {first second third : List String} (h₁ : ThinsOut first second)
    (h₂ : ThinsOut second third) : ThinsOut first third :=
  ⟨h₂.controls.trans h₁.controls, forall₂_thins_trans h₁.gaps h₂.gaps⟩

section

variable [Clipper Float]

/-! ### Processing once -/

/-- **Success.** A document is rewritten iff all its gaps can be read. -/
theorem process_ok_iff {scene : Scene Float} (h : scene.Reached) {s : Settings} {text : String} :
    (∃ written report, (process s text scene).result = .ok (written, report)) ↔
      ∀ gap ∈ gaps ((lines text).map trim), Readable s.keyPolicy gap := by
  rw [forall_gaps_readable_iff, ← Document.fault_eq_none_iff]
  constructor
  · rintro ⟨written, report, hok⟩
    exact fault_eq_none_of_process h hok
  · exact exists_written_of_fault_eq_none s text h

variable {scene : Scene Float} {s : Settings} {text : String} {written : List String}
  {report : Report}

/-- What is written for a document is read as it stands. -/
theorem trim_lines_render_of_process (h : scene.Reached)
    (hok : (process s text scene).result = .ok (written, report)) :
    (lines (render written)).map trim = written := by
  rw [process_lines h hok]
  exact trim_lines_render_rewrittenBy (Group.isBlock_block s) text

/-- A document that is rewritten is thinned out. -/
theorem thinsOut_of_process (h : scene.Reached)
    (hok : (process s text scene).result = .ok (written, report)) :
    ThinsOut ((lines text).map trim) written := by
  have hread := (process_ok_iff h).mp ⟨written, report, hok⟩
  rw [process_lines h hok]
  refine ⟨controls_rewritten s _, ?_⟩
  rw [gaps_rewritten, List.forall₂_map_right_iff, List.forall₂_same]
  exact fun gap hgap => thins_blocks s (hread gap hgap)

/-- All gaps of a document that was rewritten can be read. -/
theorem readable_of_process (h : scene.Reached)
    (hok : (process s text scene).result = .ok (written, report)) :
    ∀ gap ∈ gaps written, Readable s.keyPolicy gap := by
  have hread := (process_ok_iff h).mp ⟨written, report, hok⟩
  rw [process_lines h hok, gaps_rewritten]
  intro gap hgap
  obtain ⟨source, hsource, rfl⟩ := List.mem_map.mp hgap
  exact readable_blocks s (hread source hsource)

/-! ### Processing again -/

/-- **The next time.** In any scene, a document that was rewritten is rewritten again. -/
theorem exists_again (h : scene.Reached)
    (hok : (process s text scene).result = .ok (written, report)) {later : Scene Float}
    (hlater : later.Reached) :
    ∃ again report', (process s (render written) later).result = .ok (again, report') ∧
      ThinsOut written again := by
  have hlines := trim_lines_render_of_process h hok
  have hread : ∀ gap ∈ gaps ((lines (render written)).map trim), Readable s.keyPolicy gap := by
    rw [hlines]
    exact readable_of_process h hok
  obtain ⟨again, report', hagain⟩ := (process_ok_iff hlater).mpr hread
  exact ⟨again, report', hagain, hlines ▸ thinsOut_of_process hlater hagain⟩

/-- A document processed, and then a number of times again as it was written the time before,
    until it cannot be. -/
def processAgain {σ : Type} [MeshEditor Float σ] (s : Settings) (text : String) (editor : σ) :
    Nat → Outcome σ
  | 0 => process s text editor
  | n + 1 =>
    match (processAgain s text editor n).result with
    | .ok (written, _) => process s (render written) (processAgain s text editor n).editor
    | .error _ => processAgain s text editor n

/-- **Again and again.** In any scene that requests lead to, what is written for a document is
    read as it stands, and a document of that text is rewritten again in any such scene. It
    keeps its control lines and loses triangles and keys at most, as it did the first time,
    and so it does any number of times. -/
theorem process_again (h : scene.Reached)
    (hok : (process s text scene).result = .ok (written, report)) :
    (lines (render written)).map trim = written ∧
      ThinsOut ((lines text).map trim) written ∧
      (∀ later : Scene Float, later.Reached → ∃ again report',
        (process s (render written) later).result = .ok (again, report') ∧
          ThinsOut written again) ∧
      ∀ n, ∃ last report', (processAgain s text scene n).result = .ok (last, report') ∧
        ThinsOut written last := by
  refine ⟨trim_lines_render_of_process h hok, thinsOut_of_process h hok,
    fun later hlater => exists_again h hok hlater, ?_⟩
  -- Each time a document is processed that was rewritten, in the scene that the last one left.
  have htimes : ∀ n, ∃ source : String, ∃ before : Scene Float, before.Reached ∧
      processAgain s text scene n = process s source before ∧
      ∃ last report', (process s source before).result = .ok (last, report') ∧
        ThinsOut written last := by
    intro n
    induction n with
    | zero => exact ⟨text, scene, h, rfl, written, report, hok, .refl written⟩
    | succ n ih =>
      obtain ⟨source, before, hbefore, heq, last, report', hlast, hthins⟩ := ih
      have hafter := process_reached s source hbefore
      obtain ⟨again, report'', hagain, hthins'⟩ := exists_again hbefore hlast hafter
      refine ⟨render last, _, hafter, ?_, again, report'', hagain, hthins.trans hthins'⟩
      rw [processAgain, heq, hlast]
  intro n
  obtain ⟨source, before, -, heq, last, report', hlast, hthins⟩ := htimes n
  exact ⟨last, report', heq ▸ hlast, hthins⟩

end

/-- A run without keys of two points, the second with a key that does not count: both are kept
    as they are, also the key, and can be processed again. -/
theorem process_again_ambiguous :
    (process Settings.standard "AREA 1 1\nTRI 0;0;0 0;0;0 0;0;0\n TRI 1;1;1 1;1;1 1;1;1 0 5"
        (Scene.new : Scene Float)).result
      = .ok (["AREA 1 1", "TRI 0;0;0 0;0;0 0;0;0", "TRI 1;1;1 1;1;1 1;1;1 0 5"],
        ⟨1, 1, 1, 1, 2, 2⟩) ∧
    ∀ n, ∃ last report', (processAgain Settings.standard
        "AREA 1 1\nTRI 0;0;0 0;0;0 0;0;0\n TRI 1;1;1 1;1;1 1;1;1 0 5"
        (Scene.new : Scene Float) n).result = .ok (last, report') ∧
      ThinsOut ["AREA 1 1", "TRI 0;0;0 0;0;0 0;0;0", "TRI 1;1;1 1;1;1 1;1;1 0 5"] last := by
  have hok : (process Settings.standard
      "AREA 1 1\nTRI 0;0;0 0;0;0 0;0;0\n TRI 1;1;1 1;1;1 1;1;1 0 5"
      (Scene.new : Scene Float)).result
        = .ok (["AREA 1 1", "TRI 0;0;0 0;0;0 0;0;0", "TRI 1;1;1 1;1;1 1;1;1 0 5"],
          ⟨1, 1, 1, 1, 2, 2⟩) := by
    decide +kernel
  exact ⟨hok, (process_again .new hok).2.2.2⟩

end CollisionMesh
