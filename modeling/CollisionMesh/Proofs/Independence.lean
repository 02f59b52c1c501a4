import CollisionMesh.Proofs.Offences
import CollisionMesh.Proofs.Rewriting

namespace CollisionMesh

open Text

/-!
# Documents do not influence each other

A scene goes from document to document, and some of them may end early. What a document
becomes is the same in all these scenes: line by line as it is, run by run the block of
every key, which is what the triangles of the key alone become in a new scene.

* `Scene.Worked` — the scenes that documents leave;
* `process_eq_rewritten` — what a document becomes in any of them;
* `process_drop_ne_sources` — the lines of a group that fails are not always kept.
-/

section

variable [Clipper Float]

/-- The scenes that documents leave, one after the other, whether they are rewritten or a
    malformed line ends them. -/
inductive Scene.Worked : Scene Float → Prop where
  | new : Worked Scene.new
  | process {scene : Scene Float} (s : Settings) (text : String) :
    Worked scene → Worked (CollisionMesh.process s text scene).editor

theorem Scene.Worked.reached {scene : Scene Float} (h : scene.Worked) : scene.Reached := by
  induction h with
  | new => exact .new
  | process s text _ ih => exact process_reached s text ih

/-- **Independence.** Whatever was processed in the scene before, a document that is
    rewritten is rewritten passage by passage, and all its triangle lines are records. -/
theorem process_eq_rewritten {scene : Scene Float} (h : scene.Worked) {s : Settings}
    {text : String} {written : List String} {report : Report}
    (hok : (process s text scene).result = .ok (written, report)) :
    written = rewritten s ((lines text).map trim) ∧
      ∀ line ∈ (lines text).map trim, isTriangle line = true → ∃ r, Record.ofLine line = .ok r :=
  ⟨process_lines h.reached hok,
    fun _ hline htri =>
      Document.exists_record (fault_eq_none_of_process h.reached hok) hline htri⟩

end

/-- Two groups whose lines alternate, between a header and a type, in a scene where an earlier
    document made two meshes. -/
theorem process_eq_rewritten_alternating :
    let before := "TRI 0;0;0 0;0;0 0;0;0 0 1\nTRI 0;0;0 0;0;0 0;0;0 0 2"
    let text := "AREA 1 1\n TRI 0;0;0 1;0;0 0;1;0 0 5\nTRI 7;7;7 8;7;7 7;8;7 0 7\n\tTRI 1;0;0 1;1;0 0;1;0 0 5\nCOLLISIONTYPE 3"
    let written := ["AREA 1 1", "TRI 0;0;0 1;0;0 0;1;0 0 5", "TRI 1;0;0 1;1;0 0;1;0 0 5",
      "TRI 7;7;7 8;7;7 7;8;7 0 7", "COLLISIONTYPE 3"]
    let scene := (process Settings.standard before (Scene.new : Scene Float)).editor
    scene.nextId = 2 ∧
    (process Settings.standard text scene).result = .ok (written, ⟨2, 1, 2, 2, 3, 3⟩) ∧
    written = rewritten Settings.standard ((lines text).map trim) := by
  intro before text written scene
  have hok : (process Settings.standard text scene).result = .ok (written, ⟨2, 1, 2, 2, 3, 3⟩) := by
    decide +kernel
  exact ⟨by decide +kernel, hok, (process_eq_rewritten (.process Settings.standard before .new) hok).1⟩

/-- The lines of a group that fails are not kept under every failure policy: one that drops
    them leaves nothing of a triangle that is a point. -/
theorem process_drop_ne_sources :
    ¬ ∀ (s : Settings) (text : String) (written : List String) (report : Report),
      (process s text (Scene.new : Scene Float)).result = .ok (written, report) →
      written = rewritten { s with failurePolicy := .passThrough } ((lines text).map trim) := by
  intro h
  -- The first is what would hold where lines are dropped, the second what happens where they are kept.
  have hdropped : [] = rewritten Settings.standard ((lines "TRI 0;0;0 0;0;0 0;0;0").map trim) :=
    h { Settings.standard with failurePolicy := .drop } "TRI 0;0;0 0;0;0 0;0;0" []
      ⟨0, 1, 1, 1, 1, 0⟩ (by decide +kernel)
  have hkept : (process Settings.standard "TRI 0;0;0 0;0;0 0;0;0" (Scene.new : Scene Float)).result
      = .ok (["TRI 0;0;0 0;0;0 0;0;0"], ⟨0, 1, 1, 1, 1, 1⟩) := by
    decide +kernel
  exact absurd (hdropped.trans (process_lines .new hkept).symm) (by simp)

end CollisionMesh
