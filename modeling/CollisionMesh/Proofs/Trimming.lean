import CollisionMesh.AreaMap
import CollisionMesh.Editor.Scene
import CollisionMesh.Processing
import CollisionMesh.Proofs.Text
import CollisionMesh.Run.Accumulator

namespace CollisionMesh

open Text

/-!
# The blanks around lines

Whoever reads a line sees the same with and without the blanks around it: some trim it, and the
others read its words. So only the trimmed lines of a document matter, however they are ended and
indented, and a document that is rendered again says what it said.

* `LineKind.of_trim`, `Record.ofLine_trim`, `Collector.push_trim`, `Accumulator.push_trim` — the
  readers of a line;
* `Document.ofLines_map_trim`, `AreaMap.Reader.run_map_trim` — the readers of a document;
* `LineKind.of_indented`, `Record.ofLine_indented`, `indented_indented`, `render_map_indented` —
  indenting;
* `trimmed_lines_decide` — all of it.
-/

/-! ### Lines -/

@[simp] theorem LineKind.of_trim (line : String) : LineKind.of (trim line) = LineKind.of line := by
  rw [LineKind.of, words_trim, LineKind.of]

@[simp] theorem Record.ofLine_trim (line : String) : Record.ofLine (trim line) = Record.ofLine line := by
  rw [Record.ofLine, words_trim, Record.ofLine]

theorem Collector.push_trim (raw : String) (c : Collector) : c.push (trim raw) = c.push raw := by
  rw [Collector.push, trim_trim, Collector.push]

theorem Accumulator.push_trim (raw : String) (a : Accumulator) : a.push (trim raw) = a.push raw := by
  rw [Accumulator.push, trim_trim, Accumulator.push]

/-! ### Documents -/

theorem Document.scan_map_trim (c : Collector) (earlier : Array Item) (lines : List String) :
    scan c earlier (lines.map trim) = scan c earlier lines := by
  induction lines generalizing c earlier with
  | nil => rfl
  | cons line rest ih =>
    rw [List.map_cons, scan, scan, Collector.push_trim]
    split
    · rfl
    · exact ih _ _

/-- **Items.** The items of a document are those of its trimmed lines. -/
theorem Document.ofLines_map_trim (policy : KeyPolicy) (lines : List String) :
    ofLines policy (lines.map trim) = ofLines policy lines :=
  scan_map_trim _ _ _

theorem processLines_map_trim {σ : Type} [MeshEditor Float σ] (s : Settings) (lines : List String)
    (editor : σ) : processLines s (lines.map trim) editor = processLines s lines editor := by
  rw [processLines, Document.ofLines_map_trim, processLines]

/-- **Areas.** So are its areas, and the line and the reason of the first fault. -/
theorem AreaMap.Builder.run_map_trim (b : Builder) (number : Nat) (lines : List String) :
    b.run number (lines.map trim) = b.run number lines := by
  induction lines generalizing b number with
  | nil => rfl
  | cons line rest ih =>
    rw [List.map_cons, run, run, words_trim]
    split
    · rfl
    · exact ih _ _

/-! ### Indented lines -/

/-- Tabs in front of a line are no part of its words either. -/
theorem words_indented (line : String) : words (indented line).toList = words line.toList := by
  rw [← words_trim (indented line), trim_indented, words_trim]

@[simp] theorem LineKind.of_indented (line : String) :
    LineKind.of (indented line) = LineKind.of line := by
  rw [LineKind.of, words_indented, LineKind.of]

@[simp] theorem Record.ofLine_indented (line : String) :
    Record.ofLine (indented line) = Record.ofLine line := by
  rw [Record.ofLine, words_indented, Record.ofLine]

/-- A line is indented for good. -/
@[simp] theorem indented_indented (line : String) : indented (indented line) = indented line := by
  rw [indented, LineKind.of_indented, trim_indented, indented]

theorem render_map_indented (lines : List String) : render (lines.map indented) = render lines := by
  rw [render, List.map_map, render]
  exact congrArg String.join (List.map_congr_left fun line _ => by simp)

/-! ### The result -/

/-- **Trimmed lines.** Documents with the same trimmed lines are read as the same areas or have the
    same fault in the same line, and processing them gives the same lines and counts or the same
    error, the same events and the same editor. A document that is rendered has the same trimmed
    lines, and is rendered as it is. A line that is indented has the same kind, is read as the same
    record or has the same fault, and is indented as it is. -/
theorem trimmed_lines_decide :
    (∀ text text' : String, (lines text).map trim = (lines text').map trim →
      AreaMap.parse text = AreaMap.parse text' ∧
        ∀ (σ : Type) [MeshEditor Float σ] (s : Settings) (editor : σ),
          process s text editor = process s text' editor) ∧
    (∀ text : String, (lines (render (lines text))).map trim = (lines text).map trim ∧
      render (lines (render (lines text))) = render (lines text)) ∧
    ∀ line : String, LineKind.of (indented line) = LineKind.of line ∧
      Record.ofLine (indented line) = Record.ofLine line ∧
      indented (indented line) = indented line := by
  refine ⟨?_, ?_, fun line => ⟨by simp, by simp, by simp⟩⟩
  · intro text text' h
    constructor
    · rw [AreaMap.parse, ← AreaMap.Builder.run_map_trim, h, AreaMap.Builder.run_map_trim,
        AreaMap.parse]
    · intro σ _ s editor
      rw [process, ← processLines_map_trim, h, processLines_map_trim, process]
  · intro text
    have hlines : lines (render (lines text)) = (lines text).map indented :=
      lines_render fun _ => not_mem_of_mem_lines
    rw [hlines, render_map_indented, List.map_map]
    exact ⟨List.map_congr_left fun line _ => trim_indented line, rfl⟩

/-- Lines ended in two ways, with other blanks around them, and a blank line. -/
theorem trimmed_lines_decide_returns :
    let text := "AREA 1 1\r\n\u2003TRI 0;0;0 1;0;0 0;1;0\u00A0\r\n\t\r\n"
    let text' := "  AREA 1 1\n\t\tTRI 0;0;0 1;0;0 0;1;0\n "
    (lines text).map trim = (lines text').map trim ∧ AreaMap.parse text = AreaMap.parse text' ∧
      process Settings.standard text (Scene.new : Scene Float)
        = process Settings.standard text' Scene.new := by
  intro text text'
  have h : (lines text).map trim = (lines text').map trim := by decide +kernel
  obtain ⟨hparse, hprocess⟩ := trimmed_lines_decide.1 text text' h
  exact ⟨h, hparse, hprocess (Scene Float) Settings.standard Scene.new⟩

end CollisionMesh
