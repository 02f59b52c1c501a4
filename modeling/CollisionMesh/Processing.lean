import CollisionMesh.Document
import CollisionMesh.Settings
import CollisionMesh.Simplified

namespace CollisionMesh

open Text

/-!
# Processing documents

A document is rewritten item by item: control lines are copied, and the groups of a
run are simplified one after the other where the run ends. The editor is cleared
after each group and once more at the end of a document without errors.

* `Report`, `Event` — the counts of a document, and what happened in turn;
* `Progress` — a document part way through;
* `emitGroup`, `emitItem` — a group and an item written out;
* `processLines`, `process` — a whole document; `events_processLines`, `processLines_eq_ok_iff` — what
  is told of it, and when it is rewritten.
-/

/-- What was counted in a document. -/
structure Report where
  controlLines : Nat := 0
  /-- Runs of triangles. -/
  runs : Nat := 0
  groups : Nat := 0
  groupsFailed : Nat := 0
  trianglesIn : Nat := 0
  trianglesOut : Nat := 0
deriving DecidableEq, Repr

namespace Report

/-- The counts in a sentence. -/
def text (r : Report) : String :=
  s!"{r.groups} groups in {r.runs} runs ({r.groupsFailed} failed), "
    ++ s!"{r.trianglesIn} -> {r.trianglesOut} triangles, {r.controlLines} control lines"

/-- One control line more. -/
def addControl (r : Report) : Report :=
  { r with controlLines := r.controlLines + 1 }

/-- One run more. -/
def addRun (r : Report) : Report :=
  { r with runs := r.runs + 1 }

/-- One group of some triangles more. -/
def addGroup (triangles : Nat) (r : Report) : Report :=
  { r with groups := r.groups + 1, trianglesIn := r.trianglesIn + triangles }

/-- One failure more. -/
def addFailure (r : Report) : Report :=
  { r with groupsFailed := r.groupsFailed + 1 }

/-- Some triangles written out. -/
def addOutput (triangles : Nat) (r : Report) : Report :=
  { r with trianglesOut := r.trianglesOut + triangles }

end Report

/-- What happened while a document was processed. -/
inductive Event where
  /-- A control line was copied. -/
  | control (line : Nat) (text : String)
  /-- A group of some triangles became one of some others. -/
  | simplified (key : Key) (trianglesIn trianglesOut : Nat)
  /-- A group could not be simplified. -/
  | failed (key : Key) (error : Error)
  /-- A key was dropped. -/
  | ambiguous (line : Nat)
deriving DecidableEq, Repr

/-- A document part way through. -/
structure Progress (σ : Type) where
  editor : σ
  lines : Array String
  report : Report
  events : Array Event

namespace Progress

variable {σ : Type}

/-- Before the first line. -/
def start (editor : σ) : Progress σ :=
  ⟨editor, #[], {}, #[]⟩

/-- Some lines written out. -/
def write (lines : List String) (p : Progress σ) : Progress σ :=
  { p with lines := p.lines ++ lines }

/-- Something counted. -/
def count (f : Report → Report) (p : Progress σ) : Progress σ :=
  { p with report := f p.report }

/-- Something told. -/
def tell (e : Event) (p : Progress σ) : Progress σ :=
  { p with events := p.events.push e }

end Progress

variable {σ : Type} [MeshEditor Float σ]

/-- A group as records with few triangles. -/
def simplifyGroup (t : Tolerances Float) (g : Group) (editor : σ) :
    Except Error (List Record) × σ :=
  let (faces, editor) := simplify t (meshOfRecords g.records) editor
  (faces.bind fun faces => recordsOfFaces faces g.key g.keyed, editor)

/-- Writes a group out: simplified, or by the failure policy if the editor refuses
    it. Any other failure ends the document. -/
def emitGroup (s : Settings) (g : Group) (p : Progress σ) :
    Except Error Unit × Progress σ :=
  let p := p.count (Report.addGroup g.size)
  let (answer, editor) := simplifyGroup s.tolerances g p.editor
  let p := { p with editor := MeshEditor.clearAll editor }
  match answer with
  | .ok records =>
    (.ok (), ((p.tell (.simplified g.key g.size records.length)).count
      (Report.addOutput records.length)).write (records.map Record.line))
  | .error e =>
    if e.isGroupLocal then
      let p := (p.tell (.failed g.key e)).count Report.addFailure
      match s.failurePolicy with
      | .passThrough => (.ok (), (p.count (Report.addOutput g.size)).write g.sources)
      | .drop => (.ok (), p)
    else (.error e, p)

/-- Writes an item out. -/
def emitItem (s : Settings) (item : Item) (p : Progress σ) : Except Error Unit × Progress σ :=
  match item with
  | .ambiguous line => (.ok (), p.tell (.ambiguous line))
  | .control line text =>
    (.ok (), ((p.tell (.control line text)).count Report.addControl).write [text])
  | .run r => forEach (emitGroup s) r.groups (p.count Report.addRun)

/-- What came of a document: the lines and the counts, or what ended it, with all
    that happened until then. -/
structure Outcome (σ : Type) where
  result : Except Error (List String × Report)
  events : List Event
  editor : σ

/-- Processes a document by its lines. -/
def processLines (s : Settings) (lines : List String) (editor : σ) : Outcome σ :=
  let document := Document.ofLines s.keyPolicy lines
  match forEach (emitItem s) document.items (Progress.start editor) with
  | (.error e, p) => ⟨.error e, p.events.toList, p.editor⟩
  | (.ok (), p) =>
    match document.fault with
    | some e => ⟨.error e, p.events.toList, p.editor⟩
    | none => ⟨.ok (p.lines.toList, p.report), p.events.toList, MeshEditor.clearAll p.editor⟩

/-- Processes a document. -/
def process (s : Settings) (text : String) (editor : σ) : Outcome σ :=
  processLines s (lines text) editor

/-- What is told of a document is told of its items. -/
theorem events_processLines (s : Settings) (raws : List String) (editor : σ) :
    (processLines s raws editor).events
      = (forEach (emitItem s) (Document.ofLines s.keyPolicy raws).items
          (Progress.start editor)).2.events.toList := by
  unfold processLines
  dsimp only
  obtain ⟨answer, p⟩ := forEach (emitItem s) (Document.ofLines s.keyPolicy raws).items
    (Progress.start editor)
  cases answer <;> cases (Document.ofLines s.keyPolicy raws).fault <;> rfl

/-- A document is rewritten iff none of its lines is malformed and all its items are written out. -/
theorem processLines_eq_ok_iff {s : Settings} {raws written : List String} {report : Report}
    {editor : σ} :
    (processLines s raws editor).result = .ok (written, report) ↔
      (Document.ofLines s.keyPolicy raws).fault = none ∧
        ∃ p, forEach (emitItem s) (Document.ofLines s.keyPolicy raws).items (Progress.start editor)
            = (.ok (), p) ∧ p.lines.toList = written ∧ p.report = report := by
  unfold processLines
  dsimp only
  obtain ⟨answer, p⟩ := forEach (emitItem s) (Document.ofLines s.keyPolicy raws).items
    (Progress.start editor)
  cases answer <;> cases (Document.ofLines s.keyPolicy raws).fault <;> simp

end CollisionMesh
