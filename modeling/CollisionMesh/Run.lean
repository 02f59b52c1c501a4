import CollisionMesh.Record.Line

namespace CollisionMesh

open Text

/-!
# Runs and groups

A run is a stretch of consecutive triangle lines. Its first line says whether the
run carries keys. The triangles of a run are grouped by key, the groups standing
in the order in which their keys first appear.

* `KeyPolicy` — what becomes of a key in a run that carries none;
* `Group`, `Run` — the triangles of one key, and all groups of a stretch;
* `Run.add` — a run with one triangle more;
* `Collector` — the reader of a document line by line, which collects triangles
  until the run ends;
* `Collector.push`, `Collector.finish` — its two steps.
-/

/-- What becomes of a key in a run whose first line has none. -/
inductive KeyPolicy where
  /-- The key is dropped, and the line is reported. -/
  | lenient
  /-- The line is malformed. -/
  | strict
deriving DecidableEq, Repr

/-- A triangle with the line that it was read from, without the blanks around. -/
structure Member where
  record : Record
  source : String
deriving DecidableEq

/-- The triangles of one run that share a key, and the lines that they were read from. -/
structure Group where
  key : Key
  /-- Whether the run carries keys. -/
  keyed : Bool
  triangles : Array Record
  lines : Array String
  /-- Each triangle was read from a line. -/
  parallel : lines.size = triangles.size
deriving DecidableEq

namespace Group

/-- A group without triangles. -/
def empty (key : Key) (keyed : Bool) : Group :=
  ⟨key, keyed, #[], #[], rfl⟩

/-- A group with one triangle more. -/
def push (g : Group) (m : Member) : Group :=
  { g with
    triangles := g.triangles.push m.record
    lines := g.lines.push m.source
    parallel := by rw [Array.size_push, Array.size_push, g.parallel] }

@[simp] theorem key_empty (key : Key) (keyed : Bool) : (empty key keyed).key = key := rfl

@[simp] theorem key_push (g : Group) (m : Member) : (g.push m).key = g.key := rfl

/-- The triangles, in reading order. -/
def records (g : Group) : List Record :=
  g.triangles.toList

/-- The lines that the triangles were read from, in reading order. -/
def sources (g : Group) : List String :=
  g.lines.toList

/-- The number of triangles. -/
def size (g : Group) : Nat :=
  g.triangles.size

@[simp] theorem length_records (g : Group) : g.records.length = g.size := rfl

/-- **Two lists.** A group has as many lines as triangles. -/
@[simp] theorem length_sources (g : Group) : g.sources.length = g.size :=
  g.parallel

end Group

/-- A stretch of consecutive triangle lines, grouped by key. -/
structure Run where
  /-- Whether the first line carries a key. -/
  keyed : Bool
  groups : List Group
deriving DecidableEq

namespace Run

/-- The number of triangles. -/
def size (r : Run) : Nat :=
  r.groups.foldr (fun g n => g.size + n) 0

/-- A triangle added to the group of its key, or as a new group at the end. -/
def addTo (keyed : Bool) (m : Member) : List Group → List Group
  | [] => [(Group.empty m.record.groupKey keyed).push m]
  | g :: rest =>
    if g.key = m.record.groupKey then g.push m :: rest
    else g :: addTo keyed m rest

/-- A run with one triangle more. -/
def add (r : Run) (m : Member) : Run :=
  { r with groups := addTo r.keyed m r.groups }

/-- The run that a first triangle starts. -/
def start (m : Member) : Run :=
  add ⟨m.record.key.isSome, []⟩ m

end Run

/-- The reader of a document line by line. -/
structure Collector where
  policy : KeyPolicy
  /-- How many lines were read. -/
  lineNumber : Nat
  /-- The run that is being read. -/
  pending : Option Run

/-- What a line turned out to be. -/
inductive Step where
  /-- A triangle of the pending run. It is ambiguous if its key was dropped. -/
  | collected (ambiguous : Bool)
  /-- Any other line, without the blanks around, and the run that it ends. -/
  | control (ended : Option Run) (line : String)

namespace Collector

/-- A reader before the first line. -/
def new (policy : KeyPolicy) : Collector :=
  ⟨policy, 0, none⟩

/-- Whether a run is being read. -/
def isCollecting (c : Collector) : Bool :=
  c.pending.isSome

/-- A triangle as it joins a run, and whether its key was dropped: the run and the
    triangle must agree on keys, but a lenient reader drops a key too many. -/
def reconcile (policy : KeyPolicy) (run : Run) (record : Record) :
    Except LineFault (Record × Bool) :=
  match run.keyed, record.key with
  | true, some _ | false, none => .ok (record, false)
  | true, none => .error .missingKey
  | false, some _ =>
    match policy with
    | .lenient => .ok (record.withoutKey, true)
    | .strict => .error .unexpectedKey

/-- The run with a triangle line added, and whether its key was dropped. Where no
    run is pending the line starts one. -/
def collect (policy : KeyPolicy) (pending : Option Run) (line : String) :
    Except LineFault (Run × Bool) := do
  let record ← Record.ofLine line
  match pending with
  | none => return (Run.start ⟨record, line⟩, false)
  | some run =>
    let (record, ambiguous) ← reconcile policy run record
    return (run.add ⟨record, line⟩, ambiguous)

/-- Reads the next line. A malformed one is counted and otherwise ignored. -/
def push (raw : String) (c : Collector) : Except Error Step × Collector :=
  let line := trim raw
  let number := c.lineNumber + 1
  match LineKind.of line with
  | .triangle =>
    match collect c.policy c.pending line with
    | .error fault => (.error (.malformed number fault), { c with lineNumber := number })
    | .ok (run, ambiguous) =>
      (.ok (.collected ambiguous), { c with lineNumber := number, pending := some run })
  | _ => (.ok (.control c.pending line), { c with lineNumber := number, pending := none })

/-- Ends the document and with it the pending run. -/
def finish (c : Collector) : Option Run × Collector :=
  (c.pending, { c with pending := none })

end Collector

end CollisionMesh
