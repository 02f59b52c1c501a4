import CollisionMesh.Run
import Std.Data.HashMap

namespace CollisionMesh

open Text

/-!
# Grouping with an index

A reader of documents that does not look through the groups of the pending run for every triangle,
but finds the group of a key by an index. It answers as `Collector` does.

* `Gathering` — whether a run is being read, and whether it carries keys;
* `Accumulator` — the reader, with the groups of the run and the index of their keys;
* `Accumulator.push`, `Accumulator.finish` — its two steps.
-/

deriving instance Hashable for Key

/-- Whether a run is being read. -/
inductive Gathering where
  | idle
  /-- A run whose first line has a key or has none. -/
  | collecting (keyed : Bool)
deriving DecidableEq, Repr

/-- The reader of a document line by line, with an index. -/
structure Accumulator where
  policy : KeyPolicy
  state : Gathering
  /-- The groups of the run that is being read. -/
  groups : Array Group
  /-- The position of the group of a key. -/
  index : Std.HashMap Key Nat
  /-- How many lines were read. -/
  lineNumber : Nat

namespace Accumulator

/-- A reader before the first line. -/
def new (policy : KeyPolicy) : Accumulator :=
  ⟨policy, .idle, #[], ∅, 0⟩

/-- Whether a run is being read. -/
def isCollecting (a : Accumulator) : Bool :=
  a.state != .idle

/-- The position of the group of a key, which is a new one at the end if there is none. -/
def slot (keyed : Bool) (k : Key) (a : Accumulator) : Nat × Accumulator :=
  match a.index[k]? with
  | some i => (i, a)
  | none =>
    (a.groups.size, { a with
      groups := a.groups.push (.empty k keyed)
      index := a.index.insert k a.groups.size })

/-- A triangle put into the group of its key. -/
def insert (keyed : Bool) (m : Member) (a : Accumulator) : Accumulator :=
  let (i, a) := a.slot keyed m.record.groupKey
  { a with groups := a.groups.modify i (·.push m) }

/-- Ends the run that is being read. -/
def takeRun (a : Accumulator) : Option Run × Accumulator :=
  match a.state with
  | .idle => (none, a)
  | .collecting keyed =>
    (some ⟨keyed, a.groups.toList⟩, { a with state := .idle, groups := #[], index := ∅ })

/-- Reads the next line. The first triangle of a run decides on keys before it is known whether
    the line joins the run. -/
def push (raw : String) (a : Accumulator) : Except Error Step × Accumulator :=
  let a := { a with lineNumber := a.lineNumber + 1 }
  let line := trim raw
  match LineKind.of line with
  | .triangle =>
    match (Record.ofLoneLine line).mapError (Error.atLine a.lineNumber) with
    | .error e => (.error e, a)
    | .ok record =>
      let (keyed, a) := match a.state with
        | .collecting keyed => (keyed, a)
        | .idle => (record.key.isSome, { a with state := .collecting record.key.isSome })
      match keyed, record.key with
      | true, some _ | false, none => (.ok (.collected false), a.insert keyed ⟨record, line⟩)
      | true, none => (.error (.malformed a.lineNumber .missingKey), a)
      | false, some _ =>
        match a.policy with
        | .lenient => (.ok (.collected true), a.insert keyed ⟨record.withoutKey, line⟩)
        | .strict => (.error (.malformed a.lineNumber .unexpectedKey), a)
  | _ =>
    let (ended, a) := a.takeRun
    (.ok (.control ended line), a)

/-- Ends the document and with it the run that is being read. -/
def finish (a : Accumulator) : Option Run × Accumulator :=
  a.takeRun

end Accumulator

end CollisionMesh
