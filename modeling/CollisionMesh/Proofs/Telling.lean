import CollisionMesh.Proofs.Offences
import CollisionMesh.Proofs.Rewriting

namespace CollisionMesh

open Text

/-!
# What is told while a document is processed

Every group of a document is told once, in any scene, and so are its control lines and the
lines whose key was dropped. Where a malformed line ends the document, nothing is told of
that line, of the run that it would have joined, or of anything after it.

* `Group.event`, `Item.events` — what is told of a group and of an item;
* `emitGroup_tells`, `emitItem_tells` — a group and an item are told so;
* `processLines_events` — a document is told item by item;
* `process_stops_at_first_offence` — which line ends a document, and what was told before.
-/

section

variable [Clipper Float]

/-! ### Groups and items -/

/-- What is told of a group. -/
def Group.event (t : Tolerances Float) (g : Group) : Event :=
  match g.simplified t with
  | .ok rs => .simplified g.key g.size rs.length
  | .error e => .failed g.key e

/-- What is told of an item. -/
def Item.events (t : Tolerances Float) : Item → List Event
  | .control line text => [.control line text]
  | .ambiguous line => [.ambiguous line]
  | .run r => r.groups.map (Group.event t)

/-- **Groups.** A group is told, whatever becomes of it. -/
theorem emitGroup_tells (s : Settings) (g : Group) {p : Progress (Scene Float)}
    (hp : p.editor.Reached) :
    ∃ p', emitGroup s g p = (.ok (), p') ∧ p'.editor.Reached ∧
      p'.events.toList = p.events.toList ++ [g.event s.tolerances] := by
  obtain ⟨scene, hscene, ⟨rs, hrs, heq⟩ | ⟨e, he, ⟨-, heq⟩ | ⟨-, heq⟩⟩⟩ := emitGroup_cases s g hp
  · refine ⟨_, heq, hscene, ?_⟩
    simp [Group.event, hrs, Progress.afterGroup, Progress.count, Progress.tell, Progress.write]
  · refine ⟨_, heq, hscene, ?_⟩
    simp [Group.event, he, Progress.afterGroup, Progress.afterFailure, Progress.count,
      Progress.tell, Progress.write]
  · refine ⟨_, heq, hscene, ?_⟩
    simp [Group.event, he, Progress.afterGroup, Progress.afterFailure, Progress.count,
      Progress.tell]

/-- **Items.** An item is told, a run group by group. -/
theorem emitItem_tells (s : Settings) (item : Item) {p : Progress (Scene Float)}
    (hp : p.editor.Reached) :
    ∃ p', emitItem s item p = (.ok (), p') ∧ p'.editor.Reached ∧
      p'.events.toList = p.events.toList ++ item.events s.tolerances := by
  cases item with
  | ambiguous line => exact ⟨_, rfl, hp, by simp [Progress.tell, Item.events]⟩
  | control line text =>
    exact ⟨_, rfl, hp, by simp [Progress.write, Progress.tell, Progress.count, Item.events]⟩
  | run r =>
    obtain ⟨p', hgroups, hp', htold⟩ :=
      forEach_adds (fun g p hp => emitGroup_tells s g hp) r.groups (s := p.count Report.addRun) hp
    refine ⟨p', hgroups, hp', ?_⟩
    rw [htold, ← List.map_eq_flatMap]
    rfl

/-! ### Documents -/

/-- **Documents.** A document is told item by item, whether a malformed line ends it or not. -/
theorem processLines_events (s : Settings) (raws : List String) {editor : Scene Float}
    (h : editor.Reached) :
    (processLines s raws editor).events
      = (Document.ofLines s.keyPolicy raws).items.flatMap (Item.events s.tolerances) := by
  obtain ⟨p, hitems, -, htold⟩ :=
    forEach_adds (fun item p hp => emitItem_tells s item hp)
      (Document.ofLines s.keyPolicy raws).items (s := Progress.start editor) h
  rw [events_processLines, hitems]
  exact htold

/-- A document ends with an error iff it has a fault, and with no other error. -/
theorem result_processLines_eq_error_iff (s : Settings) (raws : List String)
    {editor : Scene Float} (h : editor.Reached) {e : Error} :
    (processLines s raws editor).result = .error e ↔
      (Document.ofLines s.keyPolicy raws).fault = some e := by
  obtain ⟨p, -, heq⟩ := processLines_eq s raws h
  rw [heq]
  cases (Document.ofLines s.keyPolicy raws).fault <;> simp

/-- A document without a fault is rewritten. -/
theorem exists_answer_of_fault_eq_none (s : Settings) {raws : List String} {editor : Scene Float}
    (h : editor.Reached) (hfault : (Document.ofLines s.keyPolicy raws).fault = none) :
    ∃ answer, (processLines s raws editor).result = .ok answer := by
  obtain ⟨p, -, heq⟩ := processLines_eq s raws h
  rw [heq, hfault]
  exact ⟨_, rfl⟩

/-- The run that some lines end with is told group by group. -/
theorem flatMap_events_openItems (t : Tolerances Float) (lines : List String) :
    (Document.openItems lines).flatMap (Item.events t)
      = (Run.ofStretch (lines.rtakeWhile isTriangle)).groups.map (Group.event t) := by
  unfold Document.openItems
  cases lines.rtakeWhile isTriangle with
  | nil => rfl
  | cons first later => exact List.append_nil _

/-- **Stopping.** In any scene that requests lead to, a document ends with an error iff one of
    its lines offends the run that it would join. The error is that of the first such line.
    The lines before it alone would be rewritten, and what was told is what they alone would
    tell but for the groups of the run that they end with. -/
theorem process_stops_at_first_offence {scene : Scene Float} (h : scene.Reached) (s : Settings)
    (text : String) :
    ((∃ e, (process s text scene).result = .error e) ↔
      ∃ n fault, OffendsAt s.keyPolicy ((lines text).map trim) n fault) ∧
    ∀ e, (process s text scene).result = .error e →
      ∃ n fault, e = .malformed (n + 1) fault ∧
        StopsAt s.keyPolicy ((lines text).map trim) n fault ∧
        ∃ answer, (processLines s ((lines text).take n) scene).result = .ok answer ∧
          (processLines s ((lines text).take n) scene).events
            = (process s text scene).events ++
              (Run.ofStretch ((((lines text).map trim).take n).rtakeWhile isTriangle)).groups.map
                (Group.event s.tolerances) := by
  have herror := fun e => result_processLines_eq_error_iff s (lines text) h (e := e)
  rcases Document.ofLines_cases s.keyPolicy (lines text) with
    ⟨hclean, hfault⟩ | ⟨n, fault, hstops, hfault, hbefore, hitems⟩
  -- No line offends.
  · have hok : ∀ e, (process s text scene).result ≠ .error e := by
      intro e he
      exact absurd (hfault.symm.trans ((herror e).mp he)) (by simp)
    refine ⟨⟨?_, ?_⟩, fun e he => absurd he (hok e)⟩
    · rintro ⟨e, he⟩
      exact absurd he (hok e)
    · rintro ⟨n, fault, hat⟩
      exact absurd hat (hclean n fault)
  -- The first line that offends is the fault.
  · refine ⟨⟨fun _ => ⟨n, fault, hstops.offends⟩, fun _ => ⟨_, (herror _).mpr hfault⟩⟩, ?_⟩
    intro e he
    obtain rfl : Error.malformed (n + 1) fault = e :=
      Option.some.inj (hfault.symm.trans ((herror e).mp he))
    obtain ⟨answer, hanswer⟩ := exists_answer_of_fault_eq_none s h hbefore
    refine ⟨n, fault, rfl, hstops, answer, hanswer, ?_⟩
    rw [processLines_events s _ h, hitems, List.flatMap_append, flatMap_events_openItems, process,
      processLines_events s _ h]

end

/-- A header and a run with keys, in which the second triangle lacks its own: the header was
    told, and the first triangle, a point, was not. -/
theorem process_stops_at_missing_key :
    (process Settings.standard "AREA 1 1\nTRI 0;0;0 0;0;0 0;0;0 0 5\nTRI 0;0;0 0;0;0 0;0;0"
        (Scene.new : Scene Float)).result = .error (.malformed 3 .missingKey) ∧
      (process Settings.standard "AREA 1 1\nTRI 0;0;0 0;0;0 0;0;0 0 5\nTRI 0;0;0 0;0;0 0;0;0"
        (Scene.new : Scene Float)).events = [.control 1 "AREA 1 1"] ∧
      ∃ n fault, Error.malformed 3 .missingKey = .malformed (n + 1) fault ∧
        StopsAt .lenient ["AREA 1 1", "TRI 0;0;0 0;0;0 0;0;0 0 5", "TRI 0;0;0 0;0;0 0;0;0"] n fault := by
  have herror : (process Settings.standard
      "AREA 1 1\nTRI 0;0;0 0;0;0 0;0;0 0 5\nTRI 0;0;0 0;0;0 0;0;0"
      (Scene.new : Scene Float)).result = .error (.malformed 3 .missingKey) := by
    decide +kernel
  have hlines : (lines "AREA 1 1\nTRI 0;0;0 0;0;0 0;0;0 0 5\nTRI 0;0;0 0;0;0 0;0;0").map trim
      = ["AREA 1 1", "TRI 0;0;0 0;0;0 0;0;0 0 5", "TRI 0;0;0 0;0;0 0;0;0"] := by
    decide +kernel
  obtain ⟨n, fault, heq, hstops, -⟩ := (process_stops_at_first_offence .new _ _).2 _ herror
  rw [hlines] at hstops
  exact ⟨herror, by decide +kernel, n, fault, heq, hstops⟩

end CollisionMesh
