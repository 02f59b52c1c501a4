import CollisionMesh.Proofs.Refusal

namespace CollisionMesh

open Text

/-!
# Counting triangles

Simplifying answers triangles, at least one and no more than it was given. So in a
document the count of every group that is told and the counts of the report only go
down, group by group.

* `Event.shrinks` — a group that is told has not grown;
* `Progress.Shrunk` — nothing that was told or counted so far has grown;
* `emitGroup_shrunk`, `emitItem_shrunk` — a group and an item keep that;
* `process_shrunk` — a document ends with it;
* `simplify_never_grows` — groups and documents together.
-/

section

variable [Clipper Float]

/-- The group that an event tells of, if any, has not grown. -/
def Event.shrinks : Event → Prop
  | .simplified _ trianglesIn trianglesOut => trianglesOut ≤ trianglesIn
  | _ => True

/-- No group that was told has grown, nor have all groups together. -/
structure Progress.Shrunk (p : Progress (Scene Float)) : Prop where
  reached : p.editor.Reached
  events : ∀ e ∈ p.events.toList, e.shrinks
  report : p.report.trianglesOut ≤ p.report.trianglesIn

namespace Progress.Shrunk

variable {p : Progress (Scene Float)}

theorem start {editor : Scene Float} (h : editor.Reached) : (Progress.start editor).Shrunk :=
  ⟨h, fun _ he => absurd he List.not_mem_nil, Nat.le_refl 0⟩

theorem write (h : p.Shrunk) (lines : List String) : (p.write lines).Shrunk :=
  ⟨h.reached, h.events, h.report⟩

theorem tell (h : p.Shrunk) (e : Event) (he : e.shrinks) : (p.tell e).Shrunk := by
  refine ⟨h.reached, ?_, h.report⟩
  intro e' he'
  rcases Array.mem_push.mp (Array.mem_toList_iff.mp he') with he' | rfl
  · exact h.events e' (Array.mem_toList_iff.mpr he')
  · exact he

/-- Counting keeps it where the triangles written are at most those read. -/
theorem count (h : p.Shrunk) {f : Report → Report}
    (hf : (f p.report).trianglesOut ≤ (f p.report).trianglesIn) : (p.count f).Shrunk :=
  ⟨h.reached, h.events, hf⟩

/-- Counting a group as read keeps it, in any scene that requests lead to. -/
theorem afterGroup (h : p.Shrunk) (g : Group) {scene : Scene Float} (hscene : scene.Reached) :
    (p.afterGroup g scene).Shrunk :=
  ⟨hscene, h.events, Nat.le_add_right_of_le h.report⟩

/-- Telling a failure keeps it. -/
theorem afterFailure (h : p.Shrunk) (g : Group) (e : Error) : (p.afterFailure g e).Shrunk :=
  (h.tell (.failed g.key e) trivial).count h.report

end Progress.Shrunk

/-- **Groups.** A group is written as no more triangles than it has. -/
theorem emitGroup_shrunk (s : Settings) (g : Group) {p : Progress (Scene Float)} (h : p.Shrunk) :
    (emitGroup s g p).2.Shrunk := by
  have hreport := h.report
  obtain ⟨scene, hscene, ⟨rs, hrs, heq⟩ | ⟨e, -, ⟨-, heq⟩ | ⟨-, heq⟩⟩⟩ :=
    emitGroup_cases s g h.reached
  · rw [heq]
    have hle := (Group.length_simplified hrs).2
    exact (((h.afterGroup g hscene).tell (.simplified g.key g.size rs.length) hle).count
      (Nat.add_le_add hreport hle)).write _
  · rw [heq]
    exact (((h.afterGroup g hscene).afterFailure g e).count
      (Nat.add_le_add_right hreport g.size)).write _
  · rw [heq]
    exact (h.afterGroup g hscene).afterFailure g e

/-- **Items.** An item is written as no more triangles than it has. -/
theorem emitItem_shrunk (s : Settings) (item : Item) {p : Progress (Scene Float)} (h : p.Shrunk) :
    (emitItem s item p).2.Shrunk := by
  cases item with
  | ambiguous line => exact h.tell (.ambiguous line) trivial
  | control line text => exact ((h.tell (.control line text) trivial).count h.report).write _
  | run r =>
    exact forEach_keeps (fun g _ hp => emitGroup_shrunk s g hp) r.groups
      (h.count (f := Report.addRun) h.report)

/-- **Documents.** Whether a document is rewritten or a malformed line ends it, no group that
    was told has grown, and neither has the document. -/
theorem process_shrunk (s : Settings) (text : String) {scene : Scene Float} (h : scene.Reached) :
    (∀ e ∈ (process s text scene).events, e.shrinks) ∧
      ∀ written report, (process s text scene).result = .ok (written, report) →
        report.trianglesOut ≤ report.trianglesIn := by
  have hitems := forEach_keeps (fun item _ hp => emitItem_shrunk s item hp)
    (Document.ofLines s.keyPolicy (lines text)).items (Progress.Shrunk.start h)
  constructor
  · rw [process, events_processLines]
    exact hitems.events
  · intro written report hok
    obtain ⟨-, p, heq, -, rfl⟩ := processLines_eq_ok_iff.mp hok
    rw [heq] at hitems
    exact hitems.report

/-- **Never more triangles.** In any scene that requests lead to, what simplifying makes of
    some records are triangles, which all become records again, at least one and at most
    as many as there were. No group of a document grows, and neither does the document. -/
theorem simplify_never_grows {scene : Scene Float} (h : scene.Reached) :
    (∀ (t : Tolerances Float) (rs : List Record) (faces : List (EditorFace Float)),
      (simplify t (meshOfRecords rs) scene).1 = .ok faces →
        (∀ face ∈ faces, face.indices.length = 3 ∧ face.positions.length = 3) ∧
        (∀ key keyed, ∃ out, recordsOfFaces faces key keyed = .ok out) ∧
        1 ≤ faces.length ∧ faces.length ≤ rs.length) ∧
    ∀ (s : Settings) (text : String),
      (∀ key trianglesIn trianglesOut,
        .simplified key trianglesIn trianglesOut ∈ (process s text scene).events →
          trianglesOut ≤ trianglesIn) ∧
      ∀ written report, (process s text scene).result = .ok (written, report) →
        report.trianglesOut ≤ report.trianglesIn := by
  constructor
  · intro t rs faces hfaces
    rw [Scene.simplify_eq h.sound t (wellIndexed_meshOfRecords rs)] at hfaces
    obtain ⟨hthree, hone, hle⟩ := TriangleMesh.simplified_shrinks hfaces
    rw [length_faces_meshOfRecords] at hle
    refine ⟨hthree, ?_, hone, hle⟩
    intro key keyed
    obtain ⟨triangles, -, hrecords⟩ :=
      recordsOfFacesFrom_eq hthree (if keyed then some key else none) 0
    exact ⟨_, hrecords⟩
  · intro s text
    obtain ⟨hevents, hreport⟩ := process_shrunk s text h
    exact ⟨fun key trianglesIn trianglesOut he => hevents _ he, hreport⟩

end

/-- Where no angle is straight, the plot becomes triangles, at least one and at most four; and a
    document with two keys does not grow. -/
theorem simplify_never_grows_plot :
    (∃ faces, (simplify Settings.unstraightened.tolerances (meshOfRecords Record.plot)
      (Scene.new : Scene Float)).1 = .ok faces ∧
      (∀ face ∈ faces, face.indices.length = 3 ∧ face.positions.length = 3) ∧
      1 ≤ faces.length ∧ faces.length ≤ 4) ∧
    ∃ written report, (process Settings.unstraightened (render plotLines)
      (Scene.new : Scene Float)).result = .ok (written, report) ∧
      report.trianglesOut ≤ report.trianglesIn := by
  constructor
  · obtain ⟨faces, hfaces⟩ := exists_simplified_plot
    rw [← Scene.simplify_eq Scene.Reached.new.sound _ (wellIndexed_meshOfRecords _)] at hfaces
    obtain ⟨hthree, -, hone, hle⟩ := (simplify_never_grows .new).1 _ _ _ hfaces
    exact ⟨faces, hfaces, hthree, hone, hle⟩
  · obtain ⟨written, report, hok⟩ := exists_written_plot
    exact ⟨written, report, hok, ((simplify_never_grows .new).2 _ _).2 written report hok⟩

end CollisionMesh
