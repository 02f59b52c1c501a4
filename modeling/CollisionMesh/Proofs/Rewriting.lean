import CollisionMesh.Proofs.Group
import CollisionMesh.Proofs.Reading
import Mathlib.Data.List.Basic

namespace CollisionMesh

open Text

/-!
# How documents are rewritten

In any scene that requests lead to, no group stops a document: it is written as its
block, and the scene that it leaves is empty. So a document is written passage by
passage, and the editor is of no account.

* `Progress.Advances` — what a step of the processing adds;
* `emitGroup_cases` — what becomes of a group;
* `emitGroup_advances`, `emitItem_advances` — what a group and an item add;
* `Passage.lines` — the lines that are written for a passage;
* `processLines_eq` — every item of a document is written out;
* `process_reached` — what a document leaves are scenes that requests lead to;
* `rewritten`, `process_lines` — a document that is rewritten is rewritten passage by
  passage.
-/

variable [Clipper Float]

/-! ### Steps -/

/-- A step adds some lines and leaves a scene that requests lead to. -/
structure Progress.Advances (p p' : Progress (Scene Float)) (added : List String) : Prop where
  reached : p'.editor.Reached
  lines : p'.lines.toList = p.lines.toList ++ added

/-- Steps in turn add their lines in turn. -/
theorem forEach_advances {β : Type} {action : β → Progress (Scene Float) →
      Except Error Unit × Progress (Scene Float)} {added : β → List String}
    (h : ∀ b p, p.editor.Reached → ∃ p', action b p = (.ok (), p') ∧ p.Advances p' (added b))
    (bs : List β) {p : Progress (Scene Float)} (hp : p.editor.Reached) :
    ∃ p', forEach action bs p = (.ok (), p') ∧ p.Advances p' (bs.flatMap added) := by
  have hstep : ∀ b (p : Progress (Scene Float)), p.editor.Reached → ∃ p', action b p = (.ok (), p') ∧
      p'.editor.Reached ∧ p'.lines.toList = p.lines.toList ++ added b := by
    intro b p hp
    obtain ⟨p', hb, hp'⟩ := h b p hp
    exact ⟨p', hb, hp'.reached, hp'.lines⟩
  obtain ⟨p', hbs, hreached, hlines⟩ := forEach_adds hstep bs hp
  exact ⟨p', hbs, hreached, hlines⟩

/-- A group is counted as read, and the scene is cleared after it. -/
def Progress.afterGroup (p : Progress (Scene Float)) (g : Group) (scene : Scene Float) :
    Progress (Scene Float) :=
  { p.count (Report.addGroup g.size) with editor := scene }

/-- A group that failed is told and counted. -/
def Progress.afterFailure (p : Progress (Scene Float)) (g : Group) (e : Error) :
    Progress (Scene Float) :=
  (p.tell (.failed g.key e)).count Report.addFailure

/-- **What becomes of a group.** It is written as records with fewer triangles, or the failure
    policy says whether its lines are kept. In no case does it end the document. -/
theorem emitGroup_cases (s : Settings) (g : Group) {p : Progress (Scene Float)}
    (hp : p.editor.Reached) :
    ∃ scene : Scene Float, scene.Reached ∧
      ((∃ rs, g.simplified s.tolerances = .ok rs ∧ emitGroup s g p
          = (.ok (), (((p.afterGroup g scene).tell (.simplified g.key g.size rs.length)).count
            (Report.addOutput rs.length)).write (rs.map Record.line))) ∨
        ∃ e, g.simplified s.tolerances = .error e ∧
          ((s.failurePolicy = .passThrough ∧ emitGroup s g p
              = (.ok (), (((p.afterGroup g scene).afterFailure g e).count
                (Report.addOutput g.size)).write g.sources)) ∨
            (s.failurePolicy = .drop ∧ emitGroup s g p
              = (.ok (), (p.afterGroup g scene).afterFailure g e)))) := by
  have hreached : (simplifyGroup s.tolerances g p.editor).2.clearAll.Reached :=
    (hp.simplify s.tolerances (meshOfRecords g.records)).clearAll
  have hanswer := simplifyGroup_eq hp s.tolerances g
  refine ⟨_, hreached, ?_⟩
  unfold emitGroup
  dsimp only [Progress.count]
  rw [hanswer]
  cases hg : g.simplified s.tolerances with
  | ok rs => exact .inl ⟨rs, rfl, rfl⟩
  | error e =>
    -- The only failures are passes without faces, which concern just the group.
    obtain ⟨operation, rfl⟩ := Group.simplified_error hg
    refine .inr ⟨_, rfl, ?_⟩
    cases s.failurePolicy with
    | passThrough => exact .inl ⟨rfl, rfl⟩
    | drop => exact .inr ⟨rfl, rfl⟩

/-- **Groups.** A group adds its block, whatever becomes of it. -/
theorem emitGroup_advances (s : Settings) (g : Group) {p : Progress (Scene Float)}
    (hp : p.editor.Reached) :
    ∃ p', emitGroup s g p = (.ok (), p') ∧ p.Advances p' (g.block s) := by
  obtain ⟨scene, hscene, ⟨rs, hrs, heq⟩ | ⟨e, he, ⟨hpolicy, heq⟩ | ⟨hpolicy, heq⟩⟩⟩ :=
    emitGroup_cases s g hp
  · refine ⟨_, heq, hscene, ?_⟩
    simp [Group.block, hrs, Progress.afterGroup, Progress.count, Progress.tell, Progress.write]
  · refine ⟨_, heq, hscene, ?_⟩
    simp [Group.block, he, hpolicy, Progress.afterGroup, Progress.afterFailure, Progress.count,
      Progress.tell, Progress.write]
  · refine ⟨_, heq, hscene, ?_⟩
    simp [Group.block, he, hpolicy, Progress.afterGroup, Progress.afterFailure, Progress.count,
      Progress.tell]

/-- The lines that are written for a passage: a line as it is, a run group by group. -/
def Passage.lines (s : Settings) : Passage → List String
  | .line text => [text]
  | .run r => r.groups.flatMap (Group.block s)

/-- **Items.** An item adds the lines of its passage. -/
theorem emitItem_advances (s : Settings) (item : Item) {p : Progress (Scene Float)}
    (hp : p.editor.Reached) :
    ∃ p', emitItem s item p = (.ok (), p') ∧
      p.Advances p' (item.passage?.toList.flatMap (Passage.lines s)) := by
  cases item with
  | ambiguous line =>
    refine ⟨_, rfl, hp, ?_⟩
    simp [Progress.tell, Item.passage?]
  | control line text =>
    refine ⟨_, rfl, hp, ?_⟩
    simp [Progress.write, Progress.tell, Progress.count, Item.passage?, Passage.lines]
  | run r =>
    obtain ⟨p', hgroups, hp'⟩ :=
      forEach_advances (fun g p hp => emitGroup_advances s g hp) r.groups
        (p := p.count Report.addRun) hp
    refine ⟨p', hgroups, hp'.reached, ?_⟩
    simpa [Item.passage?, Passage.lines, Progress.count] using hp'.lines

/-! ### Documents -/

/-- **Processing.** Every item of a document is written out. Then a malformed line ends it,
    or the scene is cleared. -/
theorem processLines_eq (s : Settings) (raws : List String) {editor : Scene Float}
    (h : editor.Reached) :
    ∃ p, (Progress.start editor).Advances p
        ((Document.ofLines s.keyPolicy raws).items.flatMap fun item =>
          item.passage?.toList.flatMap (Passage.lines s)) ∧
      processLines s raws editor = match (Document.ofLines s.keyPolicy raws).fault with
        | some e => ⟨.error e, p.events.toList, p.editor⟩
        | none => ⟨.ok (p.lines.toList, p.report), p.events.toList, p.editor.clearAll⟩ := by
  obtain ⟨p, hitems, hp⟩ := forEach_advances (fun item p hp => emitItem_advances s item hp)
    (Document.ofLines s.keyPolicy raws).items (p := Progress.start editor) h
  refine ⟨p, hp, ?_⟩
  unfold processLines
  dsimp only
  rw [hitems]
  rfl

/-- The same for a document by its text. -/
theorem process_eq (s : Settings) (text : String) {editor : Scene Float} (h : editor.Reached) :
    ∃ p, (Progress.start editor).Advances p
        ((Document.ofLines s.keyPolicy (lines text)).items.flatMap fun item =>
          item.passage?.toList.flatMap (Passage.lines s)) ∧
      process s text editor = match (Document.ofLines s.keyPolicy (lines text)).fault with
        | some e => ⟨.error e, p.events.toList, p.editor⟩
        | none => ⟨.ok (p.lines.toList, p.report), p.events.toList, p.editor.clearAll⟩ :=
  processLines_eq s (lines text) h

/-- A document leaves a scene that requests lead to, whether it is rewritten or not. -/
theorem process_reached (s : Settings) (text : String) {editor : Scene Float} (h : editor.Reached) :
    (process s text editor).editor.Reached := by
  obtain ⟨p, hp, heq⟩ := process_eq s text h
  rw [heq]
  split
  · exact hp.reached
  · exact hp.reached.clearAll

/-- Only a malformed line ends a document early. -/
theorem fault_eq_none_of_process {s : Settings} {text : String} {editor : Scene Float}
    (h : editor.Reached) {answer : List String × Report}
    (hok : (process s text editor).result = .ok answer) :
    (Document.ofLines s.keyPolicy (lines text)).fault = none := by
  obtain ⟨p, -, heq⟩ := process_eq s text h
  rw [heq] at hok
  -- With a malformed line the document ends with an error.
  cases hfault : (Document.ofLines s.keyPolicy (lines text)).fault with
  | some e =>
    rw [hfault] at hok
    exact absurd hok (by simp)
  | none => rfl

/-- A document without a malformed line is rewritten. -/
theorem exists_written_of_fault_eq_none (s : Settings) (text : String) {editor : Scene Float}
    (h : editor.Reached) (hfault : (Document.ofLines s.keyPolicy (lines text)).fault = none) :
    ∃ written report, (process s text editor).result = .ok (written, report) := by
  obtain ⟨p, -, heq⟩ := process_eq s text h
  rw [heq, hfault]
  exact ⟨p.lines.toList, p.report, rfl⟩

/-- A document by its lines without the blanks around, as it is rewritten. -/
def rewritten (s : Settings) (lines : List String) : List String :=
  (passages lines).flatMap (Passage.lines s)

/-- **Rewriting.** A document is rewritten passage by passage, if no line is malformed. -/
theorem process_lines {s : Settings} {text : String} {editor : Scene Float} (h : editor.Reached)
    {written : List String} {report : Report}
    (hok : (process s text editor).result = .ok (written, report)) :
    written = rewritten s ((lines text).map trim) := by
  have hfault := fault_eq_none_of_process h hok
  obtain ⟨p, hp, heq⟩ := process_eq s text h
  rw [heq, hfault] at hok
  have hwritten : p.lines.toList = written := congrArg Prod.fst (Except.ok.inj hok)
  rw [← hwritten, hp.lines, rewritten, ← Document.passages_ofLines hfault,
    List.filterMap_eq_flatMap_toList, List.flatMap_assoc]
  rfl

end CollisionMesh
