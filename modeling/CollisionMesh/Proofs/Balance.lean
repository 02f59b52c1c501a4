import CollisionMesh.Proofs.Items
import CollisionMesh.Proofs.Sessions

namespace CollisionMesh

open Text

/-!
# Counts, events and lines

Whatever an editor answers, what is counted of a document, what is told of it and what is written
for it agree: every control line is counted, told and written, every group is counted as read and
told once, as simplified or as failed, and what is counted as written for it are the lines that
are written.

* `emitGroup_eq_ok_iff` — what a group adds where it does not end the document;
* `Event.Tells` — an event that tells of a group;
* `Progress.Balanced` — counts, events and lines agree for some items and groups;
* `emitGroup_balanced`, `Progress.Balanced.concat`, `emitItem_balanced` — a group and an item keep
  that;
* `exists_balanced_of_processLines` — so does a document;
* `counts_of_processLines` — what is counted of a document, by its lines;
* `Balances`, `processLines_balances` — all of it.
-/

/-! ### Groups -/

namespace Group

/-- What is told of a group by what became of it. -/
def told (g : Group) : Except Error (List Record) → Event
  | .ok rs => .simplified g.key g.size rs.length
  | .error e => .failed g.key e

/-- The lines that are written for a group by what became of it. -/
def linesOf (policy : FailurePolicy) (g : Group) : Except Error (List Record) → List String
  | .ok rs => rs.map Record.line
  | .error _ =>
    match policy with
    | .passThrough => g.sources
    | .drop => []

end Group

/-- The counts after a group for which some lines are written. -/
def Report.afterGroup (g : Group) (fault : Option Error) (written : List String) (r : Report) :
    Report :=
  { r with
    groups := r.groups + 1
    groupsFailed := r.groupsFailed + fault.toList.length
    trianglesIn := r.trianglesIn + g.size
    trianglesOut := r.trianglesOut + written.length }

section

variable {σ : Type} [MeshEditor Float σ]

/-- **Groups.** A group ends the document iff it fails for a reason that concerns more than the
    group. Else it is told and its lines are written. -/
theorem emitGroup_eq_ok_iff {s : Settings} {g : Group} {p p' : Progress σ} :
    emitGroup s g p = (.ok (), p') ↔
      (∀ e, faultOf (simplifyGroup s.tolerances g p.editor).1 = some e → e.isGroupLocal = true) ∧
      p' = ⟨MeshEditor.clearAll (simplifyGroup s.tolerances g p.editor).2,
        p.lines ++ g.linesOf s.failurePolicy (simplifyGroup s.tolerances g p.editor).1,
        p.report.afterGroup g (faultOf (simplifyGroup s.tolerances g p.editor).1)
          (g.linesOf s.failurePolicy (simplifyGroup s.tolerances g p.editor).1),
        p.events.push (g.told (simplifyGroup s.tolerances g p.editor).1)⟩ := by
  have hok : ∀ q : Progress σ, ((.ok (), q) : Except Error Unit × Progress σ) = (.ok (), p') ↔ p' = q :=
    fun q => ⟨fun h => (congrArg Prod.snd h).symm, fun h => h ▸ rfl⟩
  unfold emitGroup
  dsimp only [Progress.count]
  obtain ⟨answer, editor⟩ := simplifyGroup s.tolerances g p.editor
  cases answer with
  | ok rs =>
    dsimp only
    rw [hok, and_iff_right (by simp [faultOf])]
    simp [faultOf, Group.told, Group.linesOf, Report.afterGroup, Report.addGroup, Report.addOutput,
      Progress.tell, Progress.write]
  | error e =>
    dsimp only
    cases hlocal : e.isGroupLocal with
    | false => simp [faultOf, hlocal]
    | true =>
      rw [and_iff_right (by simp [faultOf, hlocal])]
      cases s.failurePolicy <;> simp only [if_true, hok] <;>
        simp [faultOf, Group.told, Group.linesOf, Report.afterGroup, Report.addGroup,
          Report.addFailure, Report.addOutput, Progress.tell, Progress.write]

end

/-! ### Events -/

namespace Event

/-- The control line that is told, with its number. -/
def control? : Event → Option (Nat × String)
  | .control line text => some (line, text)
  | _ => none

/-- The number of the line whose key was dropped. -/
def ambiguous? : Event → Option Nat
  | .ambiguous line => some line
  | _ => none

/-- The number of triangles that a group became. -/
def output? : Event → Option Nat
  | .simplified _ _ out => some out
  | _ => none

def isSimplified : Event → Bool
  | .simplified .. => true
  | _ => false

def isFailure : Event → Bool
  | .failed .. => true
  | _ => false

/-- Whether a group is told of. -/
def ofGroup (e : Event) : Bool :=
  e.isSimplified || e.isFailure

/-- An event tells of a group: it names its key, and how many triangles it had or why it failed,
    which concerns just the group. -/
inductive Tells (g : Group) : Event → Prop where
  | simplified (out : Nat) : Tells g (.simplified g.key g.size out)
  | failed {e : Error} (he : e.isGroupLocal = true) : Tells g (.failed g.key e)

/-- Groups are told of by those that were simplified and those that failed. -/
theorem length_filter_ofGroup (events : List Event) :
    (events.filter ofGroup).length = events.countP isSimplified + events.countP isFailure := by
  induction events with
  | nil => rfl
  | cons e rest ih =>
    rw [List.countP_cons, List.countP_cons, List.filter_cons]
    cases e <;> simp [ofGroup, isSimplified, isFailure, ih] <;> omega

end Event

/-- The groups that failed by what was told of them. -/
def failedGroups (groups : List Group) (told : List Event) : List Group :=
  ((groups.zip told).filter fun pair => pair.2.isFailure).map Prod.fst

/-- The number of triangles that the failure policy keeps of groups that failed. -/
def FailurePolicy.kept (policy : FailurePolicy) (failed : List Group) : Nat :=
  match policy with
  | .passThrough => (failed.map Group.size).sum
  | .drop => 0

/-! ### Counts -/

/-- Counts, events and lines agree, where some items were written out and some groups, those of
    the items or first of all some of them. -/
structure Progress.Balanced {σ : Type} (policy : FailurePolicy) (items : List Item)
    (read : List Group) (p : Progress σ) : Prop where
  controls : p.events.toList.filterMap Event.control? = items.filterMap Item.control?
  ambiguous : p.events.toList.filterMap Event.ambiguous? = items.filterMap Item.ambiguous?
  told : List.Forall₂ Event.Tells read (p.events.toList.filter Event.ofGroup)
  controlLines : p.report.controlLines = (items.filterMap Item.control?).length
  runs : p.report.runs = (items.filterMap Item.run?).length
  groups : p.report.groups = read.length
  failed : p.report.groupsFailed = p.events.toList.countP Event.isFailure
  trianglesIn : p.report.trianglesIn = (read.map Group.size).sum
  trianglesOut : p.report.trianglesOut = (p.events.toList.filterMap Event.output?).sum
    + policy.kept (failedGroups read (p.events.toList.filter Event.ofGroup))
  lines : p.lines.size = p.report.controlLines + p.report.trianglesOut

/-- One group more that failed, or none. -/
theorem failedGroups_concat {groups : List Group} {told : List Event}
    (h : groups.length = told.length) (g : Group) (e : Event) :
    failedGroups (groups ++ [g]) (told ++ [e])
      = failedGroups groups told ++ if e.isFailure then [g] else [] := by
  rw [failedGroups, List.zip_append h, List.filter_append, List.map_append]
  cases he : e.isFailure <;> simp [failedGroups, he]

theorem FailurePolicy.kept_append (policy : FailurePolicy) (failed later : List Group) :
    policy.kept (failed ++ later) = policy.kept failed + policy.kept later := by
  cases policy <;> simp [kept]

/-- What every action keeps for the elements that were done, actions in turn keep. -/
theorem forEach_ok_induction {β σ : Type} {action : β → σ → Except Error Unit × σ}
    {P : List β → σ → Prop}
    (h : ∀ done b st st', P done st → action b st = (.ok (), st') → P (done ++ [b]) st')
    {bs done : List β} {st st' : σ} (hst : P done st) (hok : forEach action bs st = (.ok (), st')) :
    P (done ++ bs) st' := by
  induction bs generalizing done st with
  | nil =>
    obtain rfl : st = st' := congrArg Prod.snd hok
    rwa [List.append_nil]
  | cons b rest ih =>
    rw [forEach] at hok
    cases hb : action b st with
    | mk answer st₁ =>
      rw [hb] at hok
      cases answer with
      | error e => exact absurd (congrArg Prod.fst hok) (by simp)
      | ok done' =>
        rw [List.append_cons]
        exact ih (h done b st st₁ hst hb) hok

/-- Nothing was counted, told or written at the start. -/
theorem Progress.balanced_start {σ : Type} (policy : FailurePolicy) (editor : σ) :
    (start editor).Balanced policy [] [] :=
  ⟨rfl, rfl, .nil, rfl, rfl, rfl, rfl, rfl, by cases policy <;> rfl, rfl⟩

section

variable {σ : Type} [MeshEditor Float σ] {s : Settings} {items : List Item} {groups : List Group}
  {p p' : Progress σ}

/-- What is told of a group that does not end the document tells of it. -/
theorem Group.tells_told {g : Group} {answer : Except Error (List Record)}
    (h : ∀ e, faultOf answer = some e → e.isGroupLocal = true) : Event.Tells g (g.told answer) := by
  cases answer with
  | ok rs => exact .simplified _
  | error e => exact .failed (h e rfl)

/-- The lines that are written for a group are those of the triangles that it became, or those
    that the failure policy keeps. -/
theorem Group.length_linesOf (policy : FailurePolicy) (g : Group)
    (answer : Except Error (List Record)) :
    (g.linesOf policy answer).length = (g.told answer).output?.toList.sum
      + policy.kept (if (g.told answer).isFailure then [g] else []) := by
  cases answer with
  | ok rs => cases policy <;> simp [linesOf, told, Event.output?, Event.isFailure, FailurePolicy.kept]
  | error e => cases policy <;> simp [linesOf, told, Event.output?, Event.isFailure, FailurePolicy.kept]

/-- **A group.** It is counted as it is told and written. -/
theorem emitGroup_balanced {g : Group} (h : p.Balanced s.failurePolicy items groups)
    (hok : emitGroup s g p = (.ok (), p')) :
    p'.Balanced s.failurePolicy items (groups ++ [g]) := by
  obtain ⟨hlocal, rfl⟩ := emitGroup_eq_ok_iff.mp hok
  generalize (simplifyGroup s.tolerances g p.editor).2 = editor
  generalize (simplifyGroup s.tolerances g p.editor).1 = answer at hlocal
  have hcontrol : (g.told answer).control? = none := by cases answer <;> rfl
  have hambiguous : (g.told answer).ambiguous? = none := by cases answer <;> rfl
  have hgroup : (g.told answer).ofGroup = true := by cases answer <;> rfl
  have hfault : (faultOf answer).toList.length = if (g.told answer).isFailure then 1 else 0 := by
    cases answer <;> rfl
  have hout : [g.told answer].filterMap Event.output? = (g.told answer).output?.toList := by
    cases answer <;> rfl
  have hwritten := g.length_linesOf s.failurePolicy answer
  have htold : (p.events.push (g.told answer)).toList.filter Event.ofGroup
      = p.events.toList.filter Event.ofGroup ++ [g.told answer] := by
    simp [List.filter_append, hgroup]
  refine ⟨?_, ?_, ?_, h.controlLines, h.runs, ?_, ?_, ?_, ?_, ?_⟩
  · simp [hcontrol, ← h.controls]
  · simp [hambiguous, ← h.ambiguous]
  · rw [htold]
    exact List.rel_append h.told (.cons (Group.tells_told hlocal) .nil)
  · simp [Report.afterGroup, h.groups]
  · simp [Report.afterGroup, h.failed, hfault, List.countP_append]
  · simp [Report.afterGroup, h.trianglesIn]
  · rw [htold, failedGroups_concat h.told.length_eq, FailurePolicy.kept_append]
    simp only [Report.afterGroup, h.trianglesOut, hwritten, Array.toList_push,
      List.filterMap_append, hout, List.sum_append]
    omega
  · show (p.lines ++ g.linesOf s.failurePolicy answer).size = _
    rw [← Array.length_toList, Array.toList_appendList, List.length_append, Array.length_toList,
      h.lines, Nat.add_assoc]
    rfl

/-- One element more is seen at the end. -/
theorem filterMap_concat {β γ : Type} (view : β → Option γ) (bs : List β) (b : β) :
    (bs ++ [b]).filterMap view = bs.filterMap view ++ (view b).toList := by
  rw [List.filterMap_append]
  cases hb : view b <;> simp [hb]

omit [MeshEditor Float σ] in
/-- An item that is counted, told of and written as the control line, the note or the run that it is
    keeps the balance, before any of its groups. -/
theorem Progress.Balanced.concat {policy : FailurePolicy} {item : Item}
    (h : p.Balanced policy items groups) (told : List Event)
    (hevents : p'.events.toList = p.events.toList ++ told)
    (hcontrol : told.filterMap Event.control? = item.control?.toList)
    (hambiguous : told.filterMap Event.ambiguous? = item.ambiguous?.toList)
    (hgroup : ∀ e ∈ told, e.ofGroup = false)
    (hreport : p'.report = { p.report with
      controlLines := p.report.controlLines + item.control?.toList.length
      runs := p.report.runs + item.run?.toList.length })
    (hlines : p'.lines.size = p.lines.size + item.control?.toList.length) :
    p'.Balanced policy (items ++ [item]) groups := by
  -- No group is told of, so nothing is told of a failure or of an output.
  have hnone : told.filter Event.ofGroup = [] :=
    List.filter_eq_nil_iff.mpr fun e he => by simp [hgroup e he]
  have hfilter : p'.events.toList.filter Event.ofGroup = p.events.toList.filter Event.ofGroup := by
    rw [hevents, List.filter_append, hnone, List.append_nil]
  have hfailures : told.countP Event.isFailure = 0 :=
    List.countP_eq_zero.mpr fun e he hfailed => by simpa [Event.ofGroup, hfailed] using hgroup e he
  have houtputs : told.filterMap Event.output? = [] := by
    refine List.filterMap_eq_nil_iff.mpr fun e he => ?_
    have hnone := hgroup e he
    cases e <;> simp_all [Event.output?, Event.ofGroup, Event.isSimplified]
  refine ⟨?_, ?_, hfilter ▸ h.told, ?_, ?_, ?_, ?_, ?_, ?_, ?_⟩
  · rw [hevents, List.filterMap_append, filterMap_concat, h.controls, hcontrol]
  · rw [hevents, List.filterMap_append, filterMap_concat, h.ambiguous, hambiguous]
  · rw [hreport, filterMap_concat, List.length_append, h.controlLines]
  · rw [hreport, filterMap_concat, List.length_append, h.runs]
  · rw [hreport, h.groups]
  · rw [hreport, hevents, List.countP_append, hfailures, Nat.add_zero, h.failed]
  · rw [hreport, h.trianglesIn]
  · rw [hfilter, hreport, hevents, List.filterMap_append, houtputs, List.append_nil, h.trianglesOut]
  · rw [hlines, hreport, h.lines, Nat.add_right_comm]

/-- **An item.** A control line and a note are counted and told, and so are the groups of a run. -/
theorem emitItem_balanced {item : Item} (h : p.Balanced s.failurePolicy items groups)
    (hok : emitItem s item p = (.ok (), p')) :
    p'.Balanced s.failurePolicy (items ++ [item]) (groups ++ item.groups) := by
  cases item with
  | ambiguous line =>
    obtain rfl : p.tell (.ambiguous line) = p' := congrArg Prod.snd hok
    show Progress.Balanced _ _ (groups ++ []) _
    rw [List.append_nil]
    exact h.concat [.ambiguous line] (by simp [Progress.tell]) rfl rfl
      (by simp [Event.ofGroup, Event.isSimplified, Event.isFailure]) rfl rfl
  | control line text =>
    obtain rfl : ((p.tell (.control line text)).count Report.addControl).write [text] = p' :=
      congrArg Prod.snd hok
    show Progress.Balanced _ _ (groups ++ []) _
    rw [List.append_nil]
    exact h.concat [.control line text] (by simp [Progress.tell, Progress.count, Progress.write]) rfl
      rfl (by simp [Event.ofGroup, Event.isSimplified, Event.isFailure]) rfl
      (by simp [Progress.tell, Progress.count, Progress.write, Item.control?])
  | run r =>
    have hrun : (p.count Report.addRun).Balanced s.failurePolicy (items ++ [.run r]) groups :=
      h.concat [] (List.append_nil _).symm rfl rfl (by simp) rfl rfl
    -- By induction on the groups of the run, which was counted before them.
    have hgroup : ∀ done g (p p' : Progress σ),
        p.Balanced s.failurePolicy (items ++ [.run r]) (groups ++ done) →
        emitGroup s g p = (.ok (), p') →
        p'.Balanced s.failurePolicy (items ++ [.run r]) (groups ++ (done ++ [g])) := by
      intro done g p p' hp hok
      rw [← List.append_assoc]
      exact emitGroup_balanced hp hok
    rw [← List.append_nil groups] at hrun
    exact forEach_ok_induction hgroup hrun hok

/-- **Documents.** A document that is rewritten is read to its end, and its counts agree with
    what was told of its items and with the lines that were written. -/
theorem exists_balanced_of_processLines {raws written : List String} {report : Report} {editor : σ}
    (hok : (processLines s raws editor).result = .ok (written, report)) :
    (Document.ofLines s.keyPolicy raws).fault = none ∧
      ∃ p : Progress σ, p.Balanced s.failurePolicy (Document.ofLines s.keyPolicy raws).items
          (Document.ofLines s.keyPolicy raws).groups ∧
        written = p.lines.toList ∧ report = p.report ∧
        (processLines s raws editor).events = p.events.toList := by
  obtain ⟨hfault, p, hitems, rfl, rfl⟩ := processLines_eq_ok_iff.mp hok
  have hitem : ∀ done item (p p' : Progress σ),
      p.Balanced s.failurePolicy done (done.flatMap Item.groups) →
      emitItem s item p = (.ok (), p') →
      p'.Balanced s.failurePolicy (done ++ [item]) ((done ++ [item]).flatMap Item.groups) := by
    intro done item p p' hp hok
    rw [List.flatMap_append, List.flatMap_singleton]
    exact emitItem_balanced hp hok
  refine ⟨hfault, p, forEach_ok_induction hitem (Progress.balanced_start s.failurePolicy editor)
    hitems, rfl, rfl, ?_⟩
  rw [events_processLines, hitems]

end

/-! ### Documents by their lines -/

/-- The groups of a document by its lines, gap by gap. -/
def groupsOfLines (lines : List String) : List Group :=
  (gaps lines).flatMap fun gap => (Run.ofStretch gap).groups

/-- The groups of a document that is read to its end are those of its gaps. -/
theorem Document.groups_ofLines {policy : KeyPolicy} {raws : List String}
    (h : (ofLines policy raws).fault = none) :
    (ofLines policy raws).groups = groupsOfLines (raws.map trim) := by
  have hitem : Item.groups = fun item => item.run?.toList.flatMap Run.groups := by
    funext item
    cases item <;> simp [Item.groups, Item.run?]
  have hgap : ∀ gap, (pendingOf gap).toList.flatMap Run.groups = (Run.ofStretch gap).groups := by
    intro gap
    cases gap with
    | nil => rfl
    | cons line rest => simp [pendingOf]
  rw [groups, hitem, ← List.flatMap_assoc, ← List.filterMap_eq_flatMap_toList, runs_ofLines h,
    List.filterMap_eq_flatMap_toList, List.flatMap_assoc, funext hgap]
  rfl

/-- The triangle lines of a document are those of its gaps. -/
theorem sum_length_gaps (lines : List String) :
    ((gaps lines).map List.length).sum = lines.countP isTriangle := by
  induction lines using gapInduction with
  | last stretch hstretch =>
    rw [gaps_of_forall hstretch, List.countP_eq_length.mpr hstretch]
    simp
  | next stretch line rest hstretch hline ih =>
    rw [gaps_append_cons hstretch hline, List.map_cons, List.sum_cons, ih, List.countP_append,
      List.countP_eq_length.mpr hstretch, List.countP_cons_of_neg (by simp [hline])]

/-- The groups of gaps that can be read have a triangle for each triangle line. -/
theorem sum_size_groupsOfLines {policy : KeyPolicy} {lines : List String}
    (h : ∀ gap ∈ gaps lines, Readable policy gap) :
    ((groupsOfLines lines).map Group.size).sum = lines.countP isTriangle := by
  rw [← sum_length_gaps, groupsOfLines]
  generalize gaps lines = parts at h ⊢
  induction parts with
  | nil => rfl
  | cons gap rest ih =>
    obtain ⟨hgap, hrest⟩ := List.forall_mem_cons.mp h
    rw [List.flatMap_cons, List.map_append, List.sum_append, ih hrest, ← Run.size_eq_sum,
      size_ofStretch hgap, List.map_cons, List.sum_cons]

/-- Gaps that can be read have a group for each key of a run. -/
theorem length_groupsOfLines {policy : KeyPolicy} {lines : List String}
    (h : ∀ gap ∈ gaps lines, Readable policy gap) :
    (groupsOfLines lines).length = ((gaps lines).map fun gap =>
      (gap.map (lineKey (Run.ofStretch gap).keyed)).toFinset.card).sum := by
  rw [groupsOfLines]
  generalize gaps lines = parts at h ⊢
  induction parts with
  | nil => rfl
  | cons gap rest ih =>
    obtain ⟨hgap, hrest⟩ := List.forall_mem_cons.mp h
    rw [List.flatMap_cons, List.length_append, ih hrest, length_groups_ofStretch hgap,
      List.map_cons, List.sum_cons]

/-- What is counted of a document by its lines, where some lines were written. -/
structure Report.Counts (lines written : List String) (r : Report) : Prop where
  controlLines : r.controlLines = lines.countP fun line => !isTriangle line
  runs : r.runs = (gaps lines).countP (· ≠ [])
  groups : r.groups = (groupsOfLines lines).length
  trianglesIn : r.trianglesIn = lines.countP isTriangle
  written : written.length = r.controlLines + r.trianglesOut

/-- The counts of a document, what was told of it and what was written for it agree with each
    other and with its lines, which are without the blanks around. -/
structure Balances (policy : FailurePolicy) (lines written : List String) (report : Report)
    (events : List Event) : Prop where
  /-- The lines that are no triangles are counted. -/
  controlLines : report.controlLines = lines.countP fun line => !isTriangle line
  /-- They are told, each with its number. -/
  controls : events.filterMap Event.control? = numbered (fun line => !isTriangle line.1) lines
  controls_length : report.controlLines = (events.filterMap Event.control?).length
  increasing : ((events.filterMap Event.control?).map Prod.fst).Pairwise (· < ·)
  /-- The stretches of triangle lines are counted. -/
  runs : report.runs = (gaps lines).countP (· ≠ [])
  /-- The keys of each stretch are counted. -/
  groups : report.groups = ((gaps lines).map fun gap =>
    (gap.map (lineKey (Run.ofStretch gap).keyed)).toFinset.card).sum
  /-- Every group is told, as simplified or as failed. -/
  told : List.Forall₂ Event.Tells (groupsOfLines lines) (events.filter Event.ofGroup)
  groups_eq : report.groups = events.countP Event.isSimplified + events.countP Event.isFailure
  failed : report.groupsFailed = events.countP Event.isFailure
  /-- The triangle lines are counted. -/
  trianglesIn : report.trianglesIn = lines.countP isTriangle
  /-- What is written are the triangles that groups became, and those that the failure policy
      keeps of the groups that failed. -/
  trianglesOut : report.trianglesOut = (events.filterMap Event.output?).sum
    + policy.kept (failedGroups (groupsOfLines lines) (events.filter Event.ofGroup))
  written : written.length = report.controlLines + report.trianglesOut
  /-- The lines are told that carry a key in a stretch whose first line has none. -/
  ambiguous : events.filterMap Event.ambiguous?
    = (numbered (ambiguousAt lines) lines).map Prod.fst

/-- A line is counted iff it is numbered. -/
theorem length_numbered (p : String → Bool) (lines : List String) :
    (numbered (fun line => p line.1) lines).length = lines.countP p := by
  rw [numbered, List.length_map, ← List.countP_eq_length_filter]
  conv_rhs => rw [← List.zipIdx_map_fst 0 lines, List.countP_map]
  rfl

section

variable {σ : Type} [MeshEditor Float σ] {s : Settings} {raws : List String} {editor : σ}
  {written : List String} {report : Report}

/-- **Counts.** Whatever an editor answers, a document that is rewritten is counted by its lines. -/
theorem counts_of_processLines
    (hok : (processLines s raws editor).result = .ok (written, report)) :
    report.Counts (raws.map trim) written := by
  obtain ⟨hfault, p, hp, rfl, rfl, -⟩ := exists_balanced_of_processLines hok
  have hread := forall_gaps_readable_iff.mpr (Document.fault_eq_none_iff.mp hfault)
  have hgroups := Document.groups_ofLines hfault
  exact {
    controlLines := by
      rw [hp.controlLines, Document.controls_ofLines hfault]
      exact length_numbered (fun line => !isTriangle line) _
    runs := by
      have hpending : ∀ gap, (pendingOf gap).isSome = decide (gap ≠ []) := by
        intro gap
        cases gap <;> rfl
      rw [hp.runs, Document.runs_ofLines hfault, List.length_filterMap_eq_countP]
      exact List.countP_congr fun gap _ => by rw [hpending]
    groups := by rw [hp.groups, hgroups]
    trianglesIn := by rw [hp.trianglesIn, hgroups, sum_size_groupsOfLines hread]
    written := by rw [Array.length_toList, hp.lines] }

/-- **Balance.** Whatever an editor answers, where it lets a document be rewritten, the counts,
    the events and the written lines agree. -/
theorem processLines_balances
    (hok : (processLines s raws editor).result = .ok (written, report)) :
    Balances s.failurePolicy (raws.map trim) written report (processLines s raws editor).events := by
  have hcounts := counts_of_processLines hok
  obtain ⟨hfault, p, hp, rfl, rfl, hevents⟩ := exists_balanced_of_processLines hok
  have hread := forall_gaps_readable_iff.mpr (Document.fault_eq_none_iff.mp hfault)
  have hgroups := Document.groups_ofLines hfault
  have hcontrols := hp.controls.trans (Document.controls_ofLines hfault)
  rw [hevents]
  exact {
    controlLines := hcounts.controlLines
    controls := hcontrols
    controls_length := by rw [hp.controlLines, hp.controls]
    increasing := by
      rw [hcontrols]
      exact pairwise_numbered _ _
    runs := hcounts.runs
    groups := by rw [hcounts.groups, length_groupsOfLines hread]
    told := hgroups ▸ hp.told
    groups_eq := by rw [hp.groups, hp.told.length_eq, Event.length_filter_ofGroup]
    failed := hp.failed
    trianglesIn := hcounts.trianglesIn
    trianglesOut := hgroups ▸ hp.trianglesOut
    written := hcounts.written
    ambiguous := hp.ambiguous.trans (Document.ambiguous_ofLines hfault) }

end

/-- A run with two keys, and one without keys where the second triangle has one. -/
def twoRuns : List String :=
  ["A", "\tTRI 0;0;0 9;0;0 0;9;0 0 2", "TRI 0;0;0 9;0;0 0;9;0 0 1", "B ", "TRI 1;1;1 2;2;2 3;3;4",
    "TRI 1;1;1 1;1;1 1;1;2 0 5"]

/-- In an editor that keeps what it is given all groups succeed, and the key that does not count is
    not written. In one that welds nothing all groups fail, and their lines are kept. -/
theorem processLines_balances_two_runs :
    Balances .passThrough (twoRuns.map trim)
      ["A", "TRI 0;0;0 9;0;0 0;9;0 0 2", "TRI 0;0;0 9;0;0 0;9;0 0 1", "B", "TRI 1;1;1 2;2;2 3;3;4",
        "TRI 1;1;1 1;1;1 1;1;2"] ⟨2, 2, 3, 0, 4, 4⟩
      [.control 1 "A", .simplified ⟨2⟩ 1 1, .simplified ⟨1⟩ 1 1, .control 4 "B",
        .ambiguous 6, .simplified ⟨0⟩ 2 2] ∧
    Balances .passThrough (twoRuns.map trim)
      ["A", "TRI 0;0;0 9;0;0 0;9;0 0 2", "TRI 0;0;0 9;0;0 0;9;0 0 1", "B", "TRI 1;1;1 2;2;2 3;3;4",
        "TRI 1;1;1 1;1;1 1;1;2 0 5"] ⟨2, 2, 3, 3, 4, 4⟩
      [.control 1 "A", .failed ⟨2⟩ (.edit .weld (.refused "scripted failure")),
        .failed ⟨1⟩ (.edit .weld (.refused "scripted failure")), .control 4 "B", .ambiguous 6,
        .failed ⟨0⟩ (.edit .weld (.refused "scripted failure"))] := by
  have hkept : (processLines Settings.standard twoRuns
      (Scripted.new none none : Scripted Float)).events
        = [.control 1 "A", .simplified ⟨2⟩ 1 1, .simplified ⟨1⟩ 1 1, .control 4 "B",
          .ambiguous 6, .simplified ⟨0⟩ 2 2] := by
    decide +kernel
  have hfailed : (processLines Settings.standard twoRuns
      (Scripted.new (some .weld) none : Scripted Float)).events
        = [.control 1 "A", .failed ⟨2⟩ (.edit .weld (.refused "scripted failure")),
          .failed ⟨1⟩ (.edit .weld (.refused "scripted failure")), .control 4 "B", .ambiguous 6,
          .failed ⟨0⟩ (.edit .weld (.refused "scripted failure"))] := by
    decide +kernel
  rw [← hkept, ← hfailed]
  exact ⟨processLines_balances (s := Settings.standard) (by decide +kernel),
    processLines_balances (s := Settings.standard) (by decide +kernel)⟩

end CollisionMesh
