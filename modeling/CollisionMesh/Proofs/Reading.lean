import CollisionMesh.Document
import CollisionMesh.Proofs.FirstUse
import Mathlib.Data.List.TakeWhile

namespace CollisionMesh

open Text

/-!
# How documents are read

What a reader collects line by line, said all at once: a run is a maximal stretch of
triangle lines, and its groups are its triangles sorted by key, the keys in the order
of their first use.

* `Group.members`, `Group.ofMembers` — a group as triangles with their lines, and back;
* `groupsOf` — triangles by key; `foldl_addTo` — adding them one by one comes to that;
* `Run.ofStretch` — the run of some consecutive triangle lines; `Run.mem_members_ofStretch`,
  `Run.map_key_groups_ofStretch` — its groups and their keys;
* `passages` — a document in maximal stretches;
* `Collector.passages_push` — what a line adds to the passages; `Document.passages_ofLines` — a
  document without a malformed line is read as its passages.
-/

/-! ### Groups by their members -/

namespace Group

/-- The triangles of a group, each with its line. -/
def members (g : Group) : List Member :=
  (g.records.zip g.sources).map fun p => ⟨p.1, p.2⟩

/-- The group of some triangles with their lines. -/
def ofMembers (key : Key) (keyed : Bool) (members : List Member) : Group :=
  ⟨key, keyed, (members.map Member.record).toArray, (members.map Member.source).toArray, by simp⟩

@[simp] theorem map_record_members (g : Group) : g.members.map Member.record = g.records := by
  rw [members, List.map_map]
  exact List.map_fst_zip g.length_sources.ge

@[simp] theorem map_source_members (g : Group) : g.members.map Member.source = g.sources := by
  rw [members, List.map_map]
  exact List.map_snd_zip g.length_sources.le

@[simp] theorem length_members (g : Group) : g.members.length = g.size := by
  rw [← length_records, ← map_record_members, List.length_map]

theorem mem_records_iff {g : Group} {r : Record} :
    r ∈ g.records ↔ ∃ m ∈ g.members, m.record = r := by
  rw [← map_record_members, List.mem_map]

theorem mem_sources_iff {g : Group} {line : String} :
    line ∈ g.sources ↔ ∃ m ∈ g.members, m.source = line := by
  rw [← map_source_members, List.mem_map]

variable {key : Key} {keyed : Bool}

@[simp] theorem records_ofMembers (ms : List Member) :
    (ofMembers key keyed ms).records = ms.map Member.record := rfl

@[simp] theorem sources_ofMembers (ms : List Member) :
    (ofMembers key keyed ms).sources = ms.map Member.source := rfl

@[simp] theorem members_ofMembers (ms : List Member) : (ofMembers key keyed ms).members = ms := by
  rw [members, records_ofMembers, sources_ofMembers, List.zip_map', List.map_map]
  exact List.map_id ms

/-- A group is the group of its members. -/
@[simp] theorem ofMembers_members (g : Group) : ofMembers g.key g.keyed g.members = g := by
  obtain ⟨key, keyed, triangles, lines, hparallel⟩ := g
  simp only [ofMembers, map_record_members, map_source_members]
  rfl

/-- One triangle more is one member more. -/
theorem ofMembers_push (ms : List Member) (m : Member) :
    (ofMembers key keyed ms).push m = ofMembers key keyed (ms ++ [m]) := by
  simp [ofMembers, push]

end Group

/-! ### Triangles by key -/

/-- The triangles with a key. -/
def groupOf (keyed : Bool) (members : List Member) (k : Key) : Group :=
  .ofMembers k keyed (members.filter fun m => m.record.groupKey == k)

/-- The triangles by key, the keys in the order of their first use. -/
def groupsOf (keyed : Bool) (members : List Member) : List Group :=
  (members.map (·.record.groupKey)).eraseDups.map (groupOf keyed members)

/-- One triangle more belongs to the group of its key only. -/
theorem groupOf_concat (keyed : Bool) (members : List Member) (m : Member) (k : Key) :
    groupOf keyed (members ++ [m]) k =
      if k = m.record.groupKey then (groupOf keyed members k).push m
      else groupOf keyed members k := by
  by_cases h : k = m.record.groupKey
  · rw [if_pos h]
    simp [groupOf, Group.ofMembers_push, List.filter_append, h]
  · rw [if_neg h]
    simp [groupOf, List.filter_append, Ne.symm h]

/-- A triangle is added to the group of its key, or as a new group at the end. -/
theorem addTo_map (keyed : Bool) (m : Member) {f : Key → Group} (hf : ∀ k, (f k).key = k)
    {ks : List Key} (hks : ks.Nodup) :
    Run.addTo keyed m (ks.map f) =
      if m.record.groupKey ∈ ks then
        ks.map fun k => if k = m.record.groupKey then (f k).push m else f k
      else ks.map f ++ [(Group.empty m.record.groupKey keyed).push m] := by
  induction ks with
  | nil => rfl
  | cons k rest ih =>
    obtain ⟨hk, hrest⟩ := List.nodup_cons.mp hks
    have hstep : Run.addTo keyed m ((k :: rest).map f)
        = if k = m.record.groupKey then (f k).push m :: rest.map f
          else f k :: Run.addTo keyed m (rest.map f) := by
      show (if (f k).key = m.record.groupKey then (f k).push m :: rest.map f
        else f k :: Run.addTo keyed m (rest.map f)) = _
      rw [hf]
    -- No key is listed twice, so where one group takes the triangle the others stay.
    rw [hstep]
    by_cases h : k = m.record.groupKey
    · rw [if_pos h, if_pos (h ▸ List.mem_cons_self), List.map_cons, if_pos h]
      congr 1
      apply List.map_congr_left
      intro k' hk'
      rw [if_neg fun heq : k' = _ => hk ((h.trans heq.symm) ▸ hk')]
    · rw [if_neg h, ih hrest]
      have hmem : m.record.groupKey ∈ k :: rest ↔ m.record.groupKey ∈ rest := by
        rw [List.mem_cons, or_iff_right (Ne.symm h)]
      simp only [hmem]
      split
      · rw [List.map_cons, if_neg h]
      · rfl

/-- **Grouping.** Triangles added one by one are sorted by key. -/
theorem foldl_addTo (keyed : Bool) (members : List Member) :
    members.foldl (fun groups m => Run.addTo keyed m groups) [] = groupsOf keyed members := by
  induction members using List.reverseRecOn with
  | nil => rfl
  | append_singleton members m ih =>
    have hkeys : (members ++ [m]).map (·.record.groupKey)
        = members.map (·.record.groupKey) ++ [m.record.groupKey] := List.map_append
    -- One triangle more: its key is in the list already, or it is put at the end of both lists.
    rw [List.foldl_append, ih, List.foldl_cons, List.foldl_nil, groupsOf,
      addTo_map keyed m (fun _ => rfl) (nodup_eraseDups _), groupsOf, hkeys, eraseDups_concat]
    simp only [List.mem_eraseDups]
    split
    · exact List.map_congr_left fun k _ => (groupOf_concat keyed members m k).symm
    · next hnew =>
      rw [List.map_append, List.map_cons, List.map_nil, groupOf_concat, if_pos rfl]
      congr 1
      · apply List.map_congr_left
        intro k hk
        rw [List.mem_eraseDups] at hk
        rw [groupOf_concat, if_neg fun heq : k = m.record.groupKey => hnew (heq ▸ hk)]
      -- No earlier triangle has the new key.
      · have hnone : members.filter (fun m' => m'.record.groupKey == m.record.groupKey) = [] := by
          rw [List.filter_eq_nil_iff]
          intro m' hm' heq
          exact hnew (List.mem_map.mpr ⟨m', hm', eq_of_beq heq⟩)
        rw [groupOf, hnone]
        rfl

/-! ### Stretches of triangle lines -/

/-- Whether a line is a triangle by its first word. -/
def isTriangle (line : String) : Bool :=
  LineKind.of line = .triangle

/-- Whether a line is a triangle with a key. -/
def carriesKey (line : String) : Bool :=
  match Record.ofLine line with
  | .ok r => r.key.isSome
  | .error _ => false

/-- A line as a triangle of a run, without its key if the run carries none. -/
def Member.ofLine? (keyed : Bool) (line : String) : Option Member :=
  match Record.ofLine line with
  | .ok r => some ⟨if keyed then r else r.withoutKey, line⟩
  | .error _ => none

/-- The run of some consecutive triangle lines: it carries keys if the first of them does,
    and its triangles stand by key. -/
def Run.ofStretch (stretch : List String) : Run :=
  let keyed := stretch.head?.any carriesKey
  ⟨keyed, groupsOf keyed (stretch.filterMap (Member.ofLine? keyed))⟩

/-- A line is a triangle of a run only if it is a record. -/
theorem exists_ofLine_of_ofLine? {keyed : Bool} {line : String} {m : Member}
    (h : Member.ofLine? keyed line = some m) :
    ∃ r, Record.ofLine line = .ok r ∧ m = ⟨if keyed then r else r.withoutKey, line⟩ := by
  unfold Member.ofLine? at h
  split at h
  · next r hr => exact ⟨r, hr, (Option.some.inj h).symm⟩
  · exact absurd h (by simp)

/-- A triangle of a run that carries no keys belongs to the key zero. -/
theorem groupKey_of_ofLine? {line : String} {m : Member} (h : Member.ofLine? false line = some m) :
    m.record.groupKey = Key.zero := by
  obtain ⟨r, -, rfl⟩ := exists_ofLine_of_ofLine? h
  rfl

/-- A run that carries no keys is one group, of the key zero, with all its triangles. -/
theorem Run.groups_ofStretch_of_unkeyed {stretch : List String}
    (hkeyed : stretch.head?.any carriesKey = false)
    (hne : stretch.filterMap (Member.ofLine? false) ≠ []) :
    (Run.ofStretch stretch).groups
      = [.ofMembers Key.zero false (stretch.filterMap (Member.ofLine? false))] := by
  have hzero : ∀ m ∈ stretch.filterMap (Member.ofLine? false), m.record.groupKey = Key.zero := by
    intro m hm
    obtain ⟨line, -, hline⟩ := List.mem_filterMap.mp hm
    exact groupKey_of_ofLine? hline
  have hall : (stretch.filterMap (Member.ofLine? false)).filter
      (fun m => m.record.groupKey == Key.zero) = stretch.filterMap (Member.ofLine? false) :=
    List.filter_eq_self.mpr fun m hm => beq_iff_eq.mpr (hzero m hm)
  have hkeys : ((stretch.filterMap (Member.ofLine? false)).map (·.record.groupKey)).eraseDups
      = [Key.zero] := by
    apply eraseDups_of_forall_eq (mt List.map_eq_nil_iff.mp hne)
    intro k hk
    obtain ⟨m, hm, rfl⟩ := List.mem_map.mp hk
    exact hzero m hm
  rw [Run.ofStretch, hkeyed]
  show groupsOf false _ = _
  rw [groupsOf, hkeys, List.map_cons, List.map_nil, groupOf, hall]

/-- A group of a run carries keys if the run does, and has triangles that lines of the run are
    read as, with its key. -/
theorem Run.mem_members_ofStretch {stretch : List String} {g : Group}
    (h : g ∈ (Run.ofStretch stretch).groups) :
    g.keyed = (Run.ofStretch stretch).keyed ∧ ∀ m ∈ g.members, m.source ∈ stretch ∧
      Member.ofLine? (Run.ofStretch stretch).keyed m.source = some m ∧
      m.record.groupKey = g.key := by
  obtain ⟨k, -, rfl⟩ := List.mem_map.mp h
  refine ⟨rfl, ?_⟩
  intro m hm
  rw [groupOf, Group.members_ofMembers] at hm
  obtain ⟨hmember, hkey⟩ := List.mem_filter.mp hm
  obtain ⟨line, hline, hof⟩ := List.mem_filterMap.mp hmember
  have hsource : m.source = line := by
    obtain ⟨r, -, rfl⟩ := exists_ofLine_of_ofLine? hof
    rfl
  exact ⟨hsource ▸ hline, hsource ▸ hof, eq_of_beq hkey⟩

/-- The keys of a run, in the order of their first use. -/
theorem Run.map_key_groups_ofStretch (stretch : List String) :
    (Run.ofStretch stretch).groups.map Group.key
      = ((stretch.filterMap (Member.ofLine? (Run.ofStretch stretch).keyed)).map
          (·.record.groupKey)).eraseDups := by
  show (groupsOf _ _).map Group.key = _
  rw [groupsOf, List.map_map]
  exact List.map_id _

/-- A group of a run without keys has the key zero. -/
theorem Run.key_of_unkeyed {stretch : List String} {g : Group}
    (hg : g ∈ (Run.ofStretch stretch).groups) (hkeyed : (Run.ofStretch stretch).keyed = false) :
    g.key = Key.zero := by
  have hmem : g.key ∈ (Run.ofStretch stretch).groups.map Group.key := List.mem_map_of_mem hg
  rw [Run.map_key_groups_ofStretch, List.mem_eraseDups, hkeyed] at hmem
  obtain ⟨m, hm, hkey⟩ := List.mem_map.mp hmem
  obtain ⟨line, -, hline⟩ := List.mem_filterMap.mp hm
  rw [← hkey, groupKey_of_ofLine? hline]

/-! ### Runs line by line -/

/-- A run with one triangle more, said all at once. -/
theorem Run.add_groupsOf (keyed : Bool) (members : List Member) (m : Member) :
    Run.add ⟨keyed, groupsOf keyed members⟩ m = ⟨keyed, groupsOf keyed (members ++ [m])⟩ := by
  rw [← foldl_addTo, ← foldl_addTo, List.foldl_append]
  rfl

/-- A run has as many triangles as were put into it. -/
theorem Run.size_groupsOf (keyed : Bool) (members : List Member) :
    Run.size ⟨keyed, groupsOf keyed members⟩ = members.length := by
  have hadd : ∀ (m : Member) (groups : List Group),
      Run.size ⟨keyed, Run.addTo keyed m groups⟩ = Run.size ⟨keyed, groups⟩ + 1 := by
    intro m groups
    induction groups with
    | nil => rfl
    | cons g rest ih =>
      rw [Run.addTo]
      split
      · simp [Run.size, Group.size, Group.push]
        omega
      · simp only [Run.size, List.foldr_cons] at ih ⊢
        omega
  induction members using List.reverseRecOn with
  | nil => rfl
  | append_singleton members m ih =>
    rw [← Run.add_groupsOf, Run.add, hadd, ih, List.length_append]
    rfl

/-- A triangle joins a run only with a key if the run carries keys, and without one if it
    carries none. -/
theorem reconcile_eq_ok {policy : KeyPolicy} {run : Run} {r r' : Record} {ambiguous : Bool}
    (h : Collector.reconcile policy run r = .ok (r', ambiguous)) :
    r' = if run.keyed then r else r.withoutKey := by
  obtain ⟨corners, key⟩ := r
  unfold Collector.reconcile at h
  cases hkeyed : run.keyed <;> cases key with
  | none => simp_all [Record.withoutKey]
  | some k => cases policy <;> simp_all [Record.withoutKey]

/-- The run that a first triangle line starts. -/
theorem collect_none_eq_ok {policy : KeyPolicy} {line : String} {run : Run} {ambiguous : Bool}
    (h : Collector.collect policy none line = .ok (run, ambiguous)) : run = Run.ofStretch [line] := by
  unfold Collector.collect at h
  cases hr : Record.ofLine line with
  | error e =>
    rw [hr] at h
    exact absurd h (by simp [bind, Except.bind])
  | ok r =>
    rw [hr] at h
    have hrun : Run.start ⟨r, line⟩ = run := by
      simp [bind, Except.bind, pure, Except.pure] at h
      exact h.1
    have hkeyed : carriesKey line = r.key.isSome := by rw [carriesKey, hr]
    -- The first triangle of a run decides on keys, so it never loses its own.
    have hmember : (if r.key.isSome then r else r.withoutKey) = r := by
      obtain ⟨corners, _ | k⟩ := r <;> rfl
    rw [← hrun, Run.start, show ([] : List Group) = groupsOf r.key.isSome [] from rfl,
      Run.add_groupsOf]
    simp [Run.ofStretch, Member.ofLine?, hkeyed, hr, hmember]

/-- The run that one triangle line more makes. -/
theorem collect_some_eq_ok {policy : KeyPolicy} {stretch : List String} {line : String} {run : Run}
    {ambiguous : Bool} (hne : stretch ≠ [])
    (h : Collector.collect policy (some (Run.ofStretch stretch)) line = .ok (run, ambiguous)) :
    run = Run.ofStretch (stretch ++ [line]) := by
  unfold Collector.collect at h
  cases hr : Record.ofLine line with
  | error e =>
    rw [hr] at h
    exact absurd h (by simp [bind, Except.bind])
  | ok r =>
    rw [hr] at h
    cases hrec : Collector.reconcile policy (Run.ofStretch stretch) r with
    | error e => simp [bind, Except.bind, hrec] at h
    | ok result =>
      obtain ⟨r', amb⟩ := result
      have hrun : (Run.ofStretch stretch).add ⟨r', line⟩ = run := by
        simp [bind, Except.bind, pure, Except.pure, hrec] at h
        exact h.1
      -- One line more at the end does not change the first line, so the run carries keys as before.
      obtain ⟨first, rest, rfl⟩ := List.exists_cons_of_ne_nil hne
      have hmember : [line].filterMap (Member.ofLine? (carriesKey first))
          = [⟨if carriesKey first then r else r.withoutKey, line⟩] := by
        simp [Member.ofLine?, hr]
      rw [← hrun, reconcile_eq_ok hrec]
      show Run.add ⟨carriesKey first, groupsOf (carriesKey first) _⟩ _
        = ⟨carriesKey first, groupsOf (carriesKey first)
            (((first :: rest) ++ [line]).filterMap (Member.ofLine? (carriesKey first)))⟩
      rw [Run.add_groupsOf, List.filterMap_append, hmember]
      rfl

/-! ### Documents -/

/-- A part of a document: a line that is no triangle, or a run. -/
inductive Passage where
  | line (text : String)
  | run (r : Run)

/-- The passages of a document by its lines without the blanks around: the lines that are
    no triangles, and the maximal stretches of those that are. -/
def passages : List String → List Passage
  | [] => []
  | line :: rest =>
    if isTriangle line then
      .run (Run.ofStretch (line :: rest.takeWhile isTriangle)) ::
        passages (rest.dropWhile isTriangle)
    else .line line :: passages rest
termination_by lines => lines.length
decreasing_by
  · have := (List.dropWhile_sublist isTriangle (l := rest)).length_le
    simp only [List.length_cons]
    omega
  · simp only [List.length_cons]
    omega

/-- The passage that an item is; a note that a key was dropped is none. -/
def Item.passage? : Item → Option Passage
  | .control _ text => some (.line text)
  | .ambiguous _ => none
  | .run r => some (.run r)

/-- The run of a stretch that was read so far, if any. -/
def pendingOf : List String → Option Run
  | [] => none
  | line :: rest => some (Run.ofStretch (line :: rest))

/-- The pending run after one triangle line more. -/
theorem collect_pendingOf {policy : KeyPolicy} {stretch : List String} {line : String} {run : Run}
    {ambiguous : Bool}
    (h : Collector.collect policy (pendingOf stretch) line = .ok (run, ambiguous)) :
    some run = pendingOf (stretch ++ [line]) := by
  cases stretch with
  | nil => exact congrArg some (collect_none_eq_ok h)
  | cons first later => exact congrArg some (collect_some_eq_ok (List.cons_ne_nil first later) h)

/-- A stretch of triangle lines up to the end of the lines. -/
theorem passages_of_forall {stretch : List String} (h : ∀ line ∈ stretch, isTriangle line = true) :
    passages stretch = (pendingOf stretch).toList.map Passage.run := by
  cases stretch with
  | nil => rw [passages]; rfl
  | cons line rest =>
    have hrest : ∀ line ∈ rest, isTriangle line = true := fun l hl => h l (List.mem_cons_of_mem _ hl)
    rw [passages, if_pos (h line List.mem_cons_self), List.takeWhile_eq_self_iff.mpr hrest,
      List.dropWhile_eq_nil_iff.mpr hrest, passages]
    rfl

/-- A stretch of triangle lines up to a line that is none. -/
theorem passages_append_cons {stretch : List String} (h : ∀ line ∈ stretch, isTriangle line = true)
    {line : String} (hline : isTriangle line = false) (rest : List String) :
    passages (stretch ++ line :: rest)
      = (pendingOf stretch).toList.map Passage.run ++ .line line :: passages rest := by
  have hend : passages (line :: rest) = .line line :: passages rest := by
    rw [passages, if_neg (by rw [hline]; simp)]
  cases stretch with
  | nil => exact hend
  | cons first later =>
    have hlater : ∀ l ∈ later, isTriangle l = true := fun l hl => h l (List.mem_cons_of_mem _ hl)
    rw [List.cons_append, passages, if_pos (h first List.mem_cons_self),
      List.takeWhile_append_of_pos hlater, List.dropWhile_append_of_pos hlater,
      List.takeWhile_cons_of_neg (by rw [hline]; simp),
      List.dropWhile_cons_of_neg (by rw [hline]; simp), List.append_nil, hend]
    rfl

/-- The passages among some items and those that a line adds. -/
private theorem filterMap_append_items (earlier : Array Item) (items : List Item) :
    (earlier ++ items).toList.filterMap Item.passage?
      = earlier.toList.filterMap Item.passage? ++ items.filterMap Item.passage? := by
  simp [List.filterMap_append]

/-- A triangle line is collected, if nothing is wrong with it. -/
theorem Collector.push_triangle {c : Collector} {raw : String} {run : Run} {ambiguous : Bool}
    (hline : isTriangle (trim raw) = true)
    (h : collect c.policy c.pending (trim raw) = .ok (run, ambiguous)) :
    c.push raw = (.ok (.collected ambiguous),
      { c with lineNumber := c.lineNumber + 1, pending := some run }) := by
  have hkind : LineKind.of (trim raw) = .triangle := of_decide_eq_true hline
  simp only [push, hkind, h]

/-- A triangle line that something is wrong with is malformed. -/
theorem Collector.push_triangle_error {c : Collector} {raw : String} {fault : LineFault}
    (hline : isTriangle (trim raw) = true)
    (h : collect c.policy c.pending (trim raw) = .error fault) :
    c.push raw = (.error (.malformed (c.lineNumber + 1) fault),
      { c with lineNumber := c.lineNumber + 1 }) := by
  have hkind : LineKind.of (trim raw) = .triangle := of_decide_eq_true hline
  simp only [push, hkind, h]

/-- Any other line ends the run. -/
theorem Collector.push_control {c : Collector} {raw : String} (hline : isTriangle (trim raw) = false) :
    c.push raw = (.ok (.control c.pending (trim raw)),
      { c with lineNumber := c.lineNumber + 1, pending := none }) := by
  have hkind : LineKind.of (trim raw) ≠ .triangle := of_decide_eq_false hline
  unfold push
  dsimp only
  split
  · next heq => exact absurd heq hkind
  · rfl

/-- **One line.** A line that is read either joins the stretch that is pending, and adds no passage
    yet; or it ends the stretch, and adds the run of it and itself. -/
theorem Collector.passages_push {c c' : Collector} {raw : String} {step : Step}
    {stretch : List String} (hstretch : ∀ line ∈ stretch, isTriangle line = true)
    (hc : c.pending = pendingOf stretch) (hpush : c.push raw = (.ok step, c'))
    (rest : List String) :
    ∃ stretch', (∀ line ∈ stretch', isTriangle line = true) ∧ c'.pending = pendingOf stretch' ∧
      passages (stretch ++ trim raw :: rest)
        = (step.items c'.lineNumber).filterMap Item.passage? ++ passages (stretch' ++ rest) := by
  by_cases hline : isTriangle (trim raw) = true
  · cases hcollect : collect c.policy c.pending (trim raw) with
    | error fault =>
      rw [push_triangle_error hline hcollect] at hpush
      exact absurd hpush (by simp)
    | ok result =>
      obtain ⟨run, ambiguous⟩ := result
      rw [push_triangle hline hcollect] at hpush
      obtain ⟨hstep, rfl⟩ := Prod.mk.inj hpush
      obtain rfl := Except.ok.inj hstep
      rw [hc] at hcollect
      refine ⟨stretch ++ [trim raw], ?_, collect_pendingOf hcollect, ?_⟩
      · rw [List.forall_mem_append, List.forall_mem_singleton]
        exact ⟨hstretch, hline⟩
      · rw [List.append_cons]
        cases ambiguous <;> rfl
  · have hline := Bool.not_eq_true _ ▸ hline
    rw [push_control hline] at hpush
    obtain ⟨hstep, rfl⟩ := Prod.mk.inj hpush
    obtain rfl := Except.ok.inj hstep
    refine ⟨[], fun _ h => absurd h List.not_mem_nil, rfl, ?_⟩
    rw [passages_append_cons hstretch hline, hc]
    cases stretch <;> rfl

/-- **Reading on.** A reader with a stretch pending finds the passages of that stretch and
    the lines to come, unless a line is malformed. -/
theorem Document.passages_scan {lines : List String} {c : Collector} {earlier : Array Item}
    {stretch : List String} (hstretch : ∀ line ∈ stretch, isTriangle line = true)
    (hc : c.pending = pendingOf stretch) (hfault : (scan c earlier lines).fault = none) :
    (scan c earlier lines).items.filterMap Item.passage?
      = earlier.toList.filterMap Item.passage? ++ passages (stretch ++ lines.map trim) := by
  -- By induction on the lines to come. What is pending is always the run of the stretch since
  -- the last line that was no triangle.
  induction lines generalizing c earlier stretch with
  | nil =>
    rw [scan, List.map_nil, List.append_nil, passages_of_forall hstretch, List.filterMap_append,
      Collector.finish, hc]
    cases stretch <;> rfl
  | cons raw rest ih =>
    cases hpush : c.push raw with
    | mk answer c' =>
      rw [scan, hpush] at hfault ⊢
      cases answer with
      | error e => exact absurd hfault (by simp)
      | ok step =>
        obtain ⟨stretch', hstretch', hc', hpassages⟩ :=
          Collector.passages_push hstretch hc hpush (rest.map trim)
        dsimp only at hfault ⊢
        rw [ih hstretch' hc' hfault, filterMap_append_items, List.append_assoc, ← hpassages,
          List.map_cons]

/-- **Reading a document.** A document without a malformed line is read as its passages. -/
theorem Document.passages_ofLines {policy : KeyPolicy} {lines : List String}
    (h : (ofLines policy lines).fault = none) :
    (ofLines policy lines).items.filterMap Item.passage? = passages (lines.map trim) :=
  have hnone : ∀ line ∈ ([] : List String), isTriangle line = true :=
    fun _ h => absurd h List.not_mem_nil
  passages_scan hnone rfl h

end CollisionMesh
