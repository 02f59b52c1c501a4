import CollisionMesh.Proofs.Accumulator
import CollisionMesh.Proofs.Regrouping

namespace CollisionMesh

open Text

/-!
# Feeding an accumulator

A reader may be given lines and ends of documents in any order. Every turn goes in one of three
ways: a run can end, a line is collected, or a line is refused. So the run that is being read is
always that of the lines collected since a run could end, and a run is told at the first thing
that can end it.

* `Run.Gathers`, `Run.gathers_ofStretch` — what a run has of its lines: a group for each key, in
  the order of their first use, and in it the lines with that key;
* `Feed`, `FeedAnswer`, `Turn`, `feedAll` — what a reader is given one after the other, and answers;
* `Turn.Moves`, `Accumulator.Holds`, `Accumulator.Holds.feed` — the three ways of a turn, and what
  an accumulator reads after it;
* `Accumulator.holds_of_feedAll` — so it is after all turns; `Turn.Follow.exists_stretches` — the
  lines that were collected part into the runs;
* `Accumulator.feedAll_collector` — an accumulator answers as a reader without an index;
* `Accumulator.feedAll_survivors` — lines that are refused change nothing else;
* `Accumulator.Coherent`, `Accumulator.coherent_of_feedAll` — all of it.
-/

/-! ### Stretches that grow -/

/-- A line that does not offend a stretch that can be read can be read with it. -/
theorem Readable.concat {policy : KeyPolicy} {stretch : List String} {line : String}
    (h : Readable policy stretch) (hline : isTriangle line = true)
    (hnone : ∀ fault, ¬ Offends policy stretch line fault) : Readable policy (stretch ++ [line]) := by
  obtain ⟨hrecord, hkeyed, hunkeyed⟩ := (forall_not_offends_iff hline).mp hnone
  -- The first line of the stretch decides on keys, before as after.
  have hall : ∀ keyed, (Run.ofStretch (stretch ++ [line])).keyed = keyed → ∀ l ∈ stretch,
      (Run.ofStretch stretch).keyed = keyed := by
    intro keyed hrun l hl
    obtain ⟨first, later, rfl⟩ := List.exists_cons_of_ne_nil (List.ne_nil_of_mem hl)
    exact hrun
  refine ⟨?_, ?_, ?_⟩
  · rw [List.forall_mem_append, List.forall_mem_singleton]
    exact ⟨h.record, hrecord⟩
  · intro hrun
    rw [List.forall_mem_append, List.forall_mem_singleton]
    exact ⟨fun l hl => h.keyed (hall true hrun l hl) l hl, hkeyed hrun⟩
  · intro hpolicy hrun
    rw [List.forall_mem_append, List.forall_mem_singleton]
    exact ⟨fun l hl => h.unkeyed hpolicy (hall false hrun l hl) l hl, hunkeyed hpolicy hrun⟩

/-- A stretch of lines that were collected: it can be read, and there are no blanks around its
    lines. -/
structure Collectable (policy : KeyPolicy) (stretch : List String) : Prop extends
    Readable policy stretch where
  trimmed : ∀ line ∈ stretch, trim line = line

theorem Collectable.nil (policy : KeyPolicy) : Collectable policy [] :=
  ⟨.nil policy, by simp⟩

/-- A line that is not refused is collected. -/
theorem Collectable.concat {policy : KeyPolicy} {stretch : List String} {raw : String}
    {result : Run × Bool} (h : Collectable policy stretch) (hline : isTriangle (trim raw) = true)
    (hcollect : Collector.collect policy (pendingOf stretch) (trim raw) = .ok result) :
    Collectable policy (stretch ++ [trim raw]) := by
  refine ⟨h.toReadable.concat hline fun fault hoffends => ?_, ?_⟩
  · have herror := (collect_eq_error_iff hline).mpr hoffends
    exact absurd (hcollect.symm.trans herror) (by simp)
  · rw [List.forall_mem_append, List.forall_mem_singleton]
    exact ⟨h.trimmed, trim_trim raw⟩

/-! ### What a run has of its lines -/

/-- A group has the lines with its key. -/
theorem sources_groupOf {stretch : List String}
    (h : ∀ line ∈ stretch, ∃ r, Record.ofLine line = .ok r) (keyed : Bool) (k : Key) :
    (groupOf keyed (stretch.filterMap (Member.ofLine? keyed)) k).sources
      = stretch.filter (lineKey keyed · == k) := by
  rw [groupOf, Group.sources_ofMembers]
  induction stretch with
  | nil => rfl
  | cons line rest ih =>
    obtain ⟨r, hr⟩ := h line List.mem_cons_self
    have hline := Member.ofLine?_of_ofLine hr keyed
    have hkey : lineKey keyed line = (if keyed then r else r.withoutKey).groupKey := by
      rw [lineKey, hline]
    have hrest := ih fun l hl => h l (List.mem_cons_of_mem line hl)
    rw [List.filterMap_cons_some hline, List.filter_cons, List.filter_cons, hkey]
    by_cases heq : ((if keyed then r else r.withoutKey).groupKey == k) = true
    · rw [if_pos heq, if_pos heq, List.map_cons, hrest]
    · rw [if_neg heq, if_neg heq, hrest]

/-- A group of triangles that some lines were read as. -/
structure Group.Gathers (keyed : Bool) (lines : List String) (g : Group) : Prop where
  mode : g.keyed = keyed
  nonempty : g.records ≠ []
  /-- The lines are kept in reading order, -/
  sources : g.sources = lines
  /-- one for each triangle, -/
  length : g.records.length = g.sources.length
  /-- without the blanks around. -/
  trimmed : ∀ line ∈ g.sources, trim line = line
  /-- A triangle is what its line is read as, but for a key that is dropped, -/
  record : ∀ m ∈ g.members, ∃ r, Record.ofLine m.source = .ok r ∧
    m.record = if keyed then r else r.withoutKey
  /-- and has the key of the group, if the run has keys. -/
  key : ∀ r ∈ g.records, r.key = if keyed then some g.key else none

/-- A run of the triangles that some lines were read as. -/
structure Run.Gathers (stretch : List String) (r : Run) : Prop where
  nonempty : stretch ≠ []
  /-- The first line decides on keys. -/
  keyed : r.keyed = stretch.head?.any carriesKey
  nodup : (r.groups.map Group.key).Nodup
  /-- There is a group for each key of a line, in the order of their first use. -/
  keys : r.groups.map Group.key = (stretch.map (lineKey r.keyed)).eraseDups
  /-- Each line is in one group. -/
  one : ∀ line ∈ stretch, ∃! g, g ∈ r.groups ∧ line ∈ g.sources
  /-- A group has the lines with its key. -/
  groups : ∀ g ∈ r.groups, g.Gathers r.keyed (stretch.filter (lineKey r.keyed · == g.key))
  /-- Without keys there is one group. -/
  unkeyed : r.keyed = false → ∃ g : Group, r.groups = [g] ∧ g.key = Key.zero

/-- A run has a group. -/
theorem Run.Gathers.groups_ne_nil {stretch : List String} {r : Run} (h : r.Gathers stretch) :
    r.groups ≠ [] := by
  obtain ⟨line, rest, rfl⟩ := List.exists_cons_of_ne_nil h.nonempty
  obtain ⟨g, hg, -⟩ := h.one line List.mem_cons_self
  exact List.ne_nil_of_mem hg.1

/-- A triangle of a run carries the key of its group, unless the run has none. -/
theorem Readable.key_eq {policy : KeyPolicy} {stretch : List String} (h : Readable policy stretch)
    {m : Member} {k : Key} (hmem : m.source ∈ stretch)
    (hof : Member.ofLine? (Run.ofStretch stretch).keyed m.source = some m)
    (hkey : m.record.groupKey = k) :
    m.record.key = if (Run.ofStretch stretch).keyed then some k else none := by
  obtain ⟨r, hr, hrecord⟩ := exists_ofLine_of_ofLine? hof
  rw [hrecord] at hkey ⊢
  cases hkeyed : (Run.ofStretch stretch).keyed with
  | false => rfl
  | true =>
    have hcarries := h.keyed hkeyed _ hmem
    rw [carriesKey, hr] at hcarries
    obtain ⟨k', hk'⟩ := Option.isSome_iff_exists.mp hcarries
    rw [hkeyed, if_pos rfl, Record.groupKey, hk', Option.getD_some] at hkey
    rw [if_pos rfl, if_pos rfl, hk', hkey]

/-- A group of the run has the lines of the stretch with its key. -/
theorem Group.sources_of_mem_ofStretch {policy : KeyPolicy} {stretch : List String}
    (h : Collectable policy stretch) {g : Group} (hg : g ∈ (Run.ofStretch stretch).groups) :
    g.sources = stretch.filter (lineKey (Run.ofStretch stretch).keyed · == g.key) := by
  obtain ⟨k, -, rfl⟩ := List.mem_map.mp hg
  exact sources_groupOf h.record _ k

/-- **Groups.** What a group of the run of a stretch that can be read has of its lines. -/
theorem Group.gathers_of_mem_ofStretch {policy : KeyPolicy} {stretch : List String}
    (h : Collectable policy stretch) {g : Group} (hg : g ∈ (Run.ofStretch stretch).groups) :
    g.Gathers (Run.ofStretch stretch).keyed
      (stretch.filter (lineKey (Run.ofStretch stretch).keyed · == g.key)) := by
  have hsources := sources_of_mem_ofStretch h hg
  obtain ⟨hkeyed, hmembers⟩ := Run.mem_members_ofStretch hg
  refine ⟨hkeyed, ?_, hsources, g.length_sources.symm, ?_, ?_, ?_⟩
  · rw [← List.length_pos_iff]
    exact Run.size_pos_of_mem hg
  · intro line hline
    rw [hsources] at hline
    exact h.trimmed line (List.mem_of_mem_filter hline)
  · intro m hm
    obtain ⟨-, hof, -⟩ := hmembers m hm
    obtain ⟨r, hr, hrecord⟩ := exists_ofLine_of_ofLine? hof
    exact ⟨r, hr, congrArg Member.record hrecord⟩
  · intro r hr
    obtain ⟨m, hm, rfl⟩ := mem_records_iff.mp hr
    obtain ⟨hmem, hof, hkey⟩ := hmembers m hm
    exact h.key_eq hmem hof hkey

/-- **Runs.** What the run of a stretch that can be read has of its lines. -/
theorem Run.gathers_ofStretch {policy : KeyPolicy} {stretch : List String}
    (h : Collectable policy stretch) (hne : stretch ≠ []) :
    (Run.ofStretch stretch).Gathers stretch := by
  have hkeys : (Run.ofStretch stretch).groups.map Group.key
      = (stretch.map (lineKey (Run.ofStretch stretch).keyed)).eraseDups := by
    rw [map_key_groups_ofStretch, h.groupKeys]
  refine ⟨hne, rfl, nodup_keys_ofStretch stretch, hkeys, ?_,
    fun g => Group.gathers_of_mem_ofStretch h, ?_⟩
  · intro line hline
    -- The group of a line is the one with its key.
    have hmem : lineKey (Run.ofStretch stretch).keyed line
        ∈ (Run.ofStretch stretch).groups.map Group.key := by
      rw [hkeys, List.mem_eraseDups]
      exact List.mem_map_of_mem hline
    obtain ⟨g, hg, hkey⟩ := List.mem_map.mp hmem
    refine ⟨g, ⟨hg, ?_⟩, ?_⟩
    · rw [Group.sources_of_mem_ofStretch h hg, List.mem_filter]
      exact ⟨hline, beq_iff_eq.mpr hkey.symm⟩
    · rintro g' ⟨hg', hline'⟩
      rw [Group.sources_of_mem_ofStretch h hg', List.mem_filter] at hline'
      exact List.inj_on_of_nodup_map (nodup_keys_ofStretch stretch) hg' hg
        ((beq_iff_eq.mp hline'.2).symm.trans hkey.symm)
  · intro hkeyed
    refine ⟨_, groups_ofStretch_of_unkeyed hkeyed ?_, rfl⟩
    intro hnone
    have hsources := Member.sources_ofLines h.record false
    rw [hnone] at hsources
    exact hne hsources.symm

/-! ### Turns -/

/-- What a reader is given. -/
inductive Feed where
  | line (raw : String)
  /-- The end of a document. -/
  | finish

/-- What a reader answers. -/
inductive FeedAnswer where
  | pushed (answer : Except Error Step)
  | finished (ended : Option Run)

/-- What a reader was given, and what it answered. -/
structure Turn where
  feed : Feed
  answer : FeedAnswer

/-- The turns of a reader that is given one thing after the other, and what it is after them. -/
def feedAll {σ : Type} (feed : Feed → σ → FeedAnswer × σ) : List Feed → σ → List Turn × σ
  | [], s => ([], s)
  | f :: rest, s =>
    let (answer, s) := feed f s
    let (turns, s) := feedAll feed rest s
    (⟨f, answer⟩ :: turns, s)

/-- The answer of a reader without an index. -/
def Collector.feed : Feed → Collector → FeedAnswer × Collector
  | .line raw, c => (.pushed (c.push raw).1, (c.push raw).2)
  | .finish, c => (.finished c.finish.1, c.finish.2)

/-- The answer of a reader with an index. -/
def Accumulator.feed : Feed → Accumulator → FeedAnswer × Accumulator
  | .line raw, a => (.pushed (a.push raw).1, (a.push raw).2)
  | .finish, a => (.finished a.finish.1, a.finish.2)

/-- Whether something ends a run: a line that is no triangle, or the end of a document. -/
def Feed.ends : Feed → Bool
  | .line raw => !isTriangle (trim raw)
  | .finish => true

namespace FeedAnswer

/-- The run that was ended. -/
def flush? : FeedAnswer → Option Run
  | .pushed (.ok (.control ended _)) => ended
  | .finished ended => ended
  | _ => none

/-- Whether a line was refused. -/
def refused : FeedAnswer → Bool
  | .pushed (.error _) => true
  | _ => false

end FeedAnswer

/-- The line that was collected, without the blanks around. -/
def Turn.collected? : Turn → Option String
  | ⟨.line raw, .pushed (.ok (.collected _))⟩ => some (trim raw)
  | _ => none

/-- The lines that were collected since a run could end for the last time. -/
def sinceEnd (turns : List Turn) : List String :=
  (turns.rtakeWhile (!·.feed.ends)).filterMap Turn.collected?

/-- One turn more. -/
theorem sinceEnd_concat (turns : List Turn) (x : Turn) :
    sinceEnd (turns ++ [x])
      = if x.feed.ends then [] else sinceEnd turns ++ x.collected?.toList := by
  unfold sinceEnd
  cases h : x.feed.ends with
  | true =>
    rw [List.rtakeWhile_concat_neg _ _ _ (by simp [h])]
    rfl
  | false =>
    rw [List.rtakeWhile_concat_pos _ _ _ (by simp [h]), List.filterMap_append]
    cases hx : x.collected? <;> simp [hx]

/-- One thing more that a reader is given. -/
theorem feedAll_concat {σ : Type} (feed : Feed → σ → FeedAnswer × σ) (feeds : List Feed) (f : Feed)
    (s : σ) : feedAll feed (feeds ++ [f]) s
      = ((feedAll feed feeds s).1 ++ [⟨f, (feed f (feedAll feed feeds s).2).1⟩],
        (feed f (feedAll feed feeds s).2).2) := by
  induction feeds generalizing s with
  | nil => rfl
  | cons first rest ih =>
    rw [List.cons_append, feedAll, feedAll]
    simp only [ih]
    rfl

/-- There is a turn for all that a reader was given. -/
theorem map_feed_feedAll {σ : Type} (feed : Feed → σ → FeedAnswer × σ) (feeds : List Feed) (s : σ) :
    (feedAll feed feeds s).1.map Turn.feed = feeds := by
  induction feeds generalizing s with
  | nil => rfl
  | cons first rest ih => exact congrArg (first :: ·) (ih _)

/-! ### One turn -/

/-- The three ways in which a turn can go, by the stretch of lines that was collected before and
    that which is after. -/
inductive Turn.Moves (policy : KeyPolicy) (stretch : List String) : Turn → List String → Prop where
  /-- The run of the stretch ends. -/
  | ended {f : Feed} {answer : FeedAnswer} (hends : f.ends = true)
      (hflush : answer.flush? = pendingOf stretch) (hnone : Turn.collected? ⟨f, answer⟩ = none) :
      Moves policy stretch ⟨f, answer⟩ []
  /-- A line joins the stretch. -/
  | collected {raw : String} {ambiguous : Bool} (hline : isTriangle (trim raw) = true) :
      Moves policy stretch ⟨.line raw, .pushed (.ok (.collected ambiguous))⟩ (stretch ++ [trim raw])
  /-- A line is refused. -/
  | refused {raw : String} {e : Error} (hline : isTriangle (trim raw) = true) :
      Moves policy stretch ⟨.line raw, .pushed (.error e)⟩ stretch

namespace Turn.Moves

variable {policy : KeyPolicy} {stretch next : List String} {x : Turn}

/-- A run is told iff there is one and it can end. -/
theorem flush (h : x.Moves policy stretch next) :
    x.answer.flush? = if x.feed.ends then pendingOf stretch else none := by
  cases h with
  | ended hends hflush hnone => rw [if_pos hends, hflush]
  | collected hline | refused hline => simp [Feed.ends, hline, FeedAnswer.flush?]

/-- The stretch is what was collected since a run could end. -/
theorem sinceEnd_eq {turns : List Turn} (h : x.Moves policy (sinceEnd turns) next) :
    sinceEnd (turns ++ [x]) = next := by
  rw [sinceEnd_concat]
  cases h with
  | ended hends hflush hnone => rw [if_pos hends]
  | collected hline | refused hline => simp [Feed.ends, hline, collected?]

end Turn.Moves

namespace Accumulator

/-- An accumulator that reads the run of a stretch. -/
structure Holds (policy : KeyPolicy) (stretch : List String) (a : Accumulator) : Prop where
  samePolicy : a.policy = policy
  indexed : a.Indexed
  pending : a.pending = pendingOf stretch
  collectable : Collectable policy stretch

theorem Holds.new (policy : KeyPolicy) : (Accumulator.new policy).Holds policy [] :=
  ⟨rfl, .new policy, rfl, .nil policy⟩

variable {policy : KeyPolicy} {stretch : List String} {a : Accumulator}

/-- Where a run could end none is being read. -/
theorem Holds.of_collector {c : Collector} (hcollector : a.collector = c) (hpolicy : c.policy = policy)
    (hpending : c.pending = none) (hindexed : a.Indexed) : a.Holds policy [] := by
  subst hcollector
  exact ⟨hpolicy, hindexed, hpending, .nil policy⟩

/-- **Turns.** A turn goes in one of the three ways, and the accumulator reads the run of the
    stretch that is after it. -/
theorem Holds.feed (h : a.Holds policy stretch) (f : Feed) :
    ∃ next, Turn.Moves policy stretch ⟨f, (a.feed f).1⟩ next ∧ (a.feed f).2.Holds policy next := by
  cases f with
  | finish =>
    obtain ⟨hended, hleft⟩ := a.takeRun_collector
    refine ⟨[], .ended rfl (hended.trans h.pending) rfl, ?_⟩
    exact .of_collector hleft h.samePolicy rfl h.indexed.takeRun
  | line raw =>
    dsimp only [Accumulator.feed]
    cases hline : isTriangle (trim raw) with
    | false =>
      obtain ⟨hanswer, hleft, hindexed⟩ := push_control h.indexed hline
      rw [hanswer]
      refine ⟨[], .ended (by simp [Feed.ends, hline]) h.pending rfl, ?_⟩
      exact .of_collector hleft h.samePolicy rfl hindexed
    | true =>
      obtain ⟨hrefused, hcollected⟩ := push_triangle h.indexed hline
      cases hcollect : Collector.collect a.policy a.pending (trim raw) with
      | error fault =>
        rw [hrefused fault hcollect]
        exact ⟨stretch, .refused hline, ⟨h.samePolicy, ⟨h.indexed.index, h.indexed.idle⟩, h.pending,
          h.collectable⟩⟩
      | ok result =>
        obtain ⟨run, ambiguous⟩ := result
        obtain ⟨hanswer, hleft, hindexed⟩ := hcollected run ambiguous hcollect
        rw [h.samePolicy, h.pending] at hcollect
        rw [hanswer]
        generalize (a.push raw).2 = after at hleft hindexed
        refine ⟨_, .collected hline, ⟨?_, hindexed, ?_, h.collectable.concat hline hcollect⟩⟩
        · exact (congrArg Collector.policy hleft).trans h.samePolicy
        · exact (congrArg Collector.pending hleft).trans (collect_pendingOf hcollect)

/-- No run is being read iff no line was collected since a run could end. -/
theorem Holds.idle_iff (h : a.Holds policy stretch) : a.state = .idle ↔ stretch = [] := by
  have hpending := h.pending
  unfold Accumulator.pending at hpending
  cases hstate : a.state <;> cases stretch <;> simp_all [pendingOf]

/-- The run that is being read has the lines that were collected. -/
theorem Holds.gathers (h : a.Holds policy stretch) {keyed : Bool}
    (hstate : a.state = .collecting keyed) : Run.Gathers stretch ⟨keyed, a.groups.toList⟩ := by
  have hne : stretch ≠ [] := fun hnil => by simp [h.idle_iff.mpr hnil] at hstate
  have hpending := h.pending
  obtain ⟨line, rest, rfl⟩ := List.exists_cons_of_ne_nil hne
  simp only [Accumulator.pending, hstate, pendingOf, Option.some.injEq] at hpending
  rw [hpending]
  exact Run.gathers_ofStretch h.collectable hne

/-- No run is being read iff there is no group. -/
theorem Holds.idle_iff_groups (h : a.Holds policy stretch) :
    a.state = .idle ↔ a.groups = #[] := by
  refine ⟨h.indexed.idle, fun hgroups => ?_⟩
  cases hstate : a.state with
  | idle => rfl
  | collecting keyed =>
    have hne := (h.gathers hstate).groups_ne_nil
    exact absurd (by simp [hgroups]) hne

end Accumulator

/-! ### All turns -/

/-- Turns that each go in one of the three ways. -/
inductive Turn.Follow (policy : KeyPolicy) : List Turn → Prop where
  | nil : Follow policy []
  | concat {turns : List Turn} {x : Turn} {next : List String} (h : Follow policy turns)
      (hcollectable : Collectable policy (sinceEnd turns))
      (hmoves : x.Moves policy (sinceEnd turns) next) : Follow policy (turns ++ [x])

namespace Turn.Follow

variable {policy : KeyPolicy} {turns : List Turn}

/-- A run is told at the first thing that can end it, and nowhere else. -/
theorem flush (h : Follow policy turns) {earlier later : List Turn} {x : Turn}
    (heq : turns = earlier ++ x :: later) :
    x.answer.flush? = if x.feed.ends then pendingOf (sinceEnd earlier) else none := by
  induction h generalizing later with
  | nil => exact absurd heq (by simp)
  | @concat turns y _ h _ hmoves ih =>
    -- The turn is the last one, or one of those before.
    rcases List.eq_nil_or_concat later with rfl | ⟨later, z, rfl⟩
    · obtain ⟨rfl, hlast⟩ := List.append_inj' heq rfl
      obtain rfl := (List.cons.inj hlast).1
      exact hmoves.flush
    · rw [List.concat_eq_append, ← List.cons_append, ← List.append_assoc] at heq
      exact ih (List.append_inj' heq rfl).1

/-- **Parts.** The lines that were collected part into the stretches of the runs that were told,
    and the stretch of the run that is being read. -/
theorem exists_stretches (h : Follow policy turns) : ∃ stretches : List (List String),
    (∀ stretch ∈ stretches, stretch ≠ [] ∧ Collectable policy stretch) ∧
    turns.filterMap (·.answer.flush?) = stretches.map Run.ofStretch ∧
    turns.filterMap Turn.collected? = stretches.flatten ++ sinceEnd turns := by
  induction h with
  | nil => exact ⟨[], by simp, rfl, rfl⟩
  | @concat turns x next h hcollectable hmoves ih =>
    obtain ⟨stretches, hstretches, hflushes, hcollected⟩ := ih
    rw [hmoves.sinceEnd_eq, List.filterMap_append, List.filterMap_append, hflushes, hcollected]
    cases hmoves with
    | ended hends hflush hnone =>
      cases hstretch : sinceEnd turns with
      | nil =>
        rw [hstretch] at hflush
        exact ⟨stretches, hstretches, by simp [hflush, pendingOf], by simp [hnone]⟩
      | cons line rest =>
        rw [hstretch] at hflush hcollectable
        refine ⟨stretches ++ [line :: rest], ?_, by simp [hflush, pendingOf], by simp [hnone]⟩
        rw [List.forall_mem_append, List.forall_mem_singleton]
        exact ⟨hstretches, List.cons_ne_nil line rest, hcollectable⟩
    | collected hline =>
      exact ⟨stretches, hstretches, by simp [FeedAnswer.flush?], by simp [Turn.collected?]⟩
    | refused hline =>
      exact ⟨stretches, hstretches, by simp [FeedAnswer.flush?], by simp [Turn.collected?]⟩

end Turn.Follow

namespace Accumulator

/-- **All turns.** After any turns an accumulator reads the run of the lines that were collected
    since a run could end. -/
theorem holds_of_feedAll (policy : KeyPolicy) (feeds : List Feed) :
    Turn.Follow policy (feedAll feed feeds (new policy)).1 ∧
      (feedAll feed feeds (new policy)).2.Holds policy
        (sinceEnd (feedAll feed feeds (new policy)).1) := by
  induction feeds using List.reverseRecOn with
  | nil => exact ⟨.nil, .new policy⟩
  | append_singleton feeds f ih =>
    obtain ⟨hfollow, hholds⟩ := ih
    obtain ⟨next, hmoves, hnext⟩ := hholds.feed f
    rw [feedAll_concat, hmoves.sinceEnd_eq]
    exact ⟨.concat hfollow hholds.collectable hmoves, hnext⟩

/-- What a reader without an index is given it answers as one with an index. -/
theorem feedAll_collector (policy : KeyPolicy) (feeds : List Feed) :
    feedAll Collector.feed feeds (Collector.new policy)
      = Prod.map id collector (feedAll feed feeds (new policy)) := by
  induction feeds using List.reverseRecOn with
  | nil => rfl
  | append_singleton feeds f ih =>
    have hindexed := (holds_of_feedAll policy feeds).2.indexed
    rw [feedAll_concat, feedAll_concat, ih]
    dsimp only [Prod.map, id]
    cases f with
    | line raw =>
      have hpush := (push_collector hindexed raw).1
      simp only [Collector.feed, feed, hpush]
    | finish =>
      have hfinish := (finish_collector hindexed).1
      simp only [Collector.feed, feed, hfinish]

/-! ### Lines that are refused -/

/-- What is refused is counted and changes nothing else. -/
theorem feed_of_refused {a : Accumulator} (h : a.Indexed) {f : Feed}
    (hrefused : (a.feed f).1.refused = true) :
    (a.feed f).2 = { a with lineNumber := a.lineNumber + 1 } := by
  cases f with
  | finish => exact absurd hrefused (by simp [feed, FeedAnswer.refused])
  | line raw =>
    dsimp only [feed] at hrefused ⊢
    cases hpush : (a.push raw).1 with
    | ok step => exact absurd hrefused (by simp [hpush, FeedAnswer.refused])
    | error e => exact push_eq_of_error h hpush

/-- What is not refused is answered alike after any number of lines. -/
theorem feed_renumbered {a : Accumulator} {f : Feed} (h : (a.feed f).1.refused = false) (n : Nat) :
    ∃ n', feed f { a with lineNumber := n } = ((a.feed f).1, { (a.feed f).2 with lineNumber := n' }) := by
  cases f with
  | finish =>
    refine ⟨n, ?_⟩
    rw [feed, feed, finish, finish, takeRun_renumbered]
  | line raw =>
    refine ⟨n + 1, ?_⟩
    dsimp only [feed] at h ⊢
    cases hpush : (a.push raw).1 with
    | error e => exact absurd h (by simp [hpush, FeedAnswer.refused])
    | ok step => rw [push_renumbered hpush]

/-- **Lines that are refused.** Without them everything else is answered alike. -/
theorem feedAll_survivors (policy : KeyPolicy) (feeds : List Feed) :
    ∃ n, feedAll feed
        (((feedAll feed feeds (new policy)).1.filter (!·.answer.refused)).map Turn.feed) (new policy)
      = ((feedAll feed feeds (new policy)).1.filter (!·.answer.refused),
        { (feedAll feed feeds (new policy)).2 with lineNumber := n }) := by
  induction feeds using List.reverseRecOn with
  | nil => exact ⟨0, rfl⟩
  | append_singleton feeds f ih =>
    obtain ⟨n, ih⟩ := ih
    have hindexed := (holds_of_feedAll policy feeds).2.indexed
    rw [feedAll_concat]
    dsimp only
    generalize feedAll feed feeds (new policy) = result at ih hindexed
    obtain ⟨turns, a⟩ := result
    dsimp only at ih hindexed ⊢
    cases hrefused : (a.feed f).1.refused with
    | true =>
      refine ⟨n, ?_⟩
      rw [feed_of_refused hindexed hrefused]
      simpa [List.filter_append, hrefused] using ih
    | false =>
      obtain ⟨n', hf⟩ := feed_renumbered hrefused n
      refine ⟨n', ?_⟩
      rw [List.filter_append, List.filter_cons_of_pos (by simp [hrefused]), List.filter_nil,
        List.map_append, List.map_cons, List.map_nil, feedAll_concat, ih]
      dsimp only
      rw [hf]

/-- A line that is refused ends no run. -/
theorem filterMap_flush_survivors (turns : List Turn) :
    (turns.filter (!·.answer.refused)).filterMap (·.answer.flush?)
      = turns.filterMap (·.answer.flush?) := by
  rw [List.filterMap_filter]
  congr 1
  funext x
  obtain ⟨f, answer | ended⟩ := x
  · cases answer <;> rfl
  · rfl

/-! ### Coherence -/

/-- What the parts of an accumulator say of each other, and of the turns that it took. -/
structure Coherent (policy : KeyPolicy) (turns : List Turn) (a : Accumulator) : Prop where
  /-- No run is being read iff there is no group, -/
  idle_iff_groups : a.state = .idle ↔ a.groups = #[]
  /-- and iff the index is empty, -/
  idle_iff_index : a.state = .idle ↔ a.index.isEmpty = true
  /-- and iff no line was collected since a run could end. -/
  idle_iff_waiting : a.state = .idle ↔ sinceEnd turns = []
  /-- The index maps the keys of the groups to their positions, and nothing else. -/
  index : ∀ k i, a.index[k]? = some i ↔ ∃ g : Group, a.groups[i]? = some g ∧ g.key = k
  /-- A run that is being read has the lines that were collected since. -/
  reading : ∀ keyed, a.state = .collecting keyed →
    Run.Gathers (sinceEnd turns) ⟨keyed, a.groups.toList⟩
  /-- A line that is refused is counted and changes nothing else. -/
  refused : ∀ raw e, (a.push raw).1 = .error e →
    (a.push raw).2 = { a with lineNumber := a.lineNumber + 1 }
  /-- Without the lines that were refused everything else is answered alike, -/
  survivors : ∃ n, feedAll feed ((turns.filter (!·.answer.refused)).map Turn.feed) (new policy)
    = (turns.filter (!·.answer.refused), { a with lineNumber := n })
  /-- so the runs are the same. -/
  flushes : (turns.filter (!·.answer.refused)).filterMap (·.answer.flush?)
    = turns.filterMap (·.answer.flush?)
  /-- A run is told at the first thing that can end it, and nowhere else. -/
  flush : ∀ (earlier : List Turn) (x : Turn) (later : List Turn), turns = earlier ++ x :: later →
    x.answer.flush? = if x.feed.ends then pendingOf (sinceEnd earlier) else none
  /-- Each line that was collected is in one of the runs, or in that which is being read. -/
  parts : ∃ stretches : List (List String),
    (∀ stretch ∈ stretches, (Run.ofStretch stretch).Gathers stretch) ∧
    turns.filterMap (·.answer.flush?) = stretches.map Run.ofStretch ∧
    turns.filterMap Turn.collected? = stretches.flatten ++ sinceEnd turns

/-- **Coherence.** Whatever an accumulator is given, its parts agree with each other and with its
    turns, and it answers as a reader that has no index. -/
theorem coherent_of_feedAll (policy : KeyPolicy) (feeds : List Feed) :
    (feedAll feed feeds (new policy)).1.map Turn.feed = feeds ∧
    (feedAll feed feeds (new policy)).2.Coherent policy (feedAll feed feeds (new policy)).1 ∧
    feedAll Collector.feed feeds (Collector.new policy)
      = Prod.map id collector (feedAll feed feeds (new policy)) := by
  obtain ⟨hfollow, hholds⟩ := holds_of_feedAll policy feeds
  refine ⟨map_feed_feedAll _ _ _, ?_, feedAll_collector policy feeds⟩
  obtain ⟨stretches, hstretches, hflushes, hcollected⟩ := hfollow.exists_stretches
  exact {
    idle_iff_groups := hholds.idle_iff_groups
    idle_iff_index := hholds.idle_iff_groups.trans hholds.indexed.isEmpty_iff.symm
    idle_iff_waiting := hholds.idle_iff
    index := hholds.indexed.index
    reading := fun keyed => hholds.gathers
    refused := fun raw e => push_eq_of_error hholds.indexed
    survivors := feedAll_survivors policy feeds
    flushes := filterMap_flush_survivors _
    flush := fun earlier x later => hfollow.flush
    parts := ⟨stretches, fun stretch h =>
      Run.gathers_ofStretch (hstretches stretch h).2 (hstretches stretch h).1, hflushes,
      hcollected⟩ }

end Accumulator

end CollisionMesh
