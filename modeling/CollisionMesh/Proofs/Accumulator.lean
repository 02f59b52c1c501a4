import CollisionMesh.Proofs.Items
import CollisionMesh.Run.Accumulator
import Std.Data.HashMap.Lemmas

namespace CollisionMesh

open Text

/-!
# The index of an accumulator

The index of an accumulator maps the keys of the groups to their positions. So a triangle is put
into the group that is found by looking through them, and every line is read as by a reader
without an index. A line that is refused is counted and changes nothing else.

* `addTo_of_getElem?`, `addTo_of_forall_ne` — where a triangle is put by looking through groups;
* `Accumulator.Indexed` — the index is right; `Indexed.insert` — it stays so;
* `Indexed.toList_groups_insert` — a triangle is put into the right group;
* `Accumulator.collector` — the reader without an index that reads the same run;
* `Accumulator.push_triangle`, `Accumulator.push_control` — what becomes of a line;
* `Accumulator.push_collector`, `Accumulator.finish_collector` — both readers answer alike;
* `Accumulator.push_eq_of_error`, `Accumulator.push_renumbered` — lines that are refused.
-/

/-! ### Groups by position -/

/-- A triangle is added to the group of its key, wherever it stands. -/
theorem addTo_of_getElem? {keyed : Bool} {m : Member} {groups : List Group}
    (hnodup : (groups.map Group.key).Nodup) {i : Nat} {g : Group} (hi : groups[i]? = some g)
    (hkey : g.key = m.record.groupKey) :
    Run.addTo keyed m groups = groups.modify i (·.push m) := by
  induction groups generalizing i with
  | nil => exact absurd hi (by simp)
  | cons first rest ih =>
    obtain ⟨hnew, hrest⟩ := List.nodup_cons.mp hnodup
    rw [Run.addTo]
    cases i with
    | zero =>
      obtain rfl : first = g := Option.some.inj hi
      rw [if_pos hkey]
      rfl
    | succ i =>
      rw [List.getElem?_cons_succ] at hi
      have hne : first.key ≠ m.record.groupKey := by
        rintro heq
        exact hnew (List.mem_map.mpr ⟨g, List.mem_of_getElem? hi, hkey.trans heq.symm⟩)
      rw [if_neg hne, ih hrest hi]
      rfl

/-- A triangle whose key no group has is a new group at the end. -/
theorem addTo_of_forall_ne {keyed : Bool} {m : Member} {groups : List Group}
    (h : ∀ g ∈ groups, g.key ≠ m.record.groupKey) :
    Run.addTo keyed m groups = groups ++ [(Group.empty m.record.groupKey keyed).push m] := by
  induction groups with
  | nil => rfl
  | cons first rest ih =>
    rw [Run.addTo, if_neg (h first List.mem_cons_self),
      ih fun g hg => h g (List.mem_cons_of_mem first hg)]
    rfl

/-- The last element can be modified by its position. -/
theorem modify_concat {β : Type} (l : List β) (b : β) (f : β → β) :
    (l ++ [b]).modify l.length f = l ++ [f b] := by
  induction l with
  | nil => rfl
  | cons first rest ih =>
    rw [List.cons_append, List.length_cons, List.modify_succ_cons, ih, List.cons_append]

namespace Accumulator

/-! ### The index -/

/-- What the parts of an accumulator say of each other: the index maps the keys of the groups to
    their positions and nothing else, and there is no group where no run is being read. -/
structure Indexed (a : Accumulator) : Prop where
  index : ∀ k i, a.index[k]? = some i ↔ ∃ g : Group, a.groups[i]? = some g ∧ g.key = k
  idle : a.state = .idle → a.groups = #[]

namespace Indexed

variable {a : Accumulator}

theorem new (policy : KeyPolicy) : (Accumulator.new policy).Indexed :=
  ⟨fun k i => by simp [Accumulator.new], fun _ => rfl⟩

/-- No two groups have the same key, as the index has one position for it. -/
theorem nodup (h : a.Indexed) : (a.groups.toList.map Group.key).Nodup := by
  rw [List.nodup_iff_getElem?_ne_getElem?]
  intro i j hij hj heq
  rw [List.length_map, Array.length_toList] at hj
  have hposition : ∀ n (hn : n < a.groups.size), a.index[a.groups[n].key]? = some n :=
    fun n hn => (h.index _ n).mpr ⟨_, Array.getElem?_eq_getElem hn, rfl⟩
  have hi : i < a.groups.size := by omega
  simp only [List.getElem?_map, Array.getElem?_toList, Array.getElem?_eq_getElem hi,
    Array.getElem?_eq_getElem hj, Option.map_some, Option.some.injEq] at heq
  have hsame := hposition i hi
  rw [heq, hposition j hj] at hsame
  exact absurd (Option.some.inj hsame) (by omega)

/-- A key that the index does not have is the key of no group. -/
theorem ne_of_none (h : a.Indexed) {k : Key} (hnone : a.index[k]? = none) :
    ∀ g ∈ a.groups.toList, g.key ≠ k := by
  rintro g hg rfl
  obtain ⟨i, hi⟩ := List.getElem?_of_mem hg
  rw [Array.getElem?_toList] at hi
  have hsome := (h.index g.key i).mpr ⟨g, hi, rfl⟩
  exact absurd (hnone.symm.trans hsome) (by simp)

/-- The index is empty iff there is no group. -/
theorem isEmpty_iff (h : a.Indexed) : a.index.isEmpty = true ↔ a.groups = #[] := by
  rw [Std.HashMap.isEmpty_iff_forall_not_mem]
  constructor
  · intro hnone
    by_contra hne
    have hfirst : 0 < a.groups.size := Array.size_pos_iff.mpr hne
    have hposition := (h.index a.groups[0].key 0).mpr ⟨_, Array.getElem?_eq_getElem hfirst, rfl⟩
    refine hnone a.groups[0].key ?_
    rw [Std.HashMap.mem_iff_isSome_getElem?, hposition]
    rfl
  · intro hgroups k hmem
    obtain ⟨i, hi⟩ := Option.isSome_iff_exists.mp (Std.HashMap.mem_iff_isSome_getElem?.mp hmem)
    obtain ⟨g, hg, -⟩ := (h.index k i).mp hi
    rw [hgroups] at hg
    exact absurd hg (by simp)

/-- **Grouping.** By the index a triangle is put where it is found by looking through the groups. -/
theorem toList_groups_insert (h : a.Indexed) (keyed : Bool) (m : Member) :
    (a.insert keyed m).groups.toList = Run.addTo keyed m a.groups.toList := by
  unfold insert slot
  cases hslot : a.index[m.record.groupKey]? with
  | some i =>
    obtain ⟨g, hi, hkey⟩ := (h.index _ i).mp hslot
    rw [addTo_of_getElem? h.nodup (by rwa [Array.getElem?_toList]) hkey]
    exact Array.toList_modify
  | none =>
    rw [addTo_of_forall_ne (h.ne_of_none hslot)]
    show ((a.groups.push (.empty m.record.groupKey keyed)).modify a.groups.size _).toList = _
    rw [Array.toList_modify, Array.toList_push, ← Array.length_toList, modify_concat]

/-- The index stays right when the group of a key is looked up, also where it is a new one. -/
theorem slot (h : a.Indexed) (hstate : a.state ≠ .idle) (keyed : Bool) (k : Key) :
    (a.slot keyed k).2.Indexed := by
  unfold Accumulator.slot
  cases hslot : a.index[k]? with
  | some i => exact h
  | none =>
    refine ⟨fun k' i => ?_, fun hidle => absurd hidle hstate⟩
    dsimp only
    rw [Std.HashMap.getElem?_insert, Array.getElem?_push]
    by_cases hk : k = k'
    · -- The new key was not in the index, so none of the old groups has it.
      subst hk
      rw [if_pos (beq_self_eq_true k)]
      by_cases hi : i = a.groups.size
      · rw [if_pos hi, hi]
        simp
      · rw [if_neg hi]
        have hnone := h.ne_of_none hslot
        constructor
        · intro heq
          exact absurd (Option.some.inj heq).symm hi
        · rintro ⟨g, hg, hkey⟩
          exact absurd hkey (hnone g (Array.mem_toList_iff.mpr (Array.mem_of_getElem? hg)))
    · rw [if_neg (by simpa using hk), h.index]
      by_cases hi : i = a.groups.size
      · rw [if_pos hi, hi]
        constructor
        · rintro ⟨g, hg, -⟩
          exact absurd hg (by simp)
        · rintro ⟨g, hg, hkey⟩
          obtain rfl := Option.some.inj hg
          exact absurd hkey hk
      · rw [if_neg hi]

/-- A triangle more does not change the keys of the groups. -/
theorem insert (h : a.Indexed) (hstate : a.state ≠ .idle) (keyed : Bool) (m : Member) :
    (a.insert keyed m).Indexed := by
  have hslot := h.slot hstate keyed m.record.groupKey
  unfold Accumulator.insert
  generalize a.slot keyed m.record.groupKey = found at hslot
  obtain ⟨position, a'⟩ := found
  refine ⟨fun k i => ?_, fun hidle => ?_⟩
  · dsimp only at hslot ⊢
    rw [hslot.index, Array.getElem?_modify]
    split
    · constructor
      · rintro ⟨g, hg, hkey⟩
        exact ⟨g.push m, by rw [hg]; rfl, hkey⟩
      · rintro ⟨g, hg, hkey⟩
        obtain ⟨g₀, hg₀, rfl⟩ := Option.map_eq_some_iff.mp hg
        exact ⟨g₀, hg₀, hkey⟩
    · rfl
  · dsimp only at hslot hidle ⊢
    rw [hslot.idle hidle]
    rfl

end Indexed

/-! ### As by looking through the groups -/

/-- The run that is being read. -/
def pending (a : Accumulator) : Option Run :=
  match a.state with
  | .idle => none
  | .collecting keyed => some ⟨keyed, a.groups.toList⟩

/-- The reader without an index that reads the same run. -/
def collector (a : Accumulator) : Collector :=
  ⟨a.policy, a.lineNumber, a.pending⟩

/-- Nothing but the groups and their index changes with a triangle more. -/
theorem insert_frame (keyed : Bool) (m : Member) (a : Accumulator) :
    (a.insert keyed m).policy = a.policy ∧ (a.insert keyed m).state = a.state ∧
      (a.insert keyed m).lineNumber = a.lineNumber := by
  unfold insert slot
  cases a.index[m.record.groupKey]? <;> exact ⟨rfl, rfl, rfl⟩

/-- A triangle more is one more of the run that is being read. -/
theorem collector_insert {a : Accumulator} (h : a.Indexed) {keyed : Bool}
    (hstate : a.state = .collecting keyed) (m : Member) :
    (a.insert keyed m).collector
      = ⟨a.policy, a.lineNumber, some (Run.add ⟨keyed, a.groups.toList⟩ m)⟩ := by
  obtain ⟨hpolicy, hsame, hnumber⟩ := a.insert_frame keyed m
  simp only [collector, pending, hpolicy, hsame, hnumber, hstate, h.toList_groups_insert, Run.add]

/-- Ending the run leaves none. -/
theorem takeRun_collector (a : Accumulator) :
    a.takeRun.1 = a.pending ∧ a.takeRun.2.collector = { a.collector with pending := none } := by
  unfold takeRun pending collector pending
  cases hstate : a.state with
  | idle => exact ⟨rfl, by simp [hstate]⟩
  | collecting keyed => exact ⟨rfl, rfl⟩

theorem Indexed.takeRun {a : Accumulator} (h : a.Indexed) : a.takeRun.2.Indexed := by
  unfold Accumulator.takeRun
  cases a.state with
  | idle => exact h
  | collecting keyed => exact ⟨fun k i => by simp, fun _ => rfl⟩

/-- A line that stands alone is read as one of a document, and its fault gets the number of the
    line. -/
theorem mapError_atLine_ofLoneLine (number : Nat) (line : String) :
    (Record.ofLoneLine line).mapError (Error.atLine number)
      = match Record.ofLine line with
        | .ok r => .ok r
        | .error fault => .error (.malformed number fault) := by
  unfold Record.ofLoneLine
  cases Record.ofLine line <;> rfl

/-- What becomes of a triangle line, by what becomes of it where the groups are looked through:
    a line that is refused is counted and nothing else. -/
theorem push_triangle {a : Accumulator} (h : a.Indexed) {raw : String}
    (hline : isTriangle (trim raw) = true) :
    (∀ fault, Collector.collect a.policy a.pending (trim raw) = .error fault → a.push raw
      = (.error (.malformed (a.lineNumber + 1) fault), { a with lineNumber := a.lineNumber + 1 })) ∧
    ∀ run ambiguous, Collector.collect a.policy a.pending (trim raw) = .ok (run, ambiguous) →
      (a.push raw).1 = .ok (.collected ambiguous) ∧
      (a.push raw).2.collector = ⟨a.policy, a.lineNumber + 1, some run⟩ ∧
      (a.push raw).2.Indexed := by
  have hkind : LineKind.of (trim raw) = .triangle := of_decide_eq_true hline
  -- A line that is not refused joins the run that is being read, or a new one.
  have hjoin : ∀ (policy : KeyPolicy) (keyed : Bool) (m : Member),
      (insert keyed m ⟨policy, .collecting keyed, a.groups, a.index, a.lineNumber + 1⟩).collector
        = ⟨policy, a.lineNumber + 1, some (Run.add ⟨keyed, a.groups.toList⟩ m)⟩ ∧
      (insert keyed m ⟨policy, .collecting keyed, a.groups, a.index, a.lineNumber + 1⟩).Indexed := by
    intro policy keyed m
    have hbegun : Indexed ⟨policy, .collecting keyed, a.groups, a.index, a.lineNumber + 1⟩ :=
      ⟨h.index, fun hidle => absurd hidle (by simp)⟩
    exact ⟨collector_insert hbegun rfl m, hbegun.insert (by simp) keyed m⟩
  cases hr : Record.ofLine (trim raw) with
  | error fault =>
    simp [Collector.collect, push, hkind, hr, mapError_atLine_ofLoneLine, bind, Except.bind]
  | ok record =>
    cases hstate : a.state with
    | idle =>
      have hstart : Run.start ⟨record, trim raw⟩
          = Run.add ⟨record.key.isSome, a.groups.toList⟩ ⟨record, trim raw⟩ := by
        rw [h.idle hstate]
        rfl
      cases hkey : record.key <;>
        simp [Collector.collect, push, hkind, hr, mapError_atLine_ofLoneLine, bind, Except.bind, pure,
          Except.pure, pending, hstate, hstart, hkey, hjoin]
    | collecting keyed =>
      cases keyed <;> cases hkey : record.key <;> cases hpolicy : a.policy <;>
        simp [Collector.collect, Collector.reconcile, push, hkind, hr, mapError_atLine_ofLoneLine,
          bind, Except.bind, pure, Except.pure, pending, hstate, hkey, hpolicy, hjoin]

/-- Any other line is counted and ends the run. -/
theorem push_of_not_triangle (a : Accumulator) {raw : String}
    (hline : isTriangle (trim raw) = false) :
    a.push raw = (.ok (.control (takeRun { a with lineNumber := a.lineNumber + 1 }).1 (trim raw)),
      (takeRun { a with lineNumber := a.lineNumber + 1 }).2) := by
  have hkind : LineKind.of (trim raw) ≠ .triangle := of_decide_eq_false hline
  unfold push
  dsimp only
  split
  · next heq => exact absurd heq hkind
  · rfl

/-- What becomes of a line that is no triangle. -/
theorem push_control {a : Accumulator} (h : a.Indexed) {raw : String}
    (hline : isTriangle (trim raw) = false) :
    (a.push raw).1 = .ok (.control a.pending (trim raw)) ∧
      (a.push raw).2.collector = ⟨a.policy, a.lineNumber + 1, none⟩ ∧ (a.push raw).2.Indexed := by
  have hcount : Indexed { a with lineNumber := a.lineNumber + 1 } := ⟨h.index, h.idle⟩
  obtain ⟨hended, hleft⟩ := takeRun_collector { a with lineNumber := a.lineNumber + 1 }
  rw [push_of_not_triangle a hline]
  exact ⟨by rw [hended]; rfl, hleft, hcount.takeRun⟩

/-- **Refinement.** A reader with an index answers to every line as the reader without one, and
    both read the same run from then on. -/
theorem push_collector {a : Accumulator} (h : a.Indexed) (raw : String) :
    a.collector.push raw = ((a.push raw).1, (a.push raw).2.collector) ∧
      (a.push raw).2.Indexed := by
  cases hline : isTriangle (trim raw) with
  | false =>
    obtain ⟨hanswer, hleft, hindexed⟩ := push_control h hline
    rw [Collector.push_control hline, hanswer, hleft]
    exact ⟨rfl, hindexed⟩
  | true =>
    have hpush := push_triangle h hline
    cases hcollect : Collector.collect a.policy a.pending (trim raw) with
    | error fault =>
      have hrefused := Collector.push_triangle_error (c := a.collector) hline hcollect
      rw [hrefused, hpush.1 fault hcollect]
      exact ⟨rfl, h.index, h.idle⟩
    | ok result =>
      obtain ⟨run, ambiguous⟩ := result
      obtain ⟨hanswer, hleft, hindexed⟩ := hpush.2 run ambiguous hcollect
      have hcollected := Collector.push_triangle (c := a.collector) hline hcollect
      rw [hcollected, hanswer, hleft]
      exact ⟨rfl, hindexed⟩

/-- Both end the run alike. -/
theorem finish_collector {a : Accumulator} (h : a.Indexed) :
    a.collector.finish = (a.finish.1, a.finish.2.collector) ∧ a.finish.2.Indexed := by
  obtain ⟨hended, hleft⟩ := a.takeRun_collector
  rw [finish, hended, hleft]
  exact ⟨rfl, h.takeRun⟩

/-! ### Lines that are refused -/

/-- **Atomicity.** A line that is malformed is counted and changes nothing else. -/
theorem push_eq_of_error {a : Accumulator} (h : a.Indexed) {raw : String} {e : Error}
    (herror : (a.push raw).1 = .error e) :
    (a.push raw).2 = { a with lineNumber := a.lineNumber + 1 } := by
  cases hline : isTriangle (trim raw) with
  | false => exact absurd ((push_control h hline).1.symm.trans herror) (by simp)
  | true =>
    have hpush := push_triangle h hline
    cases hcollect : Collector.collect a.policy a.pending (trim raw) with
    | error fault => rw [hpush.1 fault hcollect]
    | ok result => exact absurd ((hpush.2 _ _ hcollect).1.symm.trans herror) (by simp)

/-- Where a triangle is put does not depend on how many lines were read. -/
theorem insert_renumbered (keyed : Bool) (m : Member) (a : Accumulator) (n : Nat) :
    insert keyed m { a with lineNumber := n } = { insert keyed m a with lineNumber := n } := by
  unfold insert slot
  dsimp only
  cases a.index[m.record.groupKey]? <;> rfl

/-- What ends does not depend on how many lines were read. -/
theorem takeRun_renumbered (a : Accumulator) (n : Nat) :
    takeRun { a with lineNumber := n } = (a.takeRun.1, { a.takeRun.2 with lineNumber := n }) := by
  obtain ⟨policy, state, groups, index, number⟩ := a
  cases state <;> rfl

/-- What a line is read as does not depend on how many lines were read, unless it is refused. -/
theorem push_renumbered {a : Accumulator} {raw : String} {step : Step}
    (h : (a.push raw).1 = .ok step) (n : Nat) :
    push raw { a with lineNumber := n } = (.ok step, { (a.push raw).2 with lineNumber := n + 1 }) := by
  cases hline : isTriangle (trim raw) with
  | false =>
    rw [push_of_not_triangle a hline] at h ⊢
    rw [push_of_not_triangle _ hline, ← Except.ok.inj h]
    dsimp only
    rw [takeRun_renumbered a (n + 1), takeRun_renumbered a (a.lineNumber + 1)]
  | true =>
    have hkind : LineKind.of (trim raw) = .triangle := of_decide_eq_true hline
    unfold push at h ⊢
    simp only [hkind, mapError_atLine_ofLoneLine] at h ⊢
    cases hr : Record.ofLine (trim raw) with
    | error fault => simp [hr] at h
    | ok record =>
      cases hstate : a.state with
      | idle => cases hkey : record.key <;> simp_all [← insert_renumbered]
      | collecting keyed =>
        cases keyed <;> cases hkey : record.key <;> cases hpolicy : a.policy <;>
          simp_all [← insert_renumbered]

end Accumulator

end CollisionMesh
