import CollisionMesh.Proofs.Reading
import Mathlib.Data.List.DropRight
import Mathlib.Data.Nat.Find

namespace CollisionMesh

open Text

/-!
# Where reading stops

A triangle line offends the run that it would join if it is no record, if it lacks the key
that the first line of the run has, or, for a strict reader, if it has a key that the
first line has not. Reading stops at the first line that does, and nowhere else.

* `Offends` — a line and the triangle lines of its run before it;
* `OffendsAt`, `StopsAt` — a line of a document that offends, and the first one;
* `collect_eq_error_iff` — a line is refused by the reader iff it offends;
* `Collector.after` — the reader after some lines that do not offend; `push_after_control`,
  `push_after_collect`, `push_after_offence` — its three steps;
* `Document.ofLines_of_not_offends`, `Document.ofLines_of_stopsAt` — the two ways that reading
  can end;
* `Document.ofLines_cases` — a document is read to its end if no line offends. Else its
  fault is the first line that does, and what was read is what the lines before it are
  read as, but for the run that the line would have joined;
* `Document.exists_record` — in a document that is read to its end all triangle lines are
  records.
-/

/-! ### Offences -/

/-- A line offends a run, by the triangle lines of the run that were read before it. The
    first line of all decides on keys. -/
inductive Offends (policy : KeyPolicy) (stretch : List String) (line : String) :
    LineFault → Prop where
  /-- It is no record. -/
  | unreadable {fault : LineFault} (hline : isTriangle line = true)
      (hr : Record.ofLine line = .error fault) : Offends policy stretch line fault
  /-- It lacks the key that the first line has. -/
  | missingKey {r : Record} (hline : isTriangle line = true) (hr : Record.ofLine line = .ok r)
      (hkey : r.key = none) (hkeyed : (Run.ofStretch (stretch ++ [line])).keyed = true) :
      Offends policy stretch line .missingKey
  /-- It has a key that the first line has not, and the reader is strict. -/
  | unexpectedKey {r : Record} (hpolicy : policy = .strict) (hline : isTriangle line = true)
      (hr : Record.ofLine line = .ok r) (hkey : r.key ≠ none)
      (hkeyed : (Run.ofStretch (stretch ++ [line])).keyed = false) :
      Offends policy stretch line .unexpectedKey

/-- The line at a position of a document, its lines without the blanks around, offends the
    run that ends before it. -/
def OffendsAt (policy : KeyPolicy) (lines : List String) (n : Nat) (fault : LineFault) : Prop :=
  ∃ line, lines[n]? = some line ∧ Offends policy ((lines.take n).rtakeWhile isTriangle) line fault

/-- The line at a position is the first that offends. -/
structure StopsAt (policy : KeyPolicy) (lines : List String) (n : Nat) (fault : LineFault) :
    Prop where
  offends : OffendsAt policy lines n fault
  first : ∀ m < n, ∀ f, ¬ OffendsAt policy lines m f

/-- Only triangle lines offend. -/
theorem Offends.isTriangle {policy : KeyPolicy} {stretch : List String} {line : String}
    {fault : LineFault} (h : Offends policy stretch line fault) : isTriangle line = true := by
  cases h <;> assumption

/-- The line after some others offends iff it offends the run that they end with. -/
theorem offendsAt_append_cons {policy : KeyPolicy} {before : List String} {line : String}
    {rest : List String} {fault : LineFault} :
    OffendsAt policy (before ++ line :: rest) before.length fault ↔
      Offends policy (before.rtakeWhile isTriangle) line fault := by
  simp [OffendsAt]

/-- Lines that follow change nothing of what offends before them. -/
theorem OffendsAt.append {policy : KeyPolicy} {before : List String} {n : Nat} {fault : LineFault}
    (h : OffendsAt policy before n fault) (rest : List String) :
    OffendsAt policy (before ++ rest) n fault := by
  obtain ⟨line, hget, hoffends⟩ := h
  have hlt : n < before.length := (List.getElem?_eq_some_iff.mp hget).1
  refine ⟨line, by rw [List.getElem?_append_left hlt, hget], ?_⟩
  rwa [List.take_append_of_le_length hlt.le]

/-- If any line offends, one is the first. -/
theorem exists_stopsAt {policy : KeyPolicy} {lines : List String}
    (h : ∃ n fault, OffendsAt policy lines n fault) : ∃ n fault, StopsAt policy lines n fault := by
  classical
  obtain ⟨fault, hat⟩ := Nat.find_spec h
  exact ⟨Nat.find h, fault, hat, fun m hm f hf => Nat.find_min h hm ⟨f, hf⟩⟩

/-! ### Lines that are refused -/

/-- When a triangle and the run that it would join do not agree on keys. -/
theorem reconcile_eq_error_iff {policy : KeyPolicy} {run : Run} {r : Record} {fault : LineFault} :
    Collector.reconcile policy run r = .error fault ↔
      run.keyed = true ∧ r.key = none ∧ fault = .missingKey ∨
        run.keyed = false ∧ r.key ≠ none ∧ policy = .strict ∧ fault = .unexpectedKey := by
  unfold Collector.reconcile
  cases hkeyed : run.keyed <;> cases hkey : r.key with
  | none => simp [eq_comm]
  | some k => cases policy <;> simp [eq_comm]

/-- A record joins the run of a stretch as soon as the two agree on keys. -/
theorem collect_pendingOf_eq {policy : KeyPolicy} {stretch : List String} {line : String}
    {r : Record} (hr : Record.ofLine line = .ok r) :
    Collector.collect policy (pendingOf stretch) line =
      match stretch with
      | [] => .ok (Run.start ⟨r, line⟩, false)
      | first :: later => (Collector.reconcile policy (Run.ofStretch (first :: later)) r).map
          fun (r', ambiguous) => ((Run.ofStretch (first :: later)).add ⟨r', line⟩, ambiguous) := by
  cases stretch with
  | nil => simp [Collector.collect, pendingOf, hr, bind, Except.bind, pure, Except.pure]
  | cons first later =>
    simp only [Collector.collect, pendingOf, hr, bind, Except.bind]
    cases Collector.reconcile policy (Run.ofStretch (first :: later)) r <;> rfl

/-- **Refusal.** A triangle line is refused iff it offends the pending run. -/
theorem collect_eq_error_iff {policy : KeyPolicy} {stretch : List String} {line : String}
    (hline : isTriangle line = true) {fault : LineFault} :
    Collector.collect policy (pendingOf stretch) line = .error fault ↔
      Offends policy stretch line fault := by
  cases hr : Record.ofLine line with
  | error e =>
    have hcollect : Collector.collect policy (pendingOf stretch) line = .error e := by
      simp [Collector.collect, hr, bind, Except.bind]
    rw [hcollect]
    constructor
    · intro h
      exact .unreadable hline (hr.trans (congrArg _ (Except.error.inj h)))
    · rintro (⟨-, h⟩ | ⟨-, h, -, -⟩ | ⟨-, -, h, -, -⟩) <;> simp_all
  | ok r =>
    rw [collect_pendingOf_eq hr]
    cases stretch with
    | nil =>
      have hkeyed : (Run.ofStretch ([] ++ [line])).keyed = r.key.isSome := by
        show carriesKey line = _
        rw [carriesKey, hr]
      -- The first line of a run decides on keys, so it cannot be at odds with itself.
      constructor
      · intro h
        exact absurd h (by simp)
      · rintro (⟨-, h⟩ | ⟨-, h, hkey, hrun⟩ | ⟨-, -, h, hkey, hrun⟩) <;> simp_all
    | cons first later =>
      have hkeyed : (Run.ofStretch (first :: later ++ [line])).keyed
          = (Run.ofStretch (first :: later)).keyed := rfl
      have hmap : ∀ {x : Except LineFault (Record × Bool)} {f : Record × Bool → Run × Bool},
          x.map f = .error fault ↔ x = .error fault := by
        intro x f
        cases x <;> simp [Except.map]
      rw [hmap, reconcile_eq_error_iff, ← hkeyed]
      constructor
      · rintro (⟨hrun, hkey, rfl⟩ | ⟨hrun, hkey, hpolicy, rfl⟩)
        · exact .missingKey hline hr hkey hrun
        · exact .unexpectedKey hpolicy hline hr hkey hrun
      · rintro (⟨-, h⟩ | ⟨-, h, hkey, hrun⟩ | ⟨hpolicy, -, h, hkey, hrun⟩)
        · exact absurd (hr.symm.trans h) (by simp)
        · obtain rfl := Except.ok.inj (hr.symm.trans h)
          exact .inl ⟨hrun, hkey, rfl⟩
        · obtain rfl := Except.ok.inj (hr.symm.trans h)
          exact .inr ⟨hrun, hkey, hpolicy, rfl⟩

/-! ### The reader after some lines -/

namespace Collector

/-- The reader after some lines that do not offend, without the blanks around: the triangle
    lines that they end with are pending. -/
def after (policy : KeyPolicy) (before : List String) : Collector :=
  ⟨policy, before.length, pendingOf (before.rtakeWhile CollisionMesh.isTriangle)⟩

/-- A line that is no triangle ends the pending run. -/
theorem push_after_control {policy : KeyPolicy} {before : List String} {raw : String}
    (hline : isTriangle (trim raw) = false) :
    (after policy before).push raw
      = (.ok (.control (pendingOf (before.rtakeWhile isTriangle)) (trim raw)),
        after policy (before ++ [trim raw])) := by
  rw [push_control hline, after, after, List.rtakeWhile_concat_neg _ _ _ (by simp [hline])]
  simp [pendingOf]

/-- A triangle line that joins the pending run is collected. -/
theorem push_after_collect {policy : KeyPolicy} {before : List String} {raw : String} {run : Run}
    {ambiguous : Bool} (hline : isTriangle (trim raw) = true)
    (h : collect policy (pendingOf (before.rtakeWhile isTriangle)) (trim raw)
      = .ok (run, ambiguous)) :
    (after policy before).push raw
      = (.ok (.collected ambiguous), after policy (before ++ [trim raw])) := by
  have hpush := push_triangle (c := after policy before) hline h
  rw [hpush, after, after, List.rtakeWhile_concat_pos _ _ _ hline, ← collect_pendingOf h]
  simp

/-- A line that does not offend is read. -/
theorem push_after_of_not_offends {policy : KeyPolicy} {before : List String} {raw : String}
    (h : ∀ fault, ¬ Offends policy (before.rtakeWhile isTriangle) (trim raw) fault) :
    ∃ step, (after policy before).push raw = (.ok step, after policy (before ++ [trim raw])) := by
  cases hline : isTriangle (trim raw) with
  | false => exact ⟨_, push_after_control hline⟩
  | true =>
    cases hcollect : collect policy (pendingOf (before.rtakeWhile isTriangle)) (trim raw) with
    | error fault => exact absurd ((collect_eq_error_iff hline).mp hcollect) (h fault)
    | ok result => exact ⟨_, push_after_collect hline hcollect⟩

/-- A line that offends is malformed. -/
theorem push_after_offence {policy : KeyPolicy} {before : List String} {raw : String}
    {fault : LineFault} (h : Offends policy (before.rtakeWhile isTriangle) (trim raw) fault) :
    ∃ c, (after policy before).push raw = (.error (.malformed (before.length + 1) fault), c) :=
  ⟨_, push_triangle_error h.isTriangle ((collect_eq_error_iff h.isTriangle).mpr h)⟩

end Collector

/-! ### Documents -/

namespace Document

/-- The items that are open to be told when the lines end: the run that they end with. -/
def openItems (lines : List String) : List Item :=
  (pendingOf (lines.rtakeWhile isTriangle)).toList.map Item.run

/-- After a line that was read, the others are read on. -/
theorem scan_after_cons {policy : KeyPolicy} {before : List String} {raw : String} {step : Step}
    (h : (Collector.after policy before).push raw = (.ok step, .after policy (before ++ [trim raw])))
    (earlier : Array Item) (rest : List String) :
    scan (.after policy before) earlier (raw :: rest)
      = scan (.after policy (before ++ [trim raw]))
        (earlier ++ step.items (before ++ [trim raw]).length) rest := by
  rw [scan, h]
  rfl

/-- **Reading on.** Lines of which none offends are read, and what follows them is read after
    them. -/
theorem exists_scan_append {policy : KeyPolicy} (raws : List String)
    (h : ∀ n fault, ¬ OffendsAt policy (raws.map trim) n fault) :
    ∃ items : Array Item, ∀ rest,
      ofLines policy (raws ++ rest) = scan (.after policy (raws.map trim)) items rest := by
  induction raws using List.reverseRecOn with
  | nil => exact ⟨#[], fun rest => rfl⟩
  | append_singleton raws raw ih =>
    rw [List.map_append, List.map_singleton] at h ⊢
    obtain ⟨items, hitems⟩ := ih fun n fault hat => h n fault (hat.append [trim raw])
    have hlast : ∀ fault, ¬ Offends policy ((raws.map trim).rtakeWhile isTriangle) (trim raw) fault :=
      fun fault hoffends => h _ fault (offendsAt_append_cons.mpr hoffends)
    obtain ⟨step, hpush⟩ := Collector.push_after_of_not_offends hlast
    refine ⟨items ++ step.items (raws.map trim ++ [trim raw]).length, fun rest => ?_⟩
    rw [List.append_assoc, List.singleton_append, hitems, scan_after_cons hpush]

/-- A document of which no line offends is read to its end, and the run that is open there is its
    last item. -/
theorem ofLines_of_not_offends {policy : KeyPolicy} {raws : List String}
    (h : ∀ n fault, ¬ OffendsAt policy (raws.map trim) n fault) :
    ∃ items : Array Item,
      ofLines policy raws = ⟨items.toList ++ openItems (raws.map trim), none⟩ ∧
      ∀ rest, ofLines policy (raws ++ rest) = scan (.after policy (raws.map trim)) items rest := by
  obtain ⟨items, hitems⟩ := exists_scan_append raws h
  refine ⟨items, ?_, hitems⟩
  have hend := hitems []
  rwa [List.append_nil] at hend

/-- A document with a line that offends stops at the first one. It was read as the lines before
    it, but for the run that they end with. -/
theorem ofLines_of_stopsAt {policy : KeyPolicy} {raws : List String} {n : Nat} {fault : LineFault}
    (h : StopsAt policy (raws.map trim) n fault) :
    ∃ items : Array Item,
      ofLines policy raws = ⟨items.toList, some (.malformed (n + 1) fault)⟩ ∧
      ofLines policy (raws.take n) = ⟨items.toList ++ openItems ((raws.map trim).take n), none⟩ := by
  obtain ⟨⟨line, hget, hoffends⟩, hfirst⟩ := h
  rw [List.getElem?_map] at hget
  obtain ⟨raw, hraw, rfl⟩ := Option.map_eq_some_iff.mp hget
  obtain ⟨hlt, hraw⟩ := List.getElem?_eq_some_iff.mp hraw
  have hsplit : raws.take n ++ raw :: raws.drop (n + 1) = raws := by
    rw [← hraw, List.getElem_cons_drop, List.take_append_drop]
  have hlen : ((raws.take n).map trim).length = n := by
    rw [List.length_map, List.length_take, Nat.min_eq_left hlt.le]
  -- A line before that offends would be the first one.
  have hclean : ∀ m f, ¬ OffendsAt policy ((raws.take n).map trim) m f := by
    intro m f hm
    have hbefore : m < n := by
      obtain ⟨line, hget, -⟩ := hm
      exact hlen ▸ (List.getElem?_eq_some_iff.mp hget).1
    refine hfirst m hbefore f ?_
    rw [← hsplit, List.map_append]
    exact hm.append _
  obtain ⟨items, htake, hrest⟩ := ofLines_of_not_offends hclean
  rw [← List.map_take] at hoffends ⊢
  obtain ⟨c, hpush⟩ := Collector.push_after_offence hoffends
  refine ⟨items, ?_, htake⟩
  rw [← hsplit, hrest, scan, hpush, hlen]

/-- **Reading a document.** Either no line offends, and the document is read to its end; or
    the first line that does is its fault. Then it was read as the lines before, but for the
    run that they end with. -/
theorem ofLines_cases (policy : KeyPolicy) (raws : List String) :
    ((∀ n fault, ¬ OffendsAt policy (raws.map trim) n fault) ∧
      (ofLines policy raws).fault = none) ∨
    ∃ n fault, StopsAt policy (raws.map trim) n fault ∧
      (ofLines policy raws).fault = some (.malformed (n + 1) fault) ∧
      (ofLines policy (raws.take n)).fault = none ∧
      (ofLines policy (raws.take n)).items
        = (ofLines policy raws).items ++ openItems ((raws.map trim).take n) := by
  by_cases hat : ∃ n fault, OffendsAt policy (raws.map trim) n fault
  · obtain ⟨n, fault, hstops⟩ := exists_stopsAt hat
    obtain ⟨items, hread, htake⟩ := ofLines_of_stopsAt hstops
    refine .inr ⟨n, fault, hstops, ?_⟩
    rw [hread, htake]
    exact ⟨rfl, rfl, rfl⟩
  · simp only [not_exists] at hat
    obtain ⟨items, hread, -⟩ := ofLines_of_not_offends hat
    exact .inl ⟨hat, by rw [hread]⟩

/-- A document is read to its end iff no line offends. -/
theorem fault_eq_none_iff {policy : KeyPolicy} {raws : List String} :
    (ofLines policy raws).fault = none ↔ ∀ n fault, ¬ OffendsAt policy (raws.map trim) n fault := by
  rcases ofLines_cases policy raws with ⟨hclean, hfault⟩ | ⟨n, fault, hstops, hfault, -, -⟩
  · exact ⟨fun _ => hclean, fun _ => hfault⟩
  · constructor
    · intro h
      exact absurd (h.symm.trans hfault) (by simp)
    · intro h
      exact absurd hstops.offends (h n fault)

/-- In a document that is read to its end every triangle line stands for a record. -/
theorem exists_record {policy : KeyPolicy} {raws : List String}
    (h : (ofLines policy raws).fault = none) {line : String} (hline : line ∈ raws.map trim)
    (htri : isTriangle line = true) : ∃ r, Record.ofLine line = .ok r := by
  obtain ⟨n, hget⟩ := List.getElem?_of_mem hline
  cases hr : Record.ofLine line with
  | ok r => exact ⟨r, rfl⟩
  | error fault => exact absurd ⟨line, hget, .unreadable htri hr⟩ (fault_eq_none_iff.mp h n fault)

end Document

end CollisionMesh
