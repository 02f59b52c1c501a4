import CollisionMesh.Proofs.Balance
import CollisionMesh.Proofs.Keeping
import CollisionMesh.Proofs.Offences

namespace CollisionMesh

open Text

/-!
# Strict and lenient readers

Two readers that differ just in their policy take every line alike, up to one whose key the lenient
reader drops and the strict one refuses. So a strict reader finds what a lenient one does as long as
that notes nothing, and else it stops at the line of the first note.

* `Collector.Parts`, `Collector.push_parts` — how the two take a line;
* `Document.Tightens`, `Document.ofLines_tightens` — how they read a document;
* `Document.written` — what comes of a document that was read, under any policy;
* `strict_iff_lenient_without_notes` — a document processed both ways.
-/

/-! ### Lines -/

namespace Collector

/-- The reader with another policy. -/
def under (policy : KeyPolicy) (c : Collector) : Collector :=
  { c with policy }

/-- How a strict and a lenient reader that have read the same take a line: both read it, and no key
    is dropped; both refuse it; or the one drops its key and the other refuses it for that. -/
inductive Parts (raw : String) (c : Collector) : Prop where
  | together (step : Step) (next : Collector) (hstep : step ≠ .collected true)
    (hpush : ∀ policy, (c.under policy).push raw = (.ok step, next.under policy))
  | refused (fault : LineFault) (next : Collector)
    (hpush : ∀ policy, (c.under policy).push raw
      = (.error (.malformed (c.lineNumber + 1) fault), next.under policy))
  | dropped {next next' : Collector} (hnumber : next.lineNumber = c.lineNumber + 1)
    (hlenient : (c.under .lenient).push raw = (.ok (.collected true), next))
    (hstrict : (c.under .strict).push raw
      = (.error (.malformed (c.lineNumber + 1) .unexpectedKey), next'))

/-- A triangle line joins a run under both policies or under none, unless its key is dropped. -/
theorem collect_parts (pending : Option Run) (line : String) :
    (∃ run, ∀ policy, collect policy pending line = .ok (run, false)) ∨
      (∃ fault, ∀ policy, collect policy pending line = .error fault) ∨
      (∃ run, collect .lenient pending line = .ok (run, true)) ∧
        collect .strict pending line = .error .unexpectedKey := by
  unfold collect
  cases Record.ofLine line with
  | error fault => exact .inr (.inl ⟨fault, fun _ => rfl⟩)
  | ok r =>
    cases pending with
    | none => exact .inl ⟨_, fun _ => rfl⟩
    | some run =>
      -- The policy only counts where the line has a key and the run has none.
      simp only [bind, Except.bind, reconcile]
      cases run.keyed with
      | true =>
        cases r.key with
        | none => exact .inr (.inl ⟨_, fun _ => rfl⟩)
        | some k => exact .inl ⟨_, fun _ => rfl⟩
      | false =>
        cases r.key with
        | none => exact .inl ⟨_, fun _ => rfl⟩
        | some k => exact .inr (.inr ⟨⟨_, rfl⟩, rfl⟩)

/-- **Lines.** Two readers that differ just in their policy part over nothing but a key. -/
theorem push_parts (raw : String) (c : Collector) : c.Parts raw := by
  let next (pending : Option Run) : Collector := ⟨c.policy, c.lineNumber + 1, pending⟩
  cases hline : isTriangle (trim raw) with
  | false =>
    exact .together (.control c.pending (trim raw)) (next none) (by simp)
      fun policy => push_control (c := c.under policy) hline
  | true =>
    rcases collect_parts c.pending (trim raw) with
      ⟨run, hrun⟩ | ⟨fault, hfault⟩ | ⟨⟨run, hlenient⟩, hstrict⟩
    · exact .together (.collected false) (next (some run)) (by simp)
        fun policy => push_triangle (c := c.under policy) hline (hrun policy)
    · exact .refused fault (next c.pending)
        fun policy => push_triangle_error (c := c.under policy) hline (hfault policy)
    · exact .dropped rfl (push_triangle (c := c.under .lenient) hline hlenient)
        (push_triangle_error (c := c.under .strict) hline hstrict)

/-- Reading a line counts it, and a malformed one is malformed by its number. -/
theorem push_counts (raw : String) (c : Collector) :
    (c.push raw).2.lineNumber = c.lineNumber + 1 ∧
      ∀ e, (c.push raw).1 = .error e → ∃ fault, e = .malformed (c.lineNumber + 1) fault := by
  cases hline : isTriangle (trim raw) with
  | false =>
    rw [push_control hline]
    exact ⟨rfl, fun e he => absurd he (by simp)⟩
  | true =>
    cases hcollect : collect c.policy c.pending (trim raw) with
    | error fault =>
      rw [push_triangle_error hline hcollect]
      exact ⟨rfl, fun e he => ⟨fault, (Except.error.inj he).symm⟩⟩
    | ok result =>
      rw [push_triangle hline hcollect]
      exact ⟨rfl, fun e he => absurd he (by simp)⟩

end Collector

/-! ### Documents -/

namespace Document

/-- A strict reading of a document beside a lenient one: the same without a note, or up to the
    first note, where the strict reading stops. Then the lenient one is malformed in a later line
    or not at all. -/
inductive Tightens : Document → Document → Prop where
  | same {d : Document} (h : ∀ n, Item.ambiguous n ∉ d.items) : Tightens d d
  | stops {items rest : List Item} {n : Nat} {fault : Option Error}
    (h : ∀ n, Item.ambiguous n ∉ items)
    (hlater : ∀ m reason, fault = some (.malformed m reason) → n < m) :
    Tightens ⟨items, some (.malformed n .unexpectedKey)⟩ ⟨items ++ .ambiguous n :: rest, fault⟩

/-- Reading on keeps the items that were found, and only a line to come is malformed. -/
theorem scan_extends (raws : List String) (c : Collector) (earlier : Array Item) :
    (∃ rest, (scan c earlier raws).items = earlier.toList ++ rest) ∧
      ∀ m reason, (scan c earlier raws).fault = some (.malformed m reason) → c.lineNumber < m := by
  induction raws generalizing c earlier with
  | nil => exact ⟨⟨_, rfl⟩, fun m reason h => absurd h (by simp [scan])⟩
  | cons raw rest ih =>
    obtain ⟨hnumber, herror⟩ := c.push_counts raw
    rw [scan]
    cases hpush : c.push raw with
    | mk answer next =>
      rw [hpush] at hnumber herror
      cases answer with
      | error e =>
        obtain ⟨fault, rfl⟩ := herror e rfl
        refine ⟨⟨[], (List.append_nil _).symm⟩, ?_⟩
        intro m reason h
        obtain ⟨rfl, -⟩ := Error.malformed.inj (Option.some.inj h)
        exact Nat.lt_succ_self _
      | ok step =>
        obtain ⟨⟨later, hitems⟩, hfault⟩ := ih next (earlier ++ step.items next.lineNumber)
        refine ⟨⟨step.items next.lineNumber ++ later, by rw [hitems]; simp⟩, ?_⟩
        intro m reason h
        have hlt := hfault m reason h
        rw [show next.lineNumber = c.lineNumber + 1 from hnumber] at hlt
        exact Nat.lt_of_succ_lt hlt

/-- A line is noted only where its key was dropped. -/
theorem ambiguous_not_mem_items {step : Step} (h : step ≠ .collected true) (line n : Nat) :
    Item.ambiguous n ∉ step.items line := by
  cases step with
  | collected ambiguous =>
    cases ambiguous with
    | true => exact absurd rfl h
    | false => exact List.not_mem_nil
  | control ended text => cases ended <;> simp [Step.items]

/-- **Reading on.** From the same lines on, a strict reader finds no more than a lenient one. -/
theorem scan_tightens (raws : List String) (c : Collector) {earlier : Array Item}
    (h : ∀ n, Item.ambiguous n ∉ earlier.toList) :
    Tightens (scan (c.under .strict) earlier raws) (scan (c.under .lenient) earlier raws) := by
  -- By induction on the lines to come, as long as both readers read them alike.
  induction raws generalizing c earlier with
  | nil =>
    refine .same (d := scan (c.under .lenient) earlier []) ?_
    intro n hn
    rcases List.mem_append.mp hn with hn | hn
    · exact h n hn
    · obtain ⟨r, -, hr⟩ := List.mem_map.mp hn
      exact absurd hr (by simp)
  | cons raw rest ih =>
    cases c.push_parts raw with
    | together step next hstep hpush =>
      rw [scan, scan, hpush, hpush]
      refine ih next ?_
      intro n hn
      rw [Array.toList_appendList] at hn
      rcases List.mem_append.mp hn with hn | hn
      · exact h n hn
      · exact ambiguous_not_mem_items hstep _ n hn
    | refused fault next hpush =>
      rw [scan, scan, hpush, hpush]
      exact .same h
    | @dropped next next' hnumber hlenient hstrict =>
      obtain ⟨⟨later, hitems⟩, hfault⟩ :=
        scan_extends rest next (earlier ++ (Step.collected true).items next.lineNumber)
      rw [scan, scan, hstrict, hlenient]
      dsimp only
      generalize scan next (earlier ++ (Step.collected true).items next.lineNumber) rest = document
        at hitems hfault ⊢
      obtain ⟨items, fault⟩ := document
      -- What is found first from here on is the note of the line.
      obtain rfl : items = earlier.toList ++ .ambiguous (c.lineNumber + 1) :: later := by
        rw [← hnumber]
        simpa [Step.items] using hitems
      rw [hnumber] at hfault
      exact .stops h hfault

/-- **Documents.** A strict reader finds in a document what a lenient one does, or stops at the
    line of its first note. -/
theorem ofLines_tightens (raws : List String) :
    Tightens (ofLines .strict raws) (ofLines .lenient raws) :=
  have hnone : ∀ n, Item.ambiguous n ∉ (#[] : Array Item).toList := fun _ => List.not_mem_nil
  scan_tightens raws (Collector.new .lenient) hnone

end Document

/-! ### Both policies -/

section

variable {σ : Type} [MeshEditor Float σ]

/-- The settings with another policy for keys. -/
def Settings.under (policy : KeyPolicy) (s : Settings) : Settings :=
  { s with keyPolicy := policy }

/-- What comes of a document once it was read: its items are written out, up to its fault. -/
def Document.written (s : Settings) (editor : σ) (d : Document) : Outcome σ :=
  match forEach (emitItem s) d.items (Progress.start editor) with
  | (.error e, p) => ⟨.error e, p.events.toList, p.editor⟩
  | (.ok (), p) =>
    match d.fault with
    | some e => ⟨.error e, p.events.toList, p.editor⟩
    | none => ⟨.ok (p.lines.toList, p.report), p.events.toList, MeshEditor.clearAll p.editor⟩

/-- The policy for keys is for reading. What was read is written out alike under both. -/
theorem processLines_under (policy : KeyPolicy) (s : Settings) (raws : List String) (editor : σ) :
    processLines (s.under policy) raws editor
      = (Document.ofLines policy raws).written s editor := by
  have hitem : emitItem (σ := σ) (s.under policy) = emitItem s := by
    funext item p
    cases item <;> rfl
  unfold processLines
  rw [hitem]
  rfl

/-- What ends the writing of a document is its fault, unless it ends at an item before. -/
theorem Document.result_written_eq_error {s : Settings} {editor : σ} {d : Document} {e : Error}
    (h : (d.written s editor).result = .error e) :
    (∃ p, forEach (emitItem s) d.items (Progress.start editor) = (.error e, p)) ∨
      (∃ p, forEach (emitItem s) d.items (Progress.start editor) = (.ok (), p)) ∧
        d.fault = some e := by
  unfold written at h
  cases hitems : forEach (emitItem s) d.items (Progress.start editor) with
  | mk answer p =>
    rw [hitems] at h
    cases answer with
    | error e' =>
      obtain rfl := Except.error.inj h
      exact .inl ⟨p, rfl⟩
    | ok done =>
      cases hfault : d.fault with
      | some e' =>
        rw [hfault] at h
        obtain rfl := Except.error.inj h
        exact .inr ⟨⟨p, rfl⟩, rfl⟩
      | none =>
        rw [hfault] at h
        exact absurd h (by simp)

/-- An error at an item ends the writing of a document. -/
theorem Document.result_written_of_error {s : Settings} {editor : σ} {d : Document} {e : Error}
    {p : Progress σ} (h : forEach (emitItem s) d.items (Progress.start editor) = (.error e, p)) :
    (d.written s editor).result = .error e := by
  unfold written
  rw [h]

/-- A document with a fault is not rewritten. -/
theorem Document.result_written_ne_ok {s : Settings} {editor : σ} {d : Document} {e : Error}
    (h : d.fault = some e) (answer : List String × Report) :
    (d.written s editor).result ≠ .ok answer := by
  unfold written
  rw [h]
  rcases forEach (emitItem s) d.items (Progress.start editor) with ⟨_ | _, p⟩
  · simp
  · simp

/-- The notes of a document that is rewritten are told. -/
theorem ambiguous_mem_events_iff {s : Settings} {raws : List String} {editor : σ}
    {answer : List String × Report} (hok : (processLines s raws editor).result = .ok answer) {n : Nat} :
    Event.ambiguous n ∈ (processLines s raws editor).events ↔
      Item.ambiguous n ∈ (Document.ofLines s.keyPolicy raws).items := by
  obtain ⟨-, p, hp, -, -, hevents⟩ := exists_balanced_of_processLines hok
  have hevent : ∀ e : Event, e.ambiguous? = some n ↔ e = .ambiguous n := by
    intro e
    cases e <;> simp [Event.ambiguous?]
  have hitem : ∀ i : Item, i.ambiguous? = some n ↔ i = .ambiguous n := by
    intro i
    cases i <;> simp [Item.ambiguous?]
  have hmem : n ∈ p.events.toList.filterMap Event.ambiguous? ↔
      n ∈ (Document.ofLines s.keyPolicy raws).items.filterMap Item.ambiguous? := by
    rw [hp.ambiguous]
  simpa only [hevents, List.mem_filterMap, hevent, hitem, exists_eq_right] using hmem

/-- Actions that end with an error end so however they would go on. -/
theorem forEach_append_of_error {β τ : Type} {action : β → τ → Except Error Unit × τ}
    {bs : List β} {st st' : τ} {e : Error} (h : forEach action bs st = (.error e, st'))
    (later : List β) : forEach action (bs ++ later) st = (.error e, st') := by
  induction bs generalizing st with
  | nil => exact absurd (congrArg Prod.fst h) (by simp [forEach])
  | cons b rest ih =>
    rw [forEach] at h
    rw [List.cons_append, forEach]
    rcases hb : action b st with ⟨_ | _, st₁⟩
    · rw [hb] at h
      exact h
    · rw [hb] at h
      exact ih h

namespace Document.Tightens

variable {strict lenient : Document}

/-- Without a note both readings are the same. -/
theorem eq_of_no_notes (h : Tightens strict lenient)
    (hnotes : ∀ n, Item.ambiguous n ∉ lenient.items) : strict = lenient := by
  cases h with
  | same _ => rfl
  | stops _ _ => exact absurd (List.mem_append_right _ List.mem_cons_self) (hnotes _)

/-- A document is rewritten as it was read strictly only where that met no note. -/
theorem eq_of_ok (h : Tightens strict lenient) {s : Settings} {editor : σ}
    {answer : List String × Report} (hok : (strict.written s editor).result = .ok answer) :
    strict = lenient ∧ ∀ n, Item.ambiguous n ∉ lenient.items := by
  cases h with
  | same hnone => exact ⟨rfl, hnone⟩
  | stops _ _ => exact absurd hok (result_written_ne_ok rfl answer)

/-- Where both fail at a malformed line, the lenient reading does at the same or a later one, unless
    the last request but the clearing was answered with that error. -/
theorem le_of_malformed (h : Tightens strict lenient) {s : Settings} {editor : σ} {k m : Nat}
    {reason reason' : LineFault} {log : List (Exchange Float)}
    (hstrict : (strict.written s editor).result = .error (.malformed k reason))
    (hlenient : (lenient.written s editor).result = .error (.malformed m reason'))
    (hsession : lenient.Session s.tolerances log (some (.malformed m reason'))) :
    k ≤ m ∨ ∃ call, [⟨call, .error (.malformed m reason')⟩, ⟨.clearAll, .done⟩] <:+ log := by
  cases hsession with
  | fatal hgroups =>
    rcases hgroups.error_suffix with hlast | ⟨face, corners, heq⟩
    · exact .inr hlast
    · exact absurd heq (by simp)
  | malformed hgroups hfault =>
    refine .inl ?_
    cases h with
    | same _ =>
      obtain ⟨rfl, -⟩ := Error.malformed.inj (Except.error.inj (hstrict.symm.trans hlenient))
      exact Nat.le_refl _
    | @stops items rest n fault _ hlater =>
      rcases result_written_eq_error hstrict with ⟨p, hitems⟩ | ⟨-, hstops⟩
      -- What ends the items that both find ends the lenient reading there as well.
      · have hends := result_written_of_error (d := ⟨items ++ .ambiguous n :: rest, fault⟩)
          (forEach_append_of_error hitems (.ambiguous n :: rest))
        obtain ⟨rfl, -⟩ := Error.malformed.inj (Except.error.inj (hends.symm.trans hlenient))
        exact Nat.le_refl _
      · obtain ⟨rfl, -⟩ := Error.malformed.inj (Option.some.inj hstops)
        exact Nat.le_of_lt (hlater m reason' hfault)

end Document.Tightens

/-- **Policies.** Whatever an editor answers, a document is rewritten under the strict policy iff
    it is under the lenient one and no note is told. Then all that comes of it is the same, and so
    are the requests that an editor is asked. And where both fail at a malformed line, the strict
    policy does at the first, unless the lenient one did not fail at a line at all: what it was
    asked last, before the clearing, the editor answered with that very error. -/
theorem strict_iff_lenient_without_notes (s : Settings) (raws : List String) (editor : σ) :
    ((∃ answer, (processLines (s.under .strict) raws editor).result = .ok answer) ↔
      (∃ answer, (processLines (s.under .lenient) raws editor).result = .ok answer) ∧
        ∀ n, Event.ambiguous n ∉ (processLines (s.under .lenient) raws editor).events) ∧
    (∀ answer, (processLines (s.under .strict) raws editor).result = .ok answer →
      processLines (s.under .strict) raws editor = processLines (s.under .lenient) raws editor ∧
      processLines (s.under .strict) raws (Recorded.new (α := Float) editor)
        = processLines (s.under .lenient) raws (Recorded.new (α := Float) editor)) ∧
    ∀ k reason m reason',
      (processLines (s.under .strict) raws editor).result = .error (.malformed k reason) →
      (processLines (s.under .lenient) raws editor).result = .error (.malformed m reason') →
      k ≤ m ∨ ∃ log call, Answered editor log (processLines (s.under .lenient) raws editor).editor ∧
        (processLines (s.under .lenient) raws (Recorded.new (α := Float) editor)).editor.calls.toList
          = log.map Exchange.call ∧
        [⟨call, .error (.malformed m reason')⟩, ⟨.clearAll, .done⟩] <:+ log := by
  have htightens := Document.ofLines_tightens raws
  refine ⟨⟨?_, ?_⟩, ?_, ?_⟩
  · rintro ⟨answer, hok⟩
    obtain ⟨hsame, hnone⟩ := htightens.eq_of_ok (processLines_under .strict s raws editor ▸ hok)
    rw [processLines_under, hsame, ← processLines_under] at hok
    exact ⟨⟨answer, hok⟩, fun n hn => hnone n ((ambiguous_mem_events_iff hok).mp hn)⟩
  · rintro ⟨⟨answer, hok⟩, hnone⟩
    have hsame := htightens.eq_of_no_notes fun n hn => hnone n ((ambiguous_mem_events_iff hok).mpr hn)
    rw [processLines_under, ← hsame, ← processLines_under] at hok
    exact ⟨answer, hok⟩
  · intro answer hok
    obtain ⟨hsame, -⟩ := htightens.eq_of_ok (processLines_under .strict s raws editor ▸ hok)
    simp only [processLines_under, hsame, and_self]
  · intro k reason m reason' hstrict hlenient
    obtain ⟨log, hsession, hanswered, hcalls⟩ :=
      processLines_requests (s.under .lenient) raws editor
    rw [hlenient] at hsession
    rw [processLines_under] at hstrict hlenient
    refine (htightens.le_of_malformed hstrict hlenient hsession).imp_right ?_
    rintro ⟨call, hlast⟩
    exact ⟨log, call, hanswered, hcalls, hlast⟩

end

/-- Two triangles of which the second has a key too many. -/
def lateKey : List String :=
  ["TRI 0;0;0 1;0;0 0;1;0", "TRI 0;0;0 1;0;0 0;1;0 0 5"]

/-- An editor that answers its first request with a malformed line. -/
def Prepared.misleading : Prepared Float :=
  ⟨[.error (.malformed 1 .notTriangle)]⟩

/-- A key that comes too late is dropped under the lenient policy, and the next line is malformed
    under it. Under the strict policy the line of the key is. Where an editor answers with a
    malformed line, the lenient policy fails at that one. Where the run begins with the key, both
    policies do the same. -/
theorem strict_iff_lenient_without_notes_late_key :
    (processLines (Settings.standard.under .strict) (lateKey ++ ["TRI 0"]) Prepared.misleading).result
      = .error (.malformed 2 .unexpectedKey) ∧
    (processLines (Settings.standard.under .lenient) (lateKey ++ ["TRI 0"]) Prepared.misleading).result
      = .error (.malformed 3 (.missingVertices 1)) ∧
    (∃ log call, Answered Prepared.misleading log
        (processLines (Settings.standard.under .lenient) lateKey Prepared.misleading).editor ∧
      log.length = 3 ∧ [⟨call, .error (.malformed 1 .notTriangle)⟩, ⟨.clearAll, .done⟩] <:+ log) ∧
    processLines (Settings.standard.under .strict) ["TRI 0;0;0 1;0;0 0;1;0 0 5"]
        (Scripted.new none none : Scripted Float)
      = processLines (Settings.standard.under .lenient) ["TRI 0;0;0 1;0;0 0;1;0 0 5"]
        (Scripted.new none none : Scripted Float) := by
  have hstrict : (processLines (Settings.standard.under .strict) lateKey
      Prepared.misleading).result = .error (.malformed 2 .unexpectedKey) := by
    decide +kernel
  have hlenient : (processLines (Settings.standard.under .lenient) lateKey
      Prepared.misleading).result = .error (.malformed 1 .notTriangle) := by
    decide +kernel
  have hcount : (processLines (Settings.standard.under .lenient) lateKey
      (Recorded.new (α := Float) Prepared.misleading)).editor.calls.toList.length = 3 := by
    decide +kernel
  have hkeyed : (processLines (Settings.standard.under .strict) ["TRI 0;0;0 1;0;0 0;1;0 0 5"]
      (Scripted.new none none : Scripted Float)).result
        = .ok (["TRI 0;0;0 1;0;0 0;1;0 0 5"], ⟨0, 1, 1, 0, 1, 1⟩) := by
    decide +kernel
  obtain ⟨-, hsame, -⟩ := strict_iff_lenient_without_notes Settings.standard
    ["TRI 0;0;0 1;0;0 0;1;0 0 5"] (Scripted.new none none : Scripted Float)
  obtain ⟨-, -, hfirst⟩ :=
    strict_iff_lenient_without_notes Settings.standard lateKey Prepared.misleading
  refine ⟨by decide +kernel, by decide +kernel, ?_, (hsame _ hkeyed).1⟩
  rcases hfirst _ _ _ _ hstrict hlenient with hle | ⟨log, call, hanswered, hcalls, hlast⟩
  · exact absurd hle (by decide)
  · rw [hcalls, List.length_map] at hcount
    exact ⟨log, call, hanswered, hcount, hlast⟩

/-- Not every editor lets the strict policy fail first: one that answers with a malformed line can
    name a line before. -/
theorem malformed_before_strict :
    ¬ ∀ (τ : Type) [MeshEditor Float τ] (s : Settings) (raws : List String) (editor : τ)
        (k : Nat) (reason : LineFault) (m : Nat) (reason' : LineFault),
      (processLines (s.under .strict) raws editor).result = .error (.malformed k reason) →
      (processLines (s.under .lenient) raws editor).result = .error (.malformed m reason') → k ≤ m := by
  intro h
  have hle := h (Prepared Float) Settings.standard lateKey Prepared.misleading 2 .unexpectedKey 1
    .notTriangle (by decide +kernel) (by decide +kernel)
  exact absurd hle (by decide)

end CollisionMesh
