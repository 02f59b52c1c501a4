import CollisionMesh.Proofs.Offences

namespace CollisionMesh

/-!
# Gaps between control lines

The lines of a document that are no triangles part it into gaps, each with the triangle
lines of one run or with none. A document is read to its end iff each gap can be read on
its own.

* `controls`, `gaps` — the lines that are no triangles, and what lies between them;
* `gapInduction` — a document is one gap, or a gap, a control line and a document;
  `mem_iff_controls_gaps` — its lines are in one of them;
* `Thins` — a gap that lost triangles or keys at most;
* `Readable` — a gap in which no line offends; `readable_iff` — the same for a gap by
  positions;
* `forall_gaps_readable_iff` — no line of a document offends iff all its gaps are readable.
-/

/-- The lines of a document that are no triangles. -/
def controls (lines : List String) : List String :=
  lines.filter fun line => !isTriangle line

/-- The triangle lines between neighbours of these, before the first and after the last. -/
def gaps (lines : List String) : List (List String) :=
  lines.splitOnP fun line => !isTriangle line

/-! ### One gap after the other -/

theorem gaps_of_forall {stretch : List String} (h : ∀ line ∈ stretch, isTriangle line = true) :
    gaps stretch = [stretch] :=
  List.splitOnP_eq_singleton fun line hline => by simp [h line hline]

theorem gaps_append_cons {stretch : List String} (h : ∀ line ∈ stretch, isTriangle line = true)
    {line : String} (hline : isTriangle line = false) (rest : List String) :
    gaps (stretch ++ line :: rest) = stretch :: gaps rest :=
  List.splitOnP_append_cons_of_forall_mem (fun l hl => by simp [h l hl]) _ (by simp [hline]) rest

theorem controls_of_forall {stretch : List String} (h : ∀ line ∈ stretch, isTriangle line = true) :
    controls stretch = [] :=
  List.filter_eq_nil_iff.mpr fun line hline => by simp [h line hline]

theorem controls_append_cons {stretch : List String}
    (h : ∀ line ∈ stretch, isTriangle line = true) {line : String}
    (hline : isTriangle line = false) (rest : List String) :
    controls (stretch ++ line :: rest) = line :: controls rest := by
  show List.filter _ _ = _
  rw [List.filter_append, show stretch.filter _ = [] from controls_of_forall h, List.nil_append,
    List.filter_cons_of_pos (by simp [hline])]
  rfl

/-- **Induction.** A document is one gap, or a gap, a control line and a document. -/
@[elab_as_elim] theorem gapInduction {P : List String → Prop}
    (last : ∀ stretch, (∀ line ∈ stretch, isTriangle line = true) → P stretch)
    (next : ∀ stretch line rest, (∀ l ∈ stretch, isTriangle l = true) → isTriangle line = false →
      P rest → P (stretch ++ line :: rest)) (lines : List String) : P lines := by
  induction hn : lines.length using Nat.strongRecOn generalizing lines with
  | ind n ih =>
    subst hn
    have htake : ∀ l ∈ lines.takeWhile isTriangle, isTriangle l = true :=
      fun l hl => List.mem_takeWhile_imp hl
    rw [← List.takeWhile_append_dropWhile (p := isTriangle) (l := lines)]
    cases hdrop : lines.dropWhile isTriangle with
    | nil =>
      rw [List.append_nil]
      exact last _ htake
    | cons line rest =>
      have hline : isTriangle line = false := by
        have hnot := List.head?_dropWhile_not isTriangle lines
        rw [hdrop] at hnot
        exact hnot
      have hlength := (List.dropWhile_sublist isTriangle (l := lines)).length_le
      rw [hdrop, List.length_cons] at hlength
      exact next _ line rest htake hline (ih rest.length (by omega) rest rfl)

/-- In a gap there are only triangle lines. -/
theorem isTriangle_of_mem_gaps {lines gap : List String} (h : gap ∈ gaps lines) :
    ∀ line ∈ gap, isTriangle line = true := by
  induction lines using gapInduction with
  | last stretch hstretch =>
    rw [gaps_of_forall hstretch, List.mem_singleton] at h
    exact h ▸ hstretch
  | next stretch line rest hstretch hline ih =>
    rw [gaps_append_cons hstretch hline, List.mem_cons] at h
    rcases h with rfl | h
    · exact hstretch
    · exact ih h

/-- A line of a document is a control line or lies in a gap. -/
theorem mem_iff_controls_gaps {lines : List String} {line : String} :
    line ∈ lines ↔ line ∈ controls lines ∨ ∃ gap ∈ gaps lines, line ∈ gap := by
  induction lines using gapInduction with
  | last stretch hstretch => simp [controls_of_forall hstretch, gaps_of_forall hstretch]
  | next stretch control rest hstretch hline ih =>
    rw [controls_append_cons hstretch hline, gaps_append_cons hstretch hline, List.mem_append,
      List.mem_cons, ih, List.mem_cons, List.exists_mem_cons_iff]
    tauto

/-! ### Thinner gaps -/

/-- A gap that lost triangles or keys at most: the keys are some of those before in the same
    order, and what is left of the run carries keys iff it did before. -/
structure Thins (before after : List String) : Prop where
  keys : ((Run.ofStretch after).groups.map Group.key).Sublist
    ((Run.ofStretch before).groups.map Group.key)
  keyed : after ≠ [] → (Run.ofStretch after).keyed = (Run.ofStretch before).keyed
  length : after.length ≤ before.length

theorem Thins.refl (stretch : List String) : Thins stretch stretch :=
  ⟨List.Sublist.refl _, fun _ => rfl, Nat.le_refl _⟩

theorem Thins.trans {first second third : List String} (h₁ : Thins first second)
    (h₂ : Thins second third) : Thins first third := by
  refine ⟨h₂.keys.trans h₁.keys, ?_, h₂.length.trans h₁.length⟩
  intro hne
  have hsecond : second ≠ [] := by
    rintro rfl
    exact hne (List.length_eq_zero_iff.mp (Nat.le_zero.mp h₂.length))
  exact (h₂.keyed hne).trans (h₁.keyed hsecond)

/-! ### Gaps that can be read -/

/-- A stretch of lines that can be read as a run: all of them are records, and they agree on
    keys as far as the policy demands. -/
structure Readable (policy : KeyPolicy) (stretch : List String) : Prop where
  record : ∀ line ∈ stretch, ∃ r, Record.ofLine line = .ok r
  keyed : (Run.ofStretch stretch).keyed = true → ∀ line ∈ stretch, carriesKey line = true
  unkeyed : policy = .strict → (Run.ofStretch stretch).keyed = false →
    ∀ line ∈ stretch, carriesKey line = false

theorem Readable.nil (policy : KeyPolicy) : Readable policy [] :=
  ⟨by simp, by simp, by simp⟩

/-- When a triangle line does not offend. -/
theorem forall_not_offends_iff {policy : KeyPolicy} {stretch : List String} {line : String}
    (hline : isTriangle line = true) :
    (∀ fault, ¬ Offends policy stretch line fault) ↔
      (∃ r, Record.ofLine line = .ok r) ∧
        ((Run.ofStretch (stretch ++ [line])).keyed = true → carriesKey line = true) ∧
        (policy = .strict → (Run.ofStretch (stretch ++ [line])).keyed = false →
          carriesKey line = false) := by
  cases hr : Record.ofLine line with
  | error fault =>
    constructor
    · intro h
      exact absurd (.unreadable hline hr) (h fault)
    · rintro ⟨⟨r, h⟩, -⟩
      exact absurd h (by simp)
  | ok r =>
    have hcarries : carriesKey line = r.key.isSome := by rw [carriesKey, hr]
    constructor
    · intro h
      refine ⟨⟨r, rfl⟩, ?_, ?_⟩
      · intro hkeyed
        rw [hcarries, Option.isSome_iff_ne_none]
        exact fun hkey => h _ (.missingKey hline hr hkey hkeyed)
      · intro hpolicy hkeyed
        rw [hcarries, Option.isSome_eq_false_iff, Option.isNone_iff_eq_none]
        by_contra hkey
        exact h _ (.unexpectedKey hpolicy hline hr hkey hkeyed)
    · rintro ⟨-, hkeyed, hunkeyed⟩ fault (⟨-, h⟩ | ⟨-, h, hkey, hrun⟩ | ⟨hpolicy, -, h, hkey, hrun⟩)
      · exact absurd (hr.symm.trans h) (by simp)
      · obtain rfl := Except.ok.inj (hr.symm.trans h)
        exact absurd (hkeyed hrun) (by simp [hcarries, hkey])
      · obtain rfl := Except.ok.inj (hr.symm.trans h)
        exact absurd (hunkeyed hpolicy hrun) (by simp [hcarries, hkey])

/-- A stretch of triangle lines can be read iff none of them offends. -/
theorem readable_iff {policy : KeyPolicy} {stretch : List String}
    (h : ∀ line ∈ stretch, isTriangle line = true) :
    (∀ n fault, ¬ OffendsAt policy stretch n fault) ↔ Readable policy stretch := by
  -- The lines up to a position start as the stretch does, and all are triangles.
  have hstart : ∀ n line, stretch[n]? = some line →
      (stretch.take n).rtakeWhile isTriangle = stretch.take n ∧
      (Run.ofStretch (stretch.take n ++ [line])).keyed = (Run.ofStretch stretch).keyed := by
    intro n line hline
    refine ⟨List.rtakeWhile_eq_self_iff.mpr fun l hl => h l (List.mem_of_mem_take hl), ?_⟩
    show (stretch.take n ++ [line]).head?.any carriesKey = stretch.head?.any carriesKey
    have htake : stretch.take (n + 1) = stretch.take n ++ [line] := by
      rw [List.take_add_one, hline]
      rfl
    rw [← htake, List.head?_take, if_neg (Nat.succ_ne_zero n)]
  have hline : ∀ n line, stretch[n]? = some line →
      ((∀ fault, ¬ Offends policy ((stretch.take n).rtakeWhile isTriangle) line fault) ↔
        (∃ r, Record.ofLine line = .ok r) ∧
          ((Run.ofStretch stretch).keyed = true → carriesKey line = true) ∧
          (policy = .strict → (Run.ofStretch stretch).keyed = false → carriesKey line = false)) := by
    intro n line hget
    obtain ⟨hall, hkeyed⟩ := hstart n line hget
    rw [hall, forall_not_offends_iff (h line (List.mem_of_getElem? hget)), hkeyed]
  constructor
  · intro hnone
    have hread : ∀ line ∈ stretch, _ := fun line hmem =>
      have ⟨n, hget⟩ := List.getElem?_of_mem hmem
      (hline n line hget).mp fun fault hoffends => hnone n fault ⟨line, hget, hoffends⟩
    exact ⟨fun l hl => (hread l hl).1, fun hk l hl => (hread l hl).2.1 hk,
      fun hp hk l hl => (hread l hl).2.2 hp hk⟩
  · rintro hread n fault ⟨line, hget, hoffends⟩
    have hmem := List.mem_of_getElem? hget
    exact (hline n line hget).mpr ⟨hread.record line hmem, fun hk => hread.keyed hk line hmem,
      fun hp hk => hread.unkeyed hp hk line hmem⟩ fault hoffends

/-- What a list ends with does not reach back beyond an element that fails the test. -/
theorem rtakeWhile_append_cons {β : Type} {p : β → Bool} (before after : List β) {b : β}
    (h : p b = false) : (before ++ b :: after).rtakeWhile p = after.rtakeWhile p := by
  have hstop : (b :: before.reverse).takeWhile p = [] := List.takeWhile_cons_of_neg (by simp [h])
  rw [List.rtakeWhile, List.reverse_append, List.reverse_cons, List.append_assoc,
    List.singleton_append, List.takeWhile_append, hstop, List.append_nil]
  split
  · next hlength =>
    exact congrArg List.reverse ((List.takeWhile_prefix p).eq_of_length hlength).symm
  · rfl

/-- A line before a control line offends iff it does in the lines before that. -/
theorem offendsAt_append_left {policy : KeyPolicy} {before : List String} {n : Nat}
    (hn : n < before.length) (rest : List String) {fault : LineFault} :
    OffendsAt policy (before ++ rest) n fault ↔ OffendsAt policy before n fault := by
  rw [OffendsAt, OffendsAt, List.getElem?_append_left hn, List.take_append_of_le_length hn.le]

/-- A line after a control line offends iff it does in the lines after that. -/
theorem offendsAt_append_right {policy : KeyPolicy} (before : List String) {line : String}
    (hline : isTriangle line = false) {rest : List String} {n : Nat} {fault : LineFault} :
    OffendsAt policy (before ++ line :: rest) (before.length + (n + 1)) fault ↔
      OffendsAt policy rest n fault := by
  rw [OffendsAt, OffendsAt, List.getElem?_append_right (Nat.le_add_right _ _),
    Nat.add_sub_cancel_left, List.getElem?_cons_succ, List.take_append,
    List.take_of_length_le (Nat.le_add_right _ _), Nat.add_sub_cancel_left, List.take_succ_cons,
    rtakeWhile_append_cons _ _ hline]

/-- No line offends around a control line iff none does before it and none after it. -/
theorem forall_not_offendsAt_append_cons {policy : KeyPolicy} {before : List String}
    {line : String} (hline : isTriangle line = false) (rest : List String) :
    (∀ n fault, ¬ OffendsAt policy (before ++ line :: rest) n fault) ↔
      (∀ n fault, ¬ OffendsAt policy before n fault) ∧
        ∀ n fault, ¬ OffendsAt policy rest n fault := by
  constructor
  · intro h
    refine ⟨?_, fun n fault hat => h _ fault ((offendsAt_append_right before hline).mpr hat)⟩
    intro n fault hat
    have hn : n < before.length := by
      obtain ⟨l, hget, -⟩ := hat
      exact (List.getElem?_eq_some_iff.mp hget).1
    exact h n fault ((offendsAt_append_left hn _).mpr hat)
  · rintro ⟨hbefore, hrest⟩ n fault hat
    rcases Nat.lt_trichotomy n before.length with hn | rfl | hn
    · exact hbefore n fault ((offendsAt_append_left hn _).mp hat)
    -- The control line itself is no triangle.
    · exact absurd (offendsAt_append_cons.mp hat).isTriangle (by simp [hline])
    · obtain ⟨m, rfl⟩ := Nat.exists_eq_add_of_lt hn
      exact hrest m fault ((offendsAt_append_right before hline).mp hat)

/-- **Gaps.** No line of a document offends iff all its gaps can be read. -/
theorem forall_gaps_readable_iff {policy : KeyPolicy} {lines : List String} :
    (∀ gap ∈ gaps lines, Readable policy gap) ↔
      ∀ n fault, ¬ OffendsAt policy lines n fault := by
  induction lines using gapInduction with
  | last stretch hstretch =>
    rw [gaps_of_forall hstretch, List.forall_mem_singleton, readable_iff hstretch]
  | next stretch line rest hstretch hline ih =>
    rw [gaps_append_cons hstretch hline, List.forall_mem_cons, ih, ← readable_iff hstretch,
      forall_not_offendsAt_append_cons hline]

end CollisionMesh
