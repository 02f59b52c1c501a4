import CollisionMesh.Editor.Recorder
import CollisionMesh.Proofs.Paths
import CollisionMesh.Proofs.Text
import Mathlib.Logic.Function.Iterate

namespace CollisionMesh

open Text

/-!
# Documents in files

A document that is processed in a file changes one file at most, and none where anything fails:
what is written is written after all that can be refused.

* `processFile_cases` — the tree is left as it is, or has the output as one file more or anew;
* `processRepeatedly` — a document processed, then what was written for it, and so on;
* `processFile_all_or_nothing` — what is in the files after that;
* `input_kept_unless_named` — the input is as it was unless the output names it.
-/

section

variable {σ : Type} [MeshEditor Float σ]

/-- **One document.** Either anything fails and the tree is left as it is; or the document in the
    file was processed, and the tree has its output in the place that the output path names. -/
theorem processFile_cases (s : Settings) (path : String) (editor : σ) (t : FileTree) :
    (∃ e editor', processFile (m := StateM FileTree) s path editor t = ((.error e, editor'), t)) ∨
      ∃ text lines report l, t.readText path = .ok text ∧
        (process s text editor).result = .ok (lines, report) ∧
        s.outputSuffix ≠ "" ∧ t.Names (outputPath path s.outputSuffix) l ∧
        FileTree.meansFolder (outputPath path s.outputSuffix) = false ∧
        processFile (m := StateM FileTree) s path editor t
          = ((.ok (outputPath path s.outputSuffix, report), (process s text editor).editor),
            t.put l (render lines).toUTF8) := by
  have hread : readLines (m := StateM FileTree) path t
      = (((t.readText path).mapError (.file path)).map lines, t) := rfl
  rw [processFile, FileTree.run_bind, hread]
  cases htext : t.readText path with
  | error fault => exact .inl ⟨.file path fault, editor, rfl⟩
  | ok text =>
    dsimp only [Except.mapError, Except.map]
    cases hresult : (processLines s (Text.lines text) editor).result with
    | error e => exact .inl ⟨e, _, rfl⟩
    | ok answer =>
      obtain ⟨written, report⟩ := answer
      dsimp only
      rcases writeBeside_cases written path s.outputSuffix t with
        ⟨e, hwrite⟩ | ⟨l, hne, hl, hfile, hwrite⟩
      · refine .inl ⟨e, (processLines s (Text.lines text) editor).editor, ?_⟩
        rw [FileTree.run_bind, hwrite]
        rfl
      · refine .inr ⟨text, written, report, l, rfl, hresult, hne, hl, hfile, ?_⟩
        rw [FileTree.run_bind, hwrite]
        rfl

/-! ### Again and again -/

/-- A document in a file processed, then what was written for it, and so on for a number of times,
    up to the first failure. Answers the path that was written last. -/
def processRepeatedly {m : Type → Type} [Monad m] [FileAccess m] (s : Settings) :
    Nat → String → σ → m (Except Error String × σ)
  | 0, path, editor => return (.ok path, editor)
  | n + 1, path, editor => do
    match ← processFile s path editor with
    | (.error e, editor) => return (.error e, editor)
    | (.ok (output, _), editor) => processRepeatedly s n output editor

/-- The path after a number of documents, each beside the one before. -/
def outputPaths (suffix : String) (n : Nat) (path : String) : String :=
  (outputPath · suffix)^[n] path

/-- A file has the rendered lines that a document was processed to. -/
def IsOutput (σ : Type) [MeshEditor Float σ] (s : Settings) (content : ByteArray) : Prop :=
  ∃ (text : String) (editor : σ) (lines : List String) (report : Report),
    (process s text editor).result = .ok (lines, report) ∧ content = (render lines).toUTF8

/-- **Repetition.** No folder is made. Where something else stands after a number of documents than
    before, one of the output paths leads there, and what stands there is such an output. -/
theorem processRepeatedly_cases (s : Settings) (n : Nat) (path : String) (editor : σ) (t : FileTree) :
    (processRepeatedly (m := StateM FileTree) s n path editor t).2.folders = t.folders ∧
      ∀ l, (processRepeatedly (m := StateM FileTree) s n path editor t).2.look l = t.look l ∨
        ∃ k content, 1 ≤ k ∧ k ≤ n ∧ IsOutput σ s content ∧
          (processRepeatedly (m := StateM FileTree) s n path editor t).2.look l = .file l content ∧
          (processRepeatedly (m := StateM FileTree) s n path editor t).2.resolve
            (outputPaths s.outputSuffix k path) = .ok (.file l content) := by
  induction n generalizing path editor t with
  | zero => exact ⟨rfl, fun l => .inl rfl⟩
  | succ n ih =>
    rcases processFile_cases s path editor t with
      ⟨e, editor', hrun⟩ | ⟨text, lines, report, l₁, -, hresult, -, hl₁, -, hrun⟩
    -- A failure leaves the tree as it is.
    · have hstop : processRepeatedly (m := StateM FileTree) s (n + 1) path editor t
          = ((.error e, editor'), t) := by
        rw [processRepeatedly, FileTree.run_bind, hrun]
        rfl
      rw [hstop]
      exact ⟨rfl, fun l => .inl rfl⟩
    · have hnext : processRepeatedly (m := StateM FileTree) s (n + 1) path editor t
          = processRepeatedly (m := StateM FileTree) s n (outputPath path s.outputSuffix)
            (process s text editor).editor (t.put l₁ (render lines).toUTF8) := by
        rw [processRepeatedly, FileTree.run_bind, hrun]
      rw [hnext]
      obtain ⟨hfolders, hlook⟩ := ih (outputPath path s.outputSuffix) (process s text editor).editor
        (t.put l₁ (render lines).toUTF8)
      generalize processRepeatedly (m := StateM FileTree) s n (outputPath path s.outputSuffix)
        (process s text editor).editor (t.put l₁ (render lines).toUTF8) = final at hfolders hlook ⊢
      refine ⟨hfolders, fun l => ?_⟩
      rcases hlook l with hsame | ⟨k, content, hk, hkn, houtput, hfile, hresolve⟩
      · by_cases hl : l = l₁
        -- What the first document wrote is still there, and its path still leads to it.
        · subst hl
          rw [FileTree.look_put hl₁.1] at hsame
          have hnames := (hl₁.of_folders hfolders).2
          rw [hsame] at hnames
          exact .inr ⟨1, _, Nat.le_refl 1, Nat.le_add_left 1 n, ⟨text, editor, lines, report, hresult,
            rfl⟩, hsame, hnames⟩
        · exact .inl (hsame.trans (FileTree.look_put_of_ne hl _))
      · exact .inr ⟨k + 1, content, Nat.le_add_left 1 k, Nat.succ_le_succ hkn, houtput, hfile, hresolve⟩

/-- **All or nothing.** Where a document in a file fails, whatever it fails at, the tree is left as
    it is. Else the answer is the path of the file with the suffix and the counts of its text; where
    that path leads, there is a file with the rendered lines and nothing else; and in all other
    places the same stands as before. So any number of documents, each beside the one before, change
    just what their output paths lead to, and what stands there is such an output. -/
theorem processFile_all_or_nothing (s : Settings) (path : String) (editor : σ) (t : FileTree) :
    (∀ e editor' t', processFile (m := StateM FileTree) s path editor t = ((.error e, editor'), t') →
      t' = t) ∧
    (∀ output report editor' t',
      processFile (m := StateM FileTree) s path editor t = ((.ok (output, report), editor'), t') →
      output = path ++ s.outputSuffix ∧ ∃ text lines l, t.readText path = .ok text ∧
        (process s text editor).result = .ok (lines, report) ∧
        t'.resolve output = .ok (.file l (render lines).toUTF8) ∧
        t'.readText output = .ok (render lines) ∧
        t'.folders = t.folders ∧ ∀ l' ≠ l, t'.look l' = t.look l') ∧
    ∀ n answer t', processRepeatedly (m := StateM FileTree) s n path editor t = (answer, t') →
      t'.folders = t.folders ∧ ∀ l, t'.look l = t.look l ∨
        ∃ k content, 1 ≤ k ∧ k ≤ n ∧ IsOutput σ s content ∧ t'.look l = .file l content ∧
          t'.resolve (outputPaths s.outputSuffix k path) = .ok (.file l content) := by
  refine ⟨?_, ?_, ?_⟩
  · intro e editor' t' h
    rcases processFile_cases s path editor t with ⟨e', _, hrun⟩ | ⟨_, _, _, _, -, -, -, -, -, hrun⟩
    · exact (congrArg Prod.snd (hrun.symm.trans h)).symm
    · exact absurd (congrArg (fun run => run.1.1) (hrun.symm.trans h)) (by simp)
  · intro output report editor' t' h
    rcases processFile_cases s path editor t with
      ⟨e, _, hrun⟩ | ⟨text, lines, report', l, hread, hresult, -, hl, hfile, hrun⟩
    · exact absurd (congrArg (fun run => run.1.1) (hrun.symm.trans h)) (by simp)
    · obtain ⟨hanswer, rfl⟩ := Prod.mk.inj (hrun.symm.trans h)
      obtain ⟨rfl, rfl⟩ := Prod.mk.inj (Except.ok.inj (Prod.mk.inj hanswer).1)
      have hresolve := (hl.of_folders (FileTree.folders_put t l (render lines).toUTF8)).2
      rw [FileTree.look_put hl.1] at hresolve
      exact ⟨rfl, text, lines, l, hread, hresult, hresolve, FileTree.readText_put hl hfile _, rfl,
        fun l' hne => FileTree.look_put_of_ne hne _⟩
  · intro n answer t' h
    have hcases := processRepeatedly_cases s n path editor t
    rwa [h] at hcases

/-- An answer with its first part named. -/
private theorem exists_eq_of_fst {α β : Type} {r : α × β} {a : α} (h : r.1 = a) :
    ∃ b, r = (a, b) :=
  ⟨r.2, by rw [← h]⟩

private theorem exists_eq_of_fst_fst {α β τ : Type} {r : (α × β) × τ} {a : α} (h : r.1.1 = a) :
    ∃ b t, r = ((a, b), t) :=
  ⟨r.1.2, r.2, by rw [← h]⟩

/-- A document of one control line in a folder: it is rewritten beside itself, and again beside
    that. A file that is not there leaves all as it is. -/
theorem processFile_all_or_nothing_area :
    ∃ (t t' t'' : FileTree) (editor editor' editor'' : Scripted Float),
      processFile (m := StateM FileTree) Settings.standard "b" (Scripted.new none none : Scripted Float)
        t = ((.error (.file "b" .notFound), editor), t) ∧
      processFile (m := StateM FileTree) Settings.standard "d/a"
        (Scripted.new none none : Scripted Float) t
          = ((.ok ("d/a.new", ⟨1, 0, 0, 0, 0, 0⟩), editor'), t') ∧
      (∃ text lines l, t.readText "d/a" = .ok text ∧
        (process Settings.standard text (Scripted.new none none : Scripted Float)).result
          = .ok (lines, ⟨1, 0, 0, 0, 0, 0⟩) ∧
        t'.resolve "d/a.new" = .ok (.file l (render lines).toUTF8) ∧
        t'.readText "d/a.new" = .ok (render lines) ∧
        t'.folders = t.folders ∧ ∀ l' ≠ l, t'.look l' = t.look l') ∧
      processRepeatedly (m := StateM FileTree) Settings.standard 2 "d/a"
        (Scripted.new none none : Scripted Float) t = ((.ok "d/a.new.new", editor''), t'') ∧
      t''.folders = t.folders := by
  obtain ⟨editor, t₁, hmissing⟩ := exists_eq_of_fst_fst (r := processFile (m := StateM FileTree)
    Settings.standard "b" (Scripted.new none none : Scripted Float)
    (.ofFiles [("d/a", "  AREA 1 1".toUTF8)])) (a := .error (.file "b" .notFound)) (by decide +kernel)
  obtain ⟨editor', t', hwritten⟩ := exists_eq_of_fst_fst (r := processFile (m := StateM FileTree)
    Settings.standard "d/a" (Scripted.new none none : Scripted Float)
    (.ofFiles [("d/a", "  AREA 1 1".toUTF8)])) (a := .ok ("d/a.new", ⟨1, 0, 0, 0, 0, 0⟩))
    (by decide +kernel)
  obtain ⟨editor'', t'', hagain⟩ := exists_eq_of_fst_fst (r := processRepeatedly (m := StateM FileTree)
    Settings.standard 2 "d/a" (Scripted.new none none : Scripted Float)
    (.ofFiles [("d/a", "  AREA 1 1".toUTF8)])) (a := .ok "d/a.new.new") (by decide +kernel)
  obtain ⟨hfails, -, -⟩ := processFile_all_or_nothing Settings.standard "b"
    (Scripted.new none none : Scripted Float) (.ofFiles [("d/a", "  AREA 1 1".toUTF8)])
  obtain ⟨-, hsucceeds, hrepeats⟩ := processFile_all_or_nothing Settings.standard "d/a"
    (Scripted.new none none : Scripted Float) (.ofFiles [("d/a", "  AREA 1 1".toUTF8)])
  rw [hfails _ _ _ hmissing] at hmissing
  obtain ⟨-, houtput⟩ := hsucceeds _ _ _ _ hwritten
  obtain ⟨hfolders, -⟩ := hrepeats 2 _ _ hagain
  exact ⟨_, t', t'', editor, editor', editor'', hmissing, hwritten, houtput, hagain, hfolders⟩

/-! ### Inputs -/

variable {t : FileTree} {input : String} {l l' : Location} {content : ByteArray}

/-- A path to a file leads to the same location after something is written. -/
theorem FileTree.resolve_put_eq_look (h : t.resolve input = .ok (.file l content)) (l' : Location)
    (written : ByteArray) :
    t.look l = .file l content ∧ t.Names input l ∧
      (t.put l' written).resolve input = .ok ((t.put l' written).look l) := by
  obtain ⟨l₁, hl, hlook⟩ := names_of_resolve h (by simp)
  obtain rfl : l = l₁ := (congrArg Target.location hlook).trans (location_look t l₁)
  exact ⟨hlook.symm, hl, (hl.of_folders (folders_put t l' written)).2⟩

/-- A path leads to a file as before where something else is written. -/
theorem FileTree.resolve_put_of_ne (h : t.resolve input = .ok (.file l content)) (hne : l ≠ l')
    (written : ByteArray) : (t.put l' written).resolve input = .ok (.file l content) := by
  obtain ⟨hlook, -, hput⟩ := FileTree.resolve_put_eq_look h l' written
  rw [hput, look_put_of_ne hne, hlook]

/-- A path leads to what was written where it leads to. -/
theorem FileTree.resolve_put (h : t.resolve input = .ok (.file l content)) (written : ByteArray) :
    (t.put l written).resolve input = .ok (.file l written) := by
  obtain ⟨-, hl, hput⟩ := FileTree.resolve_put_eq_look h l written
  rw [hput, look_put hl.1]

/-- **Inputs.** A file with a document is as it was, byte for byte, whatever comes of processing it or
    of writing beside it, unless the output path leads to this very file; a suffix without a slash
    makes no such path. Where the output path does, the document is lost as soon as the output is
    written: the file has its rendered lines. -/
theorem input_kept_unless_named (h : t.resolve input = .ok (.file l content)) (suffix : String) :
    (('/' ∉ suffix.toList ∨ ¬ t.Names (outputPath input suffix) l) →
      (∀ lines, (writeBeside (m := StateM FileTree) lines input suffix t).2.resolve input
        = .ok (.file l content)) ∧
      ∀ (s : Settings) (editor : σ), s.outputSuffix = suffix →
        (processFile (m := StateM FileTree) s input editor t).2.resolve input
          = .ok (.file l content)) ∧
    (t.Names (outputPath input suffix) l →
      (∀ lines output t', writeBeside (m := StateM FileTree) lines input suffix t = (.ok output, t') →
        t'.resolve input = .ok (.file l (render lines).toUTF8)) ∧
      ∀ (s : Settings) (editor : σ) output report editor' t', s.outputSuffix = suffix →
        processFile (m := StateM FileTree) s input editor t
          = ((.ok (output, report), editor'), t') →
        ∃ text lines, t.readText input = .ok text ∧
          (process s text editor).result = .ok (lines, report) ∧
          t'.resolve input = .ok (.file l (render lines).toUTF8)) := by
  refine ⟨?_, ?_⟩
  · intro hfree
    -- The empty suffix is refused, so that just the other ones have to name another place.
    have hother : ∀ {l'}, suffix ≠ "" → t.Names (outputPath input suffix) l' → l ≠ l' := by
      rintro l' hne hl' rfl
      rcases hfree with hslash | hnot
      · exact FileTree.not_names_outputPath hne hslash h hl'
      · exact hnot hl'
    refine ⟨?_, ?_⟩
    · intro lines
      rcases writeBeside_cases lines input suffix t with ⟨e, hrun⟩ | ⟨l', hne, hl', -, hrun⟩
      · rw [hrun]
        exact h
      · rw [hrun]
        exact FileTree.resolve_put_of_ne h (hother hne hl') _
    · rintro s editor rfl
      rcases processFile_cases s input editor t with
        ⟨e, editor', hrun⟩ | ⟨text, lines, report, l', -, -, hne, hl', -, hrun⟩
      · rw [hrun]
        exact h
      · rw [hrun]
        exact FileTree.resolve_put_of_ne h (hother hne hl') _
  · intro hnames
    refine ⟨?_, ?_⟩
    · intro lines output t' hok
      rcases writeBeside_cases lines input suffix t with ⟨e, hrun⟩ | ⟨l', -, hl', -, hrun⟩
      · exact absurd (congrArg Prod.fst (hrun.symm.trans hok)) (by simp)
      · obtain ⟨-, rfl⟩ := Prod.mk.inj (hrun.symm.trans hok)
        rw [← hnames.unique hl']
        exact FileTree.resolve_put h _
    · rintro s editor output report editor' t' rfl hok
      rcases processFile_cases s input editor t with
        ⟨e, _, hrun⟩ | ⟨text, lines, report', l', hread, hresult, -, hl', -, hrun⟩
      · exact absurd (congrArg (fun run => run.1.1) (hrun.symm.trans hok)) (by simp)
      · obtain ⟨hanswer, rfl⟩ := Prod.mk.inj (hrun.symm.trans hok)
        obtain ⟨-, rfl⟩ := Prod.mk.inj (Except.ok.inj (Prod.mk.inj hanswer).1)
        rw [← hnames.unique hl']
        exact ⟨text, lines, hread, hresult, FileTree.resolve_put h _⟩

/-- Beside a folder, a suffix that leads into it and out again names the input, and no other one
    in use does. -/
theorem input_kept_unless_named_detour :
    ∃ t : FileTree, t.resolve "x" = .ok (.file ["x"] "  AREA 1 1".toUTF8) ∧
      '/' ∉ ".new".toList ∧
      (∀ lines, (writeBeside (m := StateM FileTree) lines "x" ".new" t).2.resolve "x"
        = .ok (.file ["x"] "  AREA 1 1".toUTF8)) ∧
      t.Names (outputPath "x" "_d/../x") ["x"] ∧
      ∃ t', writeBeside (m := StateM FileTree) ["AREA 2 2"] "x" "_d/../x" t = (.ok "x_d/../x", t') ∧
        t'.resolve "x" = .ok (.file ["x"] (render ["AREA 2 2"]).toUTF8) := by
  refine ⟨.ofFiles [("x", "  AREA 1 1".toUTF8), ("x_d/keep", "".toUTF8)], ?_⟩
  have hinput : (FileTree.ofFiles [("x", "  AREA 1 1".toUTF8), ("x_d/keep", "".toUTF8)]).resolve "x"
      = .ok (.file ["x"] "  AREA 1 1".toUTF8) := rfl
  have hslash : '/' ∉ ".new".toList := by decide
  have hnames : (FileTree.ofFiles [("x", "  AREA 1 1".toUTF8), ("x_d/keep", "".toUTF8)]).Names
      (outputPath "x" "_d/../x") ["x"] := ⟨by unfold FileTree.IsFolder; decide, rfl⟩
  obtain ⟨hkept, -⟩ := input_kept_unless_named (σ := Scripted Float) hinput ".new"
  obtain ⟨-, hlost⟩ := input_kept_unless_named (σ := Scripted Float) hinput "_d/../x"
  obtain ⟨t', hrun⟩ := exists_eq_of_fst (r := writeBeside (m := StateM FileTree) ["AREA 2 2"] "x"
    "_d/../x" (.ofFiles [("x", "  AREA 1 1".toUTF8), ("x_d/keep", "".toUTF8)]))
    (a := .ok "x_d/../x") (by decide +kernel)
  exact ⟨hinput, hslash, (hkept (.inl hslash)).1, hnames, t', hrun, (hlost hnames).1 _ _ _ hrun⟩

/-- The settings with another suffix. -/
def Settings.suffixed (suffix : String) (s : Settings) : Settings :=
  { s with outputSuffix := suffix }

/-- The refusal of the empty suffix does not keep all inputs: this one is overwritten by its output,
    both by processing it and by writing beside it. -/
theorem input_overwritten :
    ∃ t : FileTree, t.resolve "x" = .ok (.file ["x"] "  AREA 1 1".toUTF8) ∧
      (processFile (m := StateM FileTree) (Settings.standard.suffixed "_d/../x") "x"
        (Scripted.new none none : Scripted Float) t).2.readText "x" = .ok "AREA 1 1\n" ∧
      (writeBeside (m := StateM FileTree) ["AREA 1 1"] "x" "_d/../x" t).2.readText "x"
        = .ok "AREA 1 1\n" :=
  ⟨.ofFiles [("x", "  AREA 1 1".toUTF8), ("x_d/keep", "".toUTF8)], rfl, by decide +kernel,
    by decide +kernel⟩

end

end CollisionMesh
