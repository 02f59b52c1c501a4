import CollisionMesh.Files.Tree
import CollisionMesh.Proofs.Text

namespace CollisionMesh

/-!
# Paths and what is written under them

What a path leads to depends on the folders of a tree, and only at its end on what is there: so a
path that names a place for a file names it still when files were written. Writing a document
line by line comes to its rendered text, in the place that the path names and nowhere else.

* `FileTree.look_put`, `FileTree.look_put_of_ne`, `FileTree.put_put` — a content at a place;
* `FileTree.Names` — a path names a place for a file; `FileTree.Names.of_folders` — for the folders
  of the tree, whatever its files are;
* `FileTree.create_cases`, `appendLines_put`, `writeLines_cases`, `writeBeside_cases` — a file is
  written as a whole, or the tree is as it was;
* `FileTree.readText_put` — what was written is read.
-/

/-- Where a target stands. -/
def Target.location : Target → Location
  | .folder l | .file l _ | .nothing l => l

namespace FileTree

variable {t t' : FileTree} {l l' : Location} {path : String}

/-! ### Contents -/

/-- A folder stands at a location. -/
def IsFolder (t : FileTree) (l : Location) : Prop :=
  l = [] ∨ l ∈ t.folders

theorem look_of_isFolder (h : t.IsFolder l) : t.look l = .folder l :=
  if_pos h

theorem look_of_not_isFolder (h : ¬ t.IsFolder l) :
    t.look l = match t.files.lookup l with
      | some content => .file l content
      | none => .nothing l :=
  if_neg h

/-- Where no folder stands there is a file or nothing, at this very place. -/
theorem look_cases (h : ¬ t.IsFolder l) :
    (∃ content, t.look l = .file l content) ∨ t.look l = .nothing l := by
  rw [look_of_not_isFolder h]
  cases t.files.lookup l with
  | some content => exact .inl ⟨content, rfl⟩
  | none => exact .inr rfl

@[simp] theorem location_look (t : FileTree) (l : Location) : (t.look l).location = l := by
  by_cases h : t.IsFolder l
  · rw [look_of_isFolder h]
    rfl
  · rcases look_cases h with ⟨content, h⟩ | h <;> rw [h] <;> rfl

/-- Where no folder stands none is found. -/
theorem look_ne_folder (h : ¬ t.IsFolder l) (d : Location) : t.look l ≠ .folder d := by
  rcases look_cases h with ⟨content, h⟩ | h <;> rw [h] <;> simp

@[simp] theorem folders_put (t : FileTree) (l : Location) (content : ByteArray) :
    (t.put l content).folders = t.folders := rfl

/-- What is put last at a location counts. -/
@[simp] theorem put_put (t : FileTree) (l : Location) (first last : ByteArray) :
    (t.put l first).put l last = t.put l last := by
  simp [put, List.filter_filter]

/-- A content that was put is found. -/
@[simp] theorem lookup_put (t : FileTree) (l : Location) (content : ByteArray) :
    (t.put l content).files.lookup l = some content := by
  have hnone : (t.files.filter fun entry => entry.1 ≠ l).lookup l = none := by
    rw [List.lookup_eq_none_iff]
    intro entry hentry
    have hne : entry.1 ≠ l := of_decide_eq_true (List.mem_filter.mp hentry).2
    simpa using Ne.symm hne
  rw [put, List.lookup_append, hnone, List.lookup_cons_self]
  rfl

/-- Other contents are found as before. -/
theorem lookup_put_of_ne (h : l' ≠ l) (content : ByteArray) :
    (t.put l content).files.lookup l' = t.files.lookup l' := by
  have hfilter : ∀ files : List (Location × ByteArray),
      (files.filter fun entry => entry.1 ≠ l).lookup l' = files.lookup l' := by
    intro files
    induction files with
    | nil => rfl
    | cons entry rest ih =>
      by_cases hentry : entry.1 = l
      · rw [List.filter_cons_of_neg (by simp [hentry]), ih, List.lookup_cons, hentry,
          beq_eq_false_iff_ne.mpr h]
      · rw [List.filter_cons_of_pos (by simp [hentry]), List.lookup_cons, List.lookup_cons, ih]
  rw [put, List.lookup_append, hfilter]
  simp [List.lookup_cons, beq_eq_false_iff_ne.mpr h]

/-- Where no folder stands, what is put is what stands there. -/
theorem look_put (h : ¬ t.IsFolder l) (content : ByteArray) :
    (t.put l content).look l = .file l content := by
  have hput : ¬ (t.put l content).IsFolder l := h
  rw [look_of_not_isFolder hput, lookup_put]

/-- Elsewhere the same stands as before. -/
theorem look_put_of_ne (h : l' ≠ l) (content : ByteArray) :
    (t.put l content).look l' = t.look l' := by
  unfold look
  rw [lookup_put_of_ne h]
  rfl

/-! ### Paths -/

/-- A path names a place for a file: it leads to a place where no folder stands. -/
def Names (t : FileTree) (path : String) (l : Location) : Prop :=
  ¬ t.IsFolder l ∧ t.resolve path = .ok (t.look l)

/-- From a folder a name leads to itself or above in all trees, or to what stands there by it. -/
theorem step_folder (folder : Location) (name : String) :
    (∃ d, ∀ t : FileTree, t.step (.folder folder) name = .ok (.folder d)) ∨
      ∀ t : FileTree, t.step (.folder folder) name = .ok (t.look (folder ++ [name])) := by
  by_cases hstay : name = "."
  · exact .inl ⟨folder, fun t => by rw [step, if_pos hstay]⟩
  by_cases hup : name = ".."
  · exact .inl ⟨folder.dropLast, fun t => by rw [step, if_neg hstay, if_pos hup]⟩
  · exact .inr fun t => by rw [step, if_neg hstay, if_neg hup]

/-- From where no folder stands no name leads on. -/
theorem exists_step_eq_error {target : Target} (h : ∀ d, target ≠ .folder d) (name : String) :
    ∃ fault, t.step target name = .error fault := by
  cases target with
  | folder d => exact absurd rfl (h d)
  | file l content => exact ⟨_, rfl⟩
  | nothing l => exact ⟨_, rfl⟩

/-- From a folder on, names lead to a folder or to a place for a file, in all trees with the same
    folders alike. -/
theorem foldlM_step_cases (hfolders : t'.folders = t.folders) {names : List String}
    {folder : Location} {target : Target} (h : names.foldlM t.step (.folder folder) = .ok target) :
    (∃ d, target = .folder d ∧ names.foldlM t'.step (.folder folder) = .ok (.folder d)) ∨
      ∃ l, ¬ t.IsFolder l ∧ target = t.look l ∧
        names.foldlM t'.step (.folder folder) = .ok (t'.look l) := by
  induction names generalizing folder with
  | nil => exact .inl ⟨folder, (Except.ok.inj h).symm, rfl⟩
  | cons name rest ih =>
    rw [List.foldlM_cons] at h ⊢
    rcases step_folder folder name with ⟨d, hstep⟩ | hstep
    · rw [hstep] at h ⊢
      exact ih h
    rw [hstep] at h ⊢
    by_cases hfolder : t.IsFolder (folder ++ [name])
    · have hfolder' : t'.IsFolder (folder ++ [name]) := by rwa [IsFolder, hfolders]
      rw [look_of_isFolder hfolder] at h
      rw [look_of_isFolder hfolder']
      exact ih h
    -- Nothing is looked up below a place where no folder stands, so this is the last name.
    · cases rest with
      | nil => exact .inr ⟨_, hfolder, (Except.ok.inj h).symm, rfl⟩
      | cons next later =>
        obtain ⟨fault, hstuck⟩ := exists_step_eq_error (t := t) (look_ne_folder hfolder) next
        exact absurd h (by simp [bind, Except.bind, hstuck])

/-- A path leads to a folder or names a place for a file, in all trees with the same folders
    alike. -/
theorem resolve_cases (hfolders : t'.folders = t.folders) {target : Target}
    (h : t.resolve path = .ok target) :
    (∃ d, target = .folder d ∧ t'.resolve path = .ok (.folder d)) ∨
      ∃ l, ¬ t.IsFolder l ∧ target = t.look l ∧ t'.resolve path = .ok (t'.look l) := by
  unfold resolve at h ⊢
  cases hempty : path.isEmpty with
  | true =>
    rw [hempty] at h
    exact absurd h (by simp)
  | false =>
    rw [hempty] at h
    exact foldlM_step_cases hfolders h

/-- A path that leads to no folder names a place for a file. -/
theorem names_of_resolve {target : Target} (h : t.resolve path = .ok target)
    (hne : ∀ d, target ≠ .folder d) : ∃ l, t.Names path l ∧ target = t.look l := by
  rcases resolve_cases (rfl : t.folders = t.folders) h with ⟨d, rfl, -⟩ | ⟨l, hl, rfl, hresolve⟩
  · exact absurd rfl (hne d)
  · exact ⟨l, ⟨hl, hresolve⟩, rfl⟩

namespace Names

/-- What a path names depends on the folders only. -/
theorem of_folders (h : t.Names path l) (hfolders : t'.folders = t.folders) : t'.Names path l := by
  obtain ⟨hl, hresolve⟩ := h
  rcases resolve_cases hfolders hresolve with ⟨d, hlook, -⟩ | ⟨l', -, hlook, hresolve'⟩
  · exact absurd hlook (look_ne_folder hl d)
  · obtain rfl : l = l' := by simpa using congrArg Target.location hlook
    exact ⟨by rwa [IsFolder, hfolders], hresolve'⟩

/-- A path names one place. -/
theorem unique (h : t.Names path l) (h' : t.Names path l') : l = l' := by
  have hlook : t.look l = t.look l' := Except.ok.inj (h.2.symm.trans h'.2)
  simpa using congrArg Target.location hlook

end Names

/-- What was put where a path names a place is read by it. -/
theorem readText_put (h : t.Names path l) (hfile : meansFolder path = false) (text : String) :
    (t.put l text.toUTF8).readText path = .ok text := by
  have hresolve := (h.of_folders (folders_put t l text.toUTF8)).2
  rw [look_put h.1] at hresolve
  have htext : String.fromUTF8? text.toUTF8 = some text := dif_pos text.isValidUTF8
  rw [readText, hresolve]
  dsimp only
  rw [hfile, htext]
  rfl

/-! ### Names of paths -/

/-- A text without cuts is put behind the last piece. -/
theorem split_append {isCut : Char → Bool} {suffix : List Char} (h : ∀ c ∈ suffix, isCut c = false)
    (text : List Char) : ∃ before last, Text.split isCut text = before ++ [last] ∧
      Text.split isCut (text ++ suffix) = before ++ [last ++ suffix] := by
  induction text with
  | nil =>
    refine ⟨[], [], rfl, ?_⟩
    rw [Text.split_eq_splitOnP]
    exact List.splitOnP_eq_singleton h
  | cons c rest ih =>
    obtain ⟨before, last, htext, happend⟩ := ih
    simp only [Text.split, List.cons_append, List.foldr_cons] at htext happend ⊢
    rw [htext, happend]
    cases hcut : isCut c with
    | true => exact ⟨[] :: before, last, rfl, rfl⟩
    | false =>
      cases before with
      | nil => exact ⟨[], c :: last, rfl, rfl⟩
      | cons piece later => exact ⟨(c :: piece) :: later, last, rfl, rfl⟩

/-- A suffix without a slash is put behind the last name of a path, or is a name of its own where
    the path ends in a slash. -/
theorem pathNames_outputPath {input suffix : String} (hne : suffix ≠ "")
    (hslash : '/' ∉ suffix.toList) :
    (∃ before name, pathNames input = before ++ [name] ∧
        pathNames (outputPath input suffix) = before ++ [name ++ suffix]) ∨
      pathNames (outputPath input suffix) = pathNames input ++ [suffix] := by
  have hfree : ∀ c ∈ suffix.toList, (c == '/') = false := by
    intro c hc
    exact beq_eq_false_iff_ne.mpr fun heq => hslash (heq ▸ hc)
  obtain ⟨before, last, hinput, houtput⟩ := split_append hfree input.toList
  have hsuffix : suffix.toList ≠ [] := by simpa using hne
  unfold pathNames outputPath
  rw [String.toList_append, hinput, houtput]
  cases last with
  | nil => exact .inr (by simp [hsuffix])
  | cons c rest => exact .inl ⟨_, String.ofList (c :: rest), by simp; rfl, by simp [String.append_assoc]⟩

/-! ### Writing -/

/-- The names of a path lead where the path does. -/
theorem foldlM_of_resolve {target : Target} (h : t.resolve path = .ok target) :
    (pathNames path).foldlM t.step (.folder []) = .ok target := by
  unfold resolve at h
  cases hempty : path.isEmpty with
  | true =>
    rw [hempty] at h
    exact absurd h (by simp)
  | false =>
    rw [hempty] at h
    exact h

/-- Names that lead to a place for a file end with its name in a folder. -/
theorem exists_folder_of_concat {names : List String} {name : String} {target : Target}
    (h : (names ++ [name]).foldlM t.step (.folder []) = .ok target) (hne : ∀ d, target ≠ .folder d) :
    ∃ d, names.foldlM t.step (.folder []) = .ok (.folder d) ∧ target = t.look (d ++ [name]) := by
  rw [List.foldlM_append] at h
  cases hnames : names.foldlM t.step (.folder []) with
  | error fault =>
    rw [hnames] at h
    exact absurd h (by simp [bind, Except.bind])
  | ok reached =>
    have h : (t.step reached name >>= pure) = Except.ok target := by rwa [hnames] at h
    rw [bind_pure] at h
    by_cases hreached : ∃ d, reached = .folder d
    · obtain ⟨d, rfl⟩ := hreached
      refine ⟨d, rfl, ?_⟩
      rcases step_folder d name with ⟨d', hstep⟩ | hstep
      · rw [hstep] at h
        exact absurd (Except.ok.inj h).symm (hne d')
      · rw [hstep] at h
        exact (Except.ok.inj h).symm
    · obtain ⟨fault, hstuck⟩ :=
        exists_step_eq_error (t := t) (fun d hd => hreached ⟨d, hd⟩) name
      rw [hstuck] at h
      exact absurd h (by simp)

/-- **Names.** A suffix without a slash makes of the path of a file that of another place. -/
theorem not_names_outputPath {input suffix : String} {content : ByteArray} (hne : suffix ≠ "")
    (hslash : '/' ∉ suffix.toList) (h : t.resolve input = .ok (.file l content)) :
    ¬ t.Names (outputPath input suffix) l := by
  rintro ⟨hl, houtput⟩
  have hinput := foldlM_of_resolve h
  have houtput := foldlM_of_resolve houtput
  rcases pathNames_outputPath hne hslash with ⟨before, name, hnames, hnames'⟩ | hnames'
  -- Both end in the same folder with different names.
  · rw [hnames] at hinput
    rw [hnames'] at houtput
    obtain ⟨d, hbefore, hfile⟩ := exists_folder_of_concat hinput (by simp)
    obtain ⟨d', hbefore', hlook⟩ := exists_folder_of_concat houtput (look_ne_folder hl)
    obtain rfl : d = d' := by simpa using hbefore.symm.trans hbefore'
    have hplace : l = d ++ [name] := (congrArg Target.location hfile).trans (location_look t _)
    have hplace' : l = d ++ [name ++ suffix] := by simpa using congrArg Target.location hlook
    have hname : name = name ++ suffix := by simpa using hplace.symm.trans hplace'
    have hlength : suffix.length = 0 := by simpa using congrArg String.length hname
    exact hne (String.length_eq_zero_iff.mp hlength)
  -- Nothing is looked up below a file.
  · rw [hnames'] at houtput
    obtain ⟨d, hbefore, -⟩ := exists_folder_of_concat houtput (look_ne_folder hl)
    exact absurd (hinput.symm.trans hbefore) (by simp)

/-- A file is made empty in the place that a path names, or the tree is left as it is. -/
theorem create_cases (path : String) (t : FileTree) :
    (∃ fault, t.create path = (.error fault, t)) ∨
      ∃ l, t.Names path l ∧ meansFolder path = false ∧
        t.create path = (.ok l, t.put l .empty) := by
  unfold create
  cases hresolve : t.resolve path with
  | error fault => exact .inl ⟨fault, rfl⟩
  | ok target =>
    by_cases hfolder : ∃ d, target = .folder d
    · obtain ⟨d, rfl⟩ := hfolder
      exact .inl ⟨.isDirectory, rfl⟩
    · obtain ⟨l, hl, rfl⟩ := names_of_resolve hresolve fun d hd => hfolder ⟨d, hd⟩
      cases hfile : meansFolder path with
      | true =>
        refine .inl ⟨.isDirectory, ?_⟩
        rcases look_cases hl.1 with ⟨content, hlook⟩ | hlook <;> rw [hlook] <;> rfl
      | false =>
        refine .inr ⟨l, hl, rfl, ?_⟩
        rcases look_cases hl.1 with ⟨content, hlook⟩ | hlook <;> rw [hlook] <;> rfl

/-- An action on a tree and then another. -/
theorem run_bind {α β : Type} (action : StateM FileTree α) (next : α → StateM FileTree β)
    (t : FileTree) : (action >>= next) t = next (action t).1 (action t).2 := rfl

end FileTree

/-! ### Documents -/

/-- A document of one line more. -/
theorem render_cons (line : String) (rest : List String) :
    render (line :: rest) = indented line ++ "\n" ++ render rest := by
  simp [render, String.join_cons]

/-- **Writing on.** Lines that are written into a file one by one come to their rendered text. -/
theorem appendLines_put (lines : List String) (l : Location) (t : FileTree) (content : ByteArray) :
    appendLines (m := StateM FileTree) l lines (t.put l content)
      = (.ok (), t.put l (content ++ (render lines).toUTF8)) := by
  induction lines generalizing content with
  | nil =>
    have hnone : content ++ (render []).toUTF8 = content := ByteArray.append_empty
    rw [hnone]
    rfl
  | cons line rest ih =>
    have happend : (t.put l content).append l (indented line ++ "\n")
        = t.put l (content ++ (indented line ++ "\n").toUTF8) := by
      rw [FileTree.append, FileTree.lookup_put, FileTree.put_put]
      rfl
    have hrender : content ++ (render (line :: rest)).toUTF8
        = content ++ (indented line ++ "\n").toUTF8 ++ (render rest).toUTF8 := by
      rw [render_cons, ByteArray.append_assoc]
      exact congrArg _ String.toByteArray_append
    show appendLines (m := StateM FileTree) l rest ((t.put l content).append l _) = _
    rw [happend, hrender]
    exact ih _

/-- **Writing.** A document is written as a whole into the place that a path names, or the tree is
    left as it is. -/
theorem writeLines_cases (lines : List String) (path : String) (t : FileTree) :
    (∃ fault, writeLines (m := StateM FileTree) lines path t = (.error (.file path fault), t)) ∨
      ∃ l, t.Names path l ∧ FileTree.meansFolder path = false ∧
        writeLines (m := StateM FileTree) lines path t
          = (.ok (), t.put l (render lines).toUTF8) := by
  rcases t.create_cases path with ⟨fault, hcreate⟩ | ⟨l, hl, hfile, hcreate⟩
  · have hcreate : FileAccess.create (m := StateM FileTree) path t = (.error fault, t) := hcreate
    refine .inl ⟨fault, ?_⟩
    rw [writeLines, FileTree.run_bind, hcreate]
    rfl
  · have hcreate : FileAccess.create (m := StateM FileTree) path t = (.ok l, t.put l .empty) :=
      hcreate
    have happend := appendLines_put lines l t .empty
    rw [ByteArray.empty_append] at happend
    refine .inr ⟨l, hl, hfile, ?_⟩
    rw [writeLines, FileTree.run_bind, hcreate]
    dsimp only
    rw [FileTree.run_bind, happend]
    rfl

/-- A document is written as a whole beside its input, or the tree is left as it is. -/
theorem writeBeside_cases (lines : List String) (input suffix : String) (t : FileTree) :
    (∃ e, writeBeside (m := StateM FileTree) lines input suffix t = (.error e, t)) ∨
      ∃ l, suffix ≠ "" ∧ t.Names (outputPath input suffix) l ∧
        FileTree.meansFolder (outputPath input suffix) = false ∧
        writeBeside (m := StateM FileTree) lines input suffix t
          = (.ok (outputPath input suffix), t.put l (render lines).toUTF8) := by
  cases hempty : suffix.isEmpty with
  | true =>
    refine .inl ⟨.emptySuffix, ?_⟩
    rw [writeBeside, hempty, if_pos rfl]
    rfl
  | false =>
    rcases writeLines_cases lines (outputPath input suffix) t with
      ⟨fault, hwrite⟩ | ⟨l, hl, hfile, hwrite⟩
    · refine .inl ⟨.file (outputPath input suffix) fault, ?_⟩
      rw [writeBeside, hempty, if_neg Bool.false_ne_true, FileTree.run_bind, hwrite]
      rfl
    · refine .inr ⟨l, fun hsuffix => absurd hempty (by simp [hsuffix]), hl, hfile, ?_⟩
      rw [writeBeside, hempty, if_neg Bool.false_ne_true, FileTree.run_bind, hwrite]
      rfl

end CollisionMesh
