import CollisionMesh.Record.Line
import Mathlib.Data.List.DropRight

namespace CollisionMesh.Text

/-!
# Words and lines put together

* `split_eq_splitOnP` — pieces of a text are pieces of a list;
* `IsWord`, `words_joinWords` — words that are joined are the words of the line;
* `trimmed_eq_self`, `trim_trim`, `words_trim` — lines without blanks around;
* `not_mem_of_mem_lines` — a line of a document has no line feed;
* `lines_render`, `trim_lines_render` — the lines of a document that was written.
-/

theorem split_eq_splitOnP (isCut : Char → Bool) (text : List Char) :
    split isCut text = text.splitOnP isCut := by
  induction text with
  | nil => rfl
  | cons c rest ih =>
    -- There is always a first piece to put the character in front of.
    have hne : split isCut rest ≠ [] := ih ▸ List.splitOnP_ne_nil isCut rest
    obtain ⟨piece, pieces, hpieces⟩ := List.exists_cons_of_ne_nil hne
    rw [List.splitOnP_cons_eq_if_modifyHead, ← ih, hpieces]
    unfold split at hpieces ⊢
    rw [List.foldr_cons, hpieces]
    rfl

/-- No piece has a character that the text was cut at. -/
theorem eq_false_of_mem_split {isCut : Char → Bool} {text piece : List Char}
    (h : piece ∈ split isCut text) {c : Char} (hc : c ∈ piece) : isCut c = false := by
  rw [split_eq_splitOnP] at h
  induction text generalizing piece with
  | nil => simp_all [List.splitOnP_nil]
  | cons d rest ih =>
    obtain ⟨first, later, hpieces⟩ := List.exists_cons_of_ne_nil (List.splitOnP_ne_nil isCut rest)
    rw [List.splitOnP_cons_eq_if_modifyHead, hpieces] at h
    by_cases hd : isCut d = true
    · rw [if_pos hd, ← hpieces] at h
      rcases List.mem_cons.mp h with rfl | h
      · exact absurd hc List.not_mem_nil
      · exact ih h hc
    · rw [if_neg hd, List.modifyHead_cons] at h
      rcases List.mem_cons.mp h with rfl | h
      · rcases List.mem_cons.mp hc with rfl | hc
        · exact Bool.not_eq_true _ ▸ hd
        · exact ih (hpieces ▸ List.mem_cons_self) hc
      · exact ih (hpieces ▸ List.mem_cons_of_mem first h) hc

/-! ### Words -/

/-- A word: not empty and without a blank. -/
def IsWord (word : List Char) : Prop :=
  word ≠ [] ∧ ∀ c ∈ word, isBlank c = false

theorem words_of_isWord {word : List Char} (h : IsWord word) : words word = [word] := by
  rw [words, split_eq_splitOnP, List.splitOnP_eq_singleton h.2]
  simp [h.1]

/-- The words before and after a blank. -/
theorem words_append_cons (text rest : List Char) {c : Char} (hc : isBlank c = true) :
    words (text ++ c :: rest) = words text ++ words rest := by
  simp only [words, split_eq_splitOnP]
  rw [List.splitOnP_append_cons text rest hc, List.filter_append]

theorem toList_joinWords (ws : List (List Char)) : (joinWords ws).toList = [' '].intercalate ws := by
  rw [joinWords, String.toList_intercalate, List.map_map]
  congr 1
  exact (List.map_congr_left fun w _ => String.toList_ofList).trans (List.map_id ws)

/-- **Words.** Words that are joined are the words of the line. -/
theorem words_joinWords {ws : List (List Char)} (h : ∀ w ∈ ws, IsWord w) :
    words (joinWords ws).toList = ws := by
  rw [toList_joinWords]
  induction ws with
  | nil => rfl
  | cons w rest ih =>
    have hw := words_of_isWord (h w List.mem_cons_self)
    have hrest := ih fun w' hw' => h w' (List.mem_cons_of_mem w hw')
    cases rest with
    | nil => rw [List.intercalate_singleton, hw]
    | cons w' later =>
      rw [List.intercalate_cons_cons, List.append_assoc]
      show words (w ++ ' ' :: [' '].intercalate (w' :: later)) = _
      rw [words_append_cons _ _ (by decide), hw, hrest]
      rfl

/-! ### Blanks around a line -/

/-- A line that was trimmed does not start with a blank. -/
theorem isBlank_of_head?_trimmed {text : List Char} {c : Char}
    (h : (trimmed text).head? = some c) : isBlank c = false := by
  have hinit : trimmed text <+: text.dropWhile isBlank := List.rdropWhile_prefix isBlank _
  have hhead : (text.dropWhile isBlank).head? = some c := by
    obtain ⟨later, hlater⟩ := hinit
    rw [← hlater, List.head?_append, h]
    rfl
  have hnot := List.head?_dropWhile_not isBlank text
  rw [hhead] at hnot
  exact hnot

/-- A line that was trimmed does not end with a blank. -/
theorem isBlank_of_getLast?_trimmed {text : List Char} {c : Char}
    (h : (trimmed text).getLast? = some c) : isBlank c = false := by
  rw [trimmed, List.getLast?_reverse] at h
  have hnot := List.head?_dropWhile_not isBlank (text.dropWhile isBlank).reverse
  rw [h] at hnot
  exact hnot

/-- A line that neither starts nor ends with a blank has none around. -/
theorem trimmed_eq_self {text : List Char} (hhead : ∀ c, text.head? = some c → isBlank c = false)
    (hlast : ∀ c, text.getLast? = some c → isBlank c = false) : trimmed text = text := by
  have hdrop : ∀ l : List Char, (∀ c, l.head? = some c → isBlank c = false) →
      l.dropWhile isBlank = l := by
    intro l hl
    cases l with
    | nil => rfl
    | cons c rest => exact List.dropWhile_cons_of_neg (by simp [hl c rfl])
  rw [trimmed, hdrop text hhead, hdrop text.reverse, List.reverse_reverse]
  intro c hc
  rw [List.head?_reverse] at hc
  exact hlast c hc

@[simp] theorem trimmed_trimmed (text : List Char) : trimmed (trimmed text) = trimmed text :=
  trimmed_eq_self (fun _ => isBlank_of_head?_trimmed) fun _ => isBlank_of_getLast?_trimmed

/-- Blanks in front of a line do not matter. -/
theorem trimmed_append_of_blank {blanks : List Char} (h : ∀ c ∈ blanks, isBlank c = true)
    (text : List Char) : trimmed (blanks ++ text) = trimmed text := by
  rw [trimmed, List.dropWhile_append_of_pos h, trimmed]

/-- A line that was trimmed has no characters that it had not before. -/
theorem mem_of_mem_trimmed {text : List Char} {c : Char} (h : c ∈ trimmed text) : c ∈ text := by
  have hinit : trimmed text <+: text.dropWhile isBlank := List.rdropWhile_prefix isBlank _
  exact (List.dropWhile_suffix isBlank).subset (hinit.subset h)

/-- Blanks in front of a text are no words. -/
theorem words_append_of_blank {blanks : List Char} (h : ∀ c ∈ blanks, isBlank c = true)
    (text : List Char) : words (blanks ++ text) = words text := by
  induction blanks with
  | nil => rfl
  | cons c rest ih =>
    have hcons := words_append_cons [] (rest ++ text) (h c List.mem_cons_self)
    rw [List.nil_append] at hcons
    rw [List.cons_append, hcons, ih fun d hd => h d (List.mem_cons_of_mem c hd)]
    rfl

/-- Blanks around a line are no part of its words. -/
@[simp] theorem words_trimmed (text : List Char) : words (trimmed text) = words text := by
  have hafter : ∀ blanks rest : List Char, (∀ c ∈ blanks, isBlank c = true) →
      words (rest ++ blanks) = words rest := by
    intro blanks rest h
    cases blanks with
    | nil => rw [List.append_nil]
    | cons c later =>
      have hnone := words_append_of_blank (fun d hd => h d (List.mem_cons_of_mem c hd)) []
      rw [List.append_nil] at hnone
      rw [words_append_cons _ _ (h c List.mem_cons_self), hnone]
      exact List.append_nil _
  have hinner := List.rdropWhile_append_rtakeWhile (p := isBlank) (l := text.dropWhile isBlank)
  rw [← List.takeWhile_append_dropWhile (p := isBlank) (l := text),
    words_append_of_blank fun c hc => List.mem_takeWhile_imp hc, ← hinner,
    hafter _ _ fun c hc => List.mem_rtakeWhile_imp hc, hinner, List.takeWhile_append_dropWhile]
  rfl

/-- A line that was trimmed has the same words. -/
@[simp] theorem words_trim (line : String) : words (trim line).toList = words line.toList := by
  rw [trim, String.toList_ofList, words_trimmed]

@[simp] theorem trim_trim (line : String) : trim (trim line) = trim line := by
  simp [trim]

/-- A line of words has no blanks around. -/
theorem trim_joinWords {ws : List (List Char)} (h : ∀ w ∈ ws, IsWord w) :
    trim (joinWords ws) = joinWords ws := by
  rw [trim, trimmed_eq_self, String.ofList_toList]
  · rw [toList_joinWords]
    cases ws with
    | nil => simp
    | cons w rest =>
      obtain ⟨hne, hw⟩ := h w List.mem_cons_self
      obtain ⟨c, cs, rfl⟩ := List.exists_cons_of_ne_nil hne
      have hc : isBlank c = false := hw c List.mem_cons_self
      cases rest <;> simp [List.intercalate_cons_cons, hc]
  · rw [toList_joinWords]
    -- The last character is that of the last word.
    induction ws with
    | nil => simp
    | cons w rest ih =>
      obtain ⟨hne, hw⟩ := h w List.mem_cons_self
      cases rest with
      | nil =>
        rw [List.intercalate_singleton]
        exact fun c hc => hw c (List.mem_of_getLast? hc)
      | cons w' later =>
        have hlater := ih fun w₁ hw₁ => h w₁ (List.mem_cons_of_mem w hw₁)
        obtain ⟨c', cs', hw'⟩ := List.exists_cons_of_ne_nil
          (h w' (List.mem_cons_of_mem w List.mem_cons_self)).1
        have hne' : [' '].intercalate (w' :: later) ≠ [] := by
          cases later <;> simp [List.intercalate_cons_cons, hw']
        rw [List.intercalate_cons_cons, List.getLast?_append_of_ne_nil _ hne']
        exact hlater

/-- The only blank in a line of words is the space between them. -/
theorem not_mem_joinWords {ws : List (List Char)} (h : ∀ w ∈ ws, IsWord w) {c : Char}
    (hc : isBlank c = true) (hspace : c ≠ ' ') : c ∉ (joinWords ws).toList := by
  rw [toList_joinWords]
  induction ws with
  | nil => exact List.not_mem_nil
  | cons w rest ih =>
    have hw : c ∉ w := fun hmem => by simp [(h w List.mem_cons_self).2 c hmem] at hc
    have hrest := ih fun w' hw' => h w' (List.mem_cons_of_mem w hw')
    cases rest with
    | nil => simpa using hw
    | cons w' later =>
      rw [List.intercalate_cons_cons, List.mem_append, List.mem_append, List.mem_singleton]
      exact not_or.mpr ⟨not_or.mpr ⟨hw, hspace⟩, hrest⟩

/-! ### Lines -/

/-- A line of a document has no line feed. -/
theorem not_mem_of_mem_lines {text line : String} (h : line ∈ lines text) : '\n' ∉ line.toList := by
  obtain ⟨chars, hchars, rfl⟩ := List.mem_map.mp h
  rw [String.toList_ofList]
  -- A line is a piece between line feeds, perhaps without its last character.
  obtain ⟨piece, hpiece, hsub⟩ : ∃ piece ∈ split (· == '\n') text.toList, ∀ c ∈ chars, c ∈ piece := by
    have hended : ∀ line ∈ (split (· == '\n') text.toList).dropLast.map dropReturn,
        ∃ piece ∈ split (· == '\n') text.toList, ∀ c ∈ line, c ∈ piece := by
      intro line hline
      obtain ⟨piece, hpiece, rfl⟩ := List.mem_map.mp hline
      refine ⟨piece, (List.dropLast_sublist _).subset hpiece, ?_⟩
      unfold dropReturn
      split
      · exact fun c hc => (List.dropLast_sublist _).subset hc
      · exact fun c hc => hc
    unfold lineChars at hchars
    dsimp only at hchars
    split at hchars
    · exact hended chars hchars
    · exact hended chars hchars
    · next rest _ hlast =>
      rcases List.mem_append.mp hchars with hchars | hchars
      · exact hended chars hchars
      · rw [List.mem_singleton.mp hchars]
        exact ⟨rest, List.mem_of_getLast? hlast, fun c hc => hc⟩
  intro hfeed
  exact absurd (eq_false_of_mem_split hpiece (hsub _ hfeed)) (by simp)

/-- The lines of a document in which each ends with a line feed. -/
theorem lines_join_map (written : List String) (h : ∀ line ∈ written, '\n' ∉ line.toList) :
    lines (String.join (written.map (· ++ "\n")))
      = written.map fun line => String.ofList (dropReturn line.toList) := by
  have hpieces : split (· == '\n') (String.join (written.map (· ++ "\n"))).toList
      = written.map String.toList ++ [[]] := by
    rw [String.toList_join, split_eq_splitOnP]
    induction written with
    | nil => rfl
    | cons line rest ih =>
      have hline : ∀ c ∈ line.toList, (c == '\n') = false := by
        intro c hc
        rw [beq_eq_false_iff_ne]
        rintro rfl
        exact h line List.mem_cons_self hc
      have hfeed : (line ++ "\n").toList = line.toList ++ ['\n'] := String.toList_append
      rw [List.map_cons, List.flatMap_cons, hfeed, List.append_assoc, List.singleton_append,
        List.splitOnP_append_cons_of_forall_mem hline _ (by decide),
        ih fun l hl => h l (List.mem_cons_of_mem line hl)]
      rfl
  rw [lines, lineChars, hpieces]
  simp [Function.comp_def]

end CollisionMesh.Text

namespace CollisionMesh

open Text

/-- The tabs in front of a line. -/
theorem toList_indented (line : String) :
    ∃ tabs : List Char, (∀ c ∈ tabs, c = '\t') ∧
      (indented line).toList = tabs ++ trimmed line.toList := by
  refine ⟨(LineKind.of line).indent.toList, ?_, ?_⟩
  · cases LineKind.of line <;> simp [LineKind.indent]
  · rw [indented, String.toList_append, trim, String.toList_ofList]

/-- A line that is indented does not end with a carriage return. -/
theorem dropReturn_indented (line : String) :
    dropReturn (indented line).toList = (indented line).toList := by
  obtain ⟨tabs, htabs, heq⟩ := toList_indented line
  rw [heq]
  refine if_neg fun h => ?_
  -- The last character is that of the line, which was trimmed, or a tab.
  rw [List.getLast?_append] at h
  cases hlast : (trimmed line.toList).getLast? with
  | none =>
    rw [hlast] at h
    exact absurd (htabs _ (List.mem_of_getLast? h)) (by decide)
  | some c =>
    rw [hlast] at h
    obtain rfl : c = '\r' := Option.some.inj h
    exact absurd (isBlank_of_getLast?_trimmed hlast) (by decide)

/-- Indenting does not change a line but for the blanks around. -/
@[simp] theorem trim_indented (line : String) : trim (indented line) = trim line := by
  obtain ⟨tabs, htabs, heq⟩ := toList_indented line
  rw [trim, heq, trimmed_append_of_blank (fun c hc => htabs c hc ▸ by decide), trimmed_trimmed]
  rfl

/-- **Lines.** The lines of a document that was written are those that it was written from,
    indented. -/
theorem lines_render {written : List String} (h : ∀ line ∈ written, '\n' ∉ line.toList) :
    lines (render written) = written.map indented := by
  have hfeed : ∀ line ∈ written.map indented, '\n' ∉ line.toList := by
    intro line hline hmem
    obtain ⟨source, hsource, rfl⟩ := List.mem_map.mp hline
    obtain ⟨tabs, htabs, heq⟩ := toList_indented source
    rw [heq] at hmem
    rcases List.mem_append.mp hmem with hmem | hmem
    · exact absurd (htabs _ hmem) (by decide)
    · exact h source hsource (mem_of_mem_trimmed hmem)
  rw [render, ← Function.comp_def (· ++ "\n") indented, ← List.map_map, lines_join_map _ hfeed,
    List.map_map]
  exact List.map_congr_left fun line _ => by
    rw [Function.comp_apply, dropReturn_indented, String.ofList_toList]

/-- Without the blanks around they are those that the document was written from. -/
theorem trim_lines_render {written : List String} (h : ∀ line ∈ written, '\n' ∉ line.toList)
    (htrim : ∀ line ∈ written, trim line = line) : (lines (render written)).map trim = written := by
  rw [lines_render h, List.map_map]
  exact (List.map_congr_left fun line hline => (trim_indented line).trans (htrim line hline)).trans
    (List.map_id written)

end CollisionMesh
