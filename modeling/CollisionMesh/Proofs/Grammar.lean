import CollisionMesh.Proofs.Literals
import CollisionMesh.Proofs.ReadBack

namespace CollisionMesh

open Number Text

/-!
# The grammar of triangle lines

A line is read as a record iff its words are the tag, three vertices and either nothing or two
bytes. Only the words matter, not the blanks between them.

* `Spaced`, `spaced_iff` — a text with its words;
* `Components`, `split_eq_iff` — a vertex with its three components;
* `VertexText`, `TriangleWords` — words that are accepted;
* `VertexDenotes`, `RecordOf` — the record that they stand for;
* `Record.ofWords_eq_ok` — the record that is read;
* `ReadsTriangles`, `Record.ofLoneLine_reads` — lines outside any document.
-/

namespace Text

/-- A text with its words: each is followed by a blank or by the end of the text. -/
inductive Spaced : List Char → List (List Char) → Prop where
  | nil : Spaced [] []
  | blank {c : Char} {text : List Char} {ws : List (List Char)} : isBlank c = true →
      Spaced text ws → Spaced (c :: text) ws
  | word {w rest : List Char} {ws : List (List Char)} : IsWord w →
      (∀ c, rest.head? = some c → isBlank c = true) → Spaced rest ws → Spaced (w ++ rest) (w :: ws)

/-- A blank at the start is no word. -/
private theorem words_cons_of_isBlank {c : Char} (hc : isBlank c = true) (text : List Char) :
    words (c :: text) = words text := by
  have hblank : ∀ d ∈ [c], isBlank d = true := by simpa using hc
  exact words_append_of_blank hblank text

/-- A word at the start is the first one. -/
private theorem words_append_of_isWord {w rest : List Char} (hw : IsWord w)
    (hrest : ∀ c, rest.head? = some c → isBlank c = true) : words (w ++ rest) = w :: words rest := by
  cases rest with
  | nil =>
    rw [List.append_nil, words_of_isWord hw]
    rfl
  | cons c rest =>
    have hc := hrest c rfl
    rw [words_append_cons _ _ hc, words_of_isWord hw, words_cons_of_isBlank hc]
    rfl

/-- **Words.** A text has the words that it is split into and no others. -/
theorem spaced_iff {text : List Char} {ws : List (List Char)} :
    Spaced text ws ↔ words text = ws := by
  constructor
  · intro h
    induction h with
    | nil => rfl
    | blank hc _ ih => rw [words_cons_of_isBlank hc, ih]
    | word hw hrest _ ih => rw [words_append_of_isWord hw hrest, ih]
  · rintro rfl
    -- Either the first blank or the first word is taken off.
    induction hn : text.length using Nat.strong_induction_on generalizing text with
    | _ n ih =>
    subst hn
    rcases text with _ | ⟨c, text⟩
    · exact .nil
    by_cases hc : isBlank c = true
    · rw [words_cons_of_isBlank hc]
      exact .blank hc (ih _ (Nat.lt_succ_self _) rfl)
    · obtain ⟨w, hw⟩ : ∃ w, (c :: text).takeWhile (!isBlank ·) = w := ⟨_, rfl⟩
      obtain ⟨rest, hrest⟩ : ∃ rest, (c :: text).dropWhile (!isBlank ·) = rest := ⟨_, rfl⟩
      have htext : w ++ rest = c :: text := by rw [← hw, ← hrest, List.takeWhile_append_dropWhile]
      have hword : IsWord w := by
        constructor
        · rw [← hw, List.takeWhile_cons_of_pos (by simpa using hc)]
          exact List.cons_ne_nil _ _
        · intro d hd
          rw [← hw] at hd
          have hnot : (!isBlank d) = true := List.mem_takeWhile_imp (p := (!isBlank ·)) hd
          simpa using hnot
      have hblank : ∀ d, rest.head? = some d → isBlank d = true := by
        intro d hd
        have hnot := List.head?_dropWhile_not (!isBlank ·) (c :: text)
        rw [hrest, hd] at hnot
        simpa using hnot
      have hshort : rest.length < (c :: text).length := by
        have := List.length_pos_of_ne_nil hword.1
        rw [← htext, List.length_append]
        omega
      rw [← htext, words_append_of_isWord hword hblank]
      exact .word hword hblank (ih _ hshort rfl)

/-- Three texts with semicolons between them and none inside. -/
structure Components (word a b c : List Char) : Prop where
  text : word = a ++ ';' :: (b ++ ';' :: c)
  first : ';' ∉ a
  second : ';' ∉ b
  third : ';' ∉ c

/-- **Components.** A word is split into three iff it has three components. -/
theorem split_eq_iff {word a b c : List Char} :
    split (· == ';') word = [a, b, c] ↔ Components word a b c := by
  have hfree : ∀ {text : List Char}, ';' ∉ text → ∀ d ∈ text, (d == ';') = false := by
    intro text h d hd
    rw [beq_eq_false_iff_ne]
    rintro rfl
    exact h hd
  constructor
  · intro h
    have hcut : ∀ piece ∈ [a, b, c], ';' ∉ piece := by
      intro piece hpiece hmem
      have := eq_false_of_mem_split (h ▸ hpiece) hmem
      simp at this
    refine ⟨?_, hcut a (by simp), hcut b (by simp), hcut c (by simp)⟩
    rw [split_eq_splitOnP] at h
    have hjoin : [';'].intercalate (word.splitOn ';') = word := List.intercalate_splitOn ';'
    rw [List.splitOn, h] at hjoin
    simpa [List.intercalate_cons_cons] using hjoin.symm
  · rintro ⟨rfl, ha, hb, hc⟩
    rw [split_eq_splitOnP, List.splitOnP_append_cons_of_forall_mem (hfree ha) _ (by decide),
      List.splitOnP_append_cons_of_forall_mem (hfree hb) _ (by decide),
      List.splitOnP_eq_singleton (hfree hc)]

end Text

/-! ### Words that are accepted -/

/-- The texts of vertices: three components that are finite numbers. -/
def VertexText (word : List Char) : Prop :=
  ∃ a b c, Components word a b c ∧ FiniteText a ∧ FiniteText b ∧ FiniteText c

/-- The words of triangles: the tag, three vertices and either nothing or two bytes. -/
inductive TriangleWords : List (List Char) → Prop where
  | bare {a b c : List Char} : VertexText a → VertexText b → VertexText c →
      TriangleWords ["TRI".toList, a, b, c]
  | keyed {a b c h l : List Char} {high low : UInt8} : VertexText a → VertexText b →
      VertexText c → ByteText high h → ByteText low l →
      TriangleWords ["TRI".toList, a, b, c, h, l]

/-- The point that a vertex stands for. -/
def VertexDenotes (word : List Char) (p : Point Float) : Prop :=
  ∃ a b c, Components word a b c ∧ Denotes a p.x ∧ Denotes b p.y ∧ Denotes c p.z

/-- Words with a record: its three points in order, and its key if there are two more words, the
    high byte first. -/
inductive RecordOf (vertex : List Char → Point Float → Prop) :
    List (List Char) → Record → Prop where
  | bare {a b c : List Char} {p q r : Point Float} : vertex a p → vertex b q → vertex c r →
      RecordOf vertex ["TRI".toList, a, b, c] ⟨⟨p, q, r⟩, none⟩
  | keyed {a b c h l : List Char} {p q r : Point Float} {k : Key} : vertex a p →
      vertex b q → vertex c r → ByteText k.high h → ByteText k.low l →
      RecordOf vertex ["TRI".toList, a, b, c, h, l] ⟨⟨p, q, r⟩, some k⟩

theorem RecordOf.mono {V W : List Char → Point Float → Prop} (h : ∀ w p, V w p → W w p)
    {ws : List (List Char)} {r : Record} (hr : RecordOf V ws r) : RecordOf W ws r := by
  cases hr with
  | bare ha hb hc => exact .bare (h _ _ ha) (h _ _ hb) (h _ _ hc)
  | keyed ha hb hc hh hl => exact .keyed (h _ _ ha) (h _ _ hb) (h _ _ hc) hh hl

/-! ### Reading words -/

/-- How a component of a vertex is read. -/
private theorem component_eq_ok {word text : List Char} {x : Float} :
    vertexOfWord.component word text = .ok x ↔ finite? text = some x := by
  unfold vertexOfWord.component
  cases finite? text with
  | none => exact iff_of_false throw_ne_ok (by simp)
  | some y => simp [pure, Except.pure]

/-- How a vertex is read. -/
theorem vertexOfWord_eq_ok {word : List Char} {p : Point Float} :
    vertexOfWord word = .ok p ↔ ∃ a b c, Components word a b c ∧ finite? a = some p.x ∧
      finite? b = some p.y ∧ finite? c = some p.z := by
  simp only [← split_eq_iff]
  unfold vertexOfWord
  split
  · next a b c hsplit =>
    simp only [bind_eq_ok, component_eq_ok]
    constructor
    · rintro ⟨x, hx, y, hy, z, hz, h⟩
      obtain rfl := Except.ok.inj h
      exact ⟨a, b, c, hsplit, hx, hy, hz⟩
    · rintro ⟨a', b', c', heq, hx, hy, hz⟩
      obtain ⟨rfl, rfl, rfl⟩ : a = a' ∧ b = b' ∧ c = c' := by simpa using hsplit.symm.trans heq
      exact ⟨p.x, hx, p.y, hy, p.z, hz, rfl⟩
  · next hsplit =>
    refine iff_of_false throw_ne_ok ?_
    rintro ⟨a, b, c, heq, -⟩
    exact hsplit a b c heq

/-- How a byte of a key is read. -/
theorem keyByteOfWord_eq_ok {word : List Char} {b : UInt8} :
    keyByteOfWord word = .ok b ↔ ByteText b word := by
  rw [← byte?_eq_some_iff, keyByteOfWord]
  cases byte? word with
  | none => exact iff_of_false throw_ne_ok (by simp)
  | some b' => simp [pure, Except.pure]

/-- A vertex is read iff it is the text of one. -/
theorem exists_vertexOfWord_iff {word : List Char} :
    (∃ p, vertexOfWord word = .ok p) ↔ VertexText word := by
  simp only [vertexOfWord_eq_ok, VertexText, ← exists_finite?_iff]
  constructor
  · rintro ⟨p, a, b, c, hword, hx, hy, hz⟩
    exact ⟨a, b, c, hword, ⟨_, hx⟩, ⟨_, hy⟩, ⟨_, hz⟩⟩
  · rintro ⟨a, b, c, hword, ⟨x, hx⟩, ⟨y, hy⟩, z, hz⟩
    exact ⟨⟨x, y, z⟩, a, b, c, hword, hx, hy, hz⟩

/-- The point that is read is the one that the vertex stands for. -/
theorem vertexDenotes_of_vertexOfWord {word : List Char} {p : Point Float}
    (h : vertexOfWord word = .ok p) : VertexDenotes word p := by
  obtain ⟨a, b, c, hword, hx, hy, hz⟩ := vertexOfWord_eq_ok.mp h
  exact ⟨a, b, c, hword, denotes_of_finite? hx, denotes_of_finite? hy, denotes_of_finite? hz⟩

namespace Record

private theorem cornersOfWords_eq_ok {a b c : List Char} {t : Triple (Point Float)} :
    cornersOfWords a b c = .ok t ↔
      vertexOfWord a = .ok t.a ∧ vertexOfWord b = .ok t.b ∧ vertexOfWord c = .ok t.c := by
  simp only [cornersOfWords, bind_eq_ok]
  constructor
  · rintro ⟨p, hp, q, hq, r, hr, h⟩
    obtain rfl := Except.ok.inj h
    exact ⟨hp, hq, hr⟩
  · rintro ⟨hp, hq, hr⟩
    exact ⟨_, hp, _, hq, _, hr, rfl⟩

private theorem keyOfWords_eq_ok {h l : List Char} {k : Key} :
    keyOfWords h l = .ok k ↔ ByteText k.high h ∧ ByteText k.low l := by
  simp only [keyOfWords, bind_eq_ok, keyByteOfWord_eq_ok]
  constructor
  · rintro ⟨high, hhigh, low, hlow, heq⟩
    obtain rfl := Except.ok.inj heq
    rw [Key.high_ofBytes, Key.low_ofBytes]
    exact ⟨hhigh, hlow⟩
  · rintro ⟨hhigh, hlow⟩
    exact ⟨_, hhigh, _, hlow, congrArg Except.ok k.ofBytes_high_low⟩

/-- **Words.** The words that are read as a record, and which. -/
theorem ofWords_eq_ok {ws : List (List Char)} {r : Record} :
    ofWords ws = .ok r ↔ RecordOf (fun word p => vertexOfWord word = .ok p) ws r := by
  constructor
  · intro h
    unfold ofWords at h
    split at h
    · exact absurd h throw_ne_ok
    · next tag rest =>
      split at h
      · exact absurd h throw_ne_ok
      · next htag =>
        obtain rfl := not_not.mp htag
        split at h
        · obtain ⟨t, ht, h⟩ := bind_eq_ok.mp h
          obtain rfl := Except.ok.inj h
          obtain ⟨ha, hb, hc⟩ := cornersOfWords_eq_ok.mp ht
          exact .bare ha hb hc
        · obtain ⟨t, ht, h⟩ := bind_eq_ok.mp h
          obtain ⟨k, hk, h⟩ := bind_eq_ok.mp h
          obtain rfl := Except.ok.inj h
          obtain ⟨ha, hb, hc⟩ := cornersOfWords_eq_ok.mp ht
          obtain ⟨hhigh, hlow⟩ := keyOfWords_eq_ok.mp hk
          exact .keyed ha hb hc hhigh hlow
        · split at h <;> exact absurd h throw_ne_ok
  · rintro (⟨ha, hb, hc⟩ | ⟨ha, hb, hc, hh, hl⟩)
    · refine bind_eq_ok.mpr ⟨⟨_, _, _⟩, cornersOfWords_eq_ok.mpr ⟨ha, hb, hc⟩, rfl⟩
    · refine bind_eq_ok.mpr ⟨⟨_, _, _⟩, cornersOfWords_eq_ok.mpr ⟨ha, hb, hc⟩, ?_⟩
      exact bind_eq_ok.mpr ⟨_, keyOfWords_eq_ok.mpr ⟨hh, hl⟩, rfl⟩

/-- Words are read as a record iff they are those of a triangle. -/
theorem exists_ofWords_iff {ws : List (List Char)} :
    (∃ r, ofWords ws = .ok r) ↔ TriangleWords ws := by
  simp only [ofWords_eq_ok]
  constructor
  · rintro ⟨r, (⟨ha, hb, hc⟩ | ⟨ha, hb, hc, hh, hl⟩)⟩
    · exact .bare (exists_vertexOfWord_iff.mp ⟨_, ha⟩) (exists_vertexOfWord_iff.mp ⟨_, hb⟩)
        (exists_vertexOfWord_iff.mp ⟨_, hc⟩)
    · exact .keyed (exists_vertexOfWord_iff.mp ⟨_, ha⟩) (exists_vertexOfWord_iff.mp ⟨_, hb⟩)
        (exists_vertexOfWord_iff.mp ⟨_, hc⟩) hh hl
  · rintro (⟨ha, hb, hc⟩ | @⟨a, b, c, h, l, high, low, ha, hb, hc, hh, hl⟩)
    · obtain ⟨p, hp⟩ := exists_vertexOfWord_iff.mpr ha
      obtain ⟨q, hq⟩ := exists_vertexOfWord_iff.mpr hb
      obtain ⟨r, hr⟩ := exists_vertexOfWord_iff.mpr hc
      exact ⟨_, .bare hp hq hr⟩
    · obtain ⟨p, hp⟩ := exists_vertexOfWord_iff.mpr ha
      obtain ⟨q, hq⟩ := exists_vertexOfWord_iff.mpr hb
      obtain ⟨r, hr⟩ := exists_vertexOfWord_iff.mpr hc
      rw [← Key.high_ofBytes high low] at hh
      rw [← Key.low_ofBytes high low] at hl
      exact ⟨_, .keyed hp hq hr hh hl⟩

end Record

/-! ### Lines outside any document -/

/-- The double denoted by a text is finite. -/
private theorem isFinite_of_vertexDenotes {word : List Char} {p : Point Float}
    (h : VertexDenotes word p) :
    isFinite p.x = true ∧ isFinite p.y = true ∧ isFinite p.z = true := by
  obtain ⟨a, b, c, -, ⟨_, _, _, -, hx, -⟩, ⟨_, _, _, -, hy, -⟩, _, _, _, -, hz, -⟩ := h
  exact ⟨hx, hy, hz⟩

/-- What reads lines as records by the grammar. -/
structure ReadsTriangles (read : String → Except Error Record) : Prop where
  /-- A line is accepted iff its words are those of a triangle. -/
  accepts : ∀ line, (∃ r, read line = .ok r) ↔ ∃ ws, Spaced line.toList ws ∧ TriangleWords ws
  /-- The record is the one that the words stand for. -/
  record : ∀ line r, read line = .ok r →
    ∃ ws, Spaced line.toList ws ∧ RecordOf VertexDenotes ws r
  /-- It has a key iff there are six words. -/
  keyed : ∀ line r ws, read line = .ok r → Spaced line.toList ws →
    (r.key.isSome = true ↔ ws.length = 6)
  /-- Its coordinates are finite. -/
  finite : ∀ line r, read line = .ok r → ∀ p ∈ r.corners.toList,
    isFinite p.x = true ∧ isFinite p.y = true ∧ isFinite p.z = true
  /-- Any other line is malformed. -/
  rejects : ∀ line e, read line = .error e → ∃ fault, e = .malformed 0 fault
  /-- Lines with the same words are read alike. -/
  alike : ∀ line line' ws, Spaced line.toList ws → Spaced line'.toList ws → read line = read line'

/-- **Triangle lines.** Lines are read as records by the grammar. -/
theorem Record.ofLoneLine_reads : ReadsTriangles Record.ofLoneLine := by
  have hok : ∀ {line r}, ofLoneLine line = .ok r ↔ ofWords (words line.toList) = .ok r := by
    intro line r
    unfold ofLoneLine ofLine
    cases ofWords (words line.toList) <;> simp [Except.mapError]
  have hrecord : ∀ {line r ws}, ofLoneLine line = .ok r → Spaced line.toList ws →
      RecordOf VertexDenotes ws r := by
    intro line r ws h hws
    rw [hok, spaced_iff.mp hws, ofWords_eq_ok] at h
    exact h.mono fun _ _ => vertexDenotes_of_vertexOfWord
  refine ⟨fun line => ?_, fun line r h => ⟨_, spaced_iff.mpr rfl, hrecord h (spaced_iff.mpr rfl)⟩,
    fun line r ws h hws => ?_, fun line r h => ?_, fun line e h => ?_,
    fun line line' ws hws hws' => ?_⟩
  · simp only [hok, exists_ofWords_iff, spaced_iff]
    exact ⟨fun h => ⟨_, rfl, h⟩, fun ⟨ws, hws, h⟩ => hws ▸ h⟩
  · cases hrecord h hws <;> simp
  · have hfinite : ∀ ws, RecordOf VertexDenotes ws r → ∀ p ∈ r.corners.toList,
        isFinite p.x = true ∧ isFinite p.y = true ∧ isFinite p.z = true := by
      rintro ws (⟨ha, hb, hc⟩ | ⟨ha, hb, hc, -, -⟩) p hp
      all_goals
        simp only [Triple.toList, List.mem_cons, List.not_mem_nil, or_false] at hp
        rcases hp with rfl | rfl | rfl
        · exact isFinite_of_vertexDenotes ha
        · exact isFinite_of_vertexDenotes hb
        · exact isFinite_of_vertexDenotes hc
    exact hfinite _ (hrecord h (spaced_iff.mpr rfl))
  · unfold ofLoneLine at h
    cases hline : ofLine line with
    | ok r => simp [hline, Except.mapError] at h
    | error fault =>
      rw [hline] at h
      exact ⟨fault, (Except.error.inj h).symm⟩
  · rw [ofLoneLine, ofLine, spaced_iff.mp hws, ofLoneLine, ofLine, spaced_iff.mp hws']

end CollisionMesh
