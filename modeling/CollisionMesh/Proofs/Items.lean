import CollisionMesh.Proofs.Gaps
import Mathlib.Algebra.Order.Ring.Nat
import Mathlib.Data.Finset.Card

namespace CollisionMesh

open Text

/-!
# The items of a document, line by line

What a reader finds in a document depends on a line only through the run that it stands in. A line
that is no triangle is a control line, after the run that it ends; a triangle line is noted only
where it carries a key in a run without keys. So a document that is read to its end has these
items, each with the number of its line, and the run that is left open at the end.

* `ambiguousAt` — the lines that are noted;
* `Document.itemsAt`, `Document.items_ofLines` — the items of a line, and of a document;
* `numbered`, `Document.controls_ofLines`, `Document.ambiguous_ofLines` — its control lines and its
  notes;
* `Document.runs_ofLines` — its runs, one for each gap that is not empty;
* `lineKey`, `length_groups_ofStretch`, `size_ofStretch` — the keys of a run, and its triangles.
-/

/-- Whether the line at a position of a document, its lines without the blanks around, carries
    a key although the first line of its run has none. -/
def ambiguousAt (lines : List String) (line : String × Nat) : Bool :=
  carriesKey line.1 &&
    !(Run.ofStretch ((lines.take (line.2 + 1)).rtakeWhile isTriangle)).keyed

/-- A key is dropped iff the line carries one and the run does not. -/
theorem ambiguous_of_collect {policy : KeyPolicy} {stretch : List String} {line : String} {run : Run}
    {ambiguous : Bool}
    (h : Collector.collect policy (pendingOf stretch) line = .ok (run, ambiguous)) :
    ambiguous = (carriesKey line && !(Run.ofStretch (stretch ++ [line])).keyed) := by
  cases hr : Record.ofLine line with
  | error e => simp [Collector.collect, hr, bind, Except.bind] at h
  | ok r =>
    have hcarries : carriesKey line = r.key.isSome := by rw [carriesKey, hr]
    rw [collect_pendingOf_eq hr] at h
    cases stretch with
    | nil =>
      have hkeyed : (Run.ofStretch ([] ++ [line])).keyed = carriesKey line := rfl
      rw [← (Prod.mk.inj (Except.ok.inj h)).2, hkeyed, Bool.and_not_self]
    | cons first later =>
      have hkeyed : (Run.ofStretch (first :: later ++ [line])).keyed
          = (Run.ofStretch (first :: later)).keyed := rfl
      cases hrec : Collector.reconcile policy (Run.ofStretch (first :: later)) r with
      | error e => simp [hrec, Except.map] at h
      | ok result =>
        obtain ⟨r', noted⟩ := result
        dsimp only at h
        rw [hrec] at h
        rw [← (Prod.mk.inj (Except.ok.inj h)).2, hcarries, hkeyed]
        -- The key is dropped in one of the four cases.
        unfold Collector.reconcile at hrec
        cases hrun : (Run.ofStretch (first :: later)).keyed <;> cases hkey : r.key with
        | none => simp_all
        | some k => cases policy <;> simp_all

/-- A line that carries a key is a triangle. -/
theorem isTriangle_of_ofLine {line : String} {r : Record} (h : Record.ofLine line = .ok r) :
    isTriangle line = true := by
  rw [isTriangle, decide_eq_true_eq, LineKind.of]
  unfold Record.ofLine at h
  cases hwords : words line.toList with
  | nil =>
    rw [hwords] at h
    exact absurd h (by simp [Record.ofWords, throw, throwThe, MonadExceptOf.throw])
  | cons tag rest =>
    rw [hwords] at h
    by_cases htag : tag = triangleTag.toList
    · rw [LineKind.ofWords, if_pos htag]
    · unfold Record.ofWords at h
      exact absurd h (by simp [htag, throw, throwThe, MonadExceptOf.throw])

/-- A line that is noted is a triangle. -/
theorem isTriangle_of_ambiguousAt {lines : List String} {line : String × Nat}
    (h : ambiguousAt lines line = true) : isTriangle line.1 = true := by
  have hcarries : carriesKey line.1 = true := (Bool.and_eq_true_iff.mp h).1
  unfold carriesKey at hcarries
  split at hcarries
  · next r hr => exact isTriangle_of_ofLine hr
  · exact absurd hcarries (by simp)

/-! ### Reading line by line -/

namespace Document

/-- The items of a line at its position in a document. -/
def itemsAt (lines : List String) (line : String × Nat) : List Item :=
  if isTriangle line.1 then
    if ambiguousAt lines line then [.ambiguous (line.2 + 1)] else []
  else openItems (lines.take line.2) ++ [.control (line.2 + 1) line.1]

/-- A line that is read adds its items. -/
theorem items_push_after {policy : KeyPolicy} {before : List String} {raw : String} {step : Step}
    {c : Collector} (h : (Collector.after policy before).push raw = (.ok step, c))
    (rest : List String) :
    c = .after policy (before ++ [trim raw]) ∧ step.items (before.length + 1)
      = itemsAt (before ++ trim raw :: rest) (trim raw, before.length) := by
  by_cases hline : isTriangle (trim raw) = true
  · cases hcollect : Collector.collect policy (pendingOf (before.rtakeWhile isTriangle)) (trim raw) with
    | error fault =>
      rw [Collector.push_triangle_error (c := .after policy before) hline hcollect] at h
      exact absurd h (by simp)
    | ok result =>
      rw [Collector.push_after_collect hline hcollect] at h
      obtain ⟨hstep, rfl⟩ := Prod.mk.inj h
      obtain rfl := Except.ok.inj hstep
      refine ⟨rfl, ?_⟩
      have htake : (before ++ trim raw :: rest).take (before.length + 1) = before ++ [trim raw] := by
        rw [List.take_append, List.take_of_length_le (Nat.le_add_right _ _), Nat.add_sub_cancel_left]
        rfl
      rw [itemsAt, if_pos hline, ambiguousAt, htake, List.rtakeWhile_concat_pos _ _ _ hline,
        ambiguous_of_collect hcollect]
      rfl
  · have hline := Bool.not_eq_true _ ▸ hline
    rw [Collector.push_after_control hline] at h
    obtain ⟨hstep, rfl⟩ := Prod.mk.inj h
    obtain rfl := Except.ok.inj hstep
    refine ⟨rfl, ?_⟩
    rw [itemsAt, if_neg (by simp [hline]), List.take_left]
    rfl

/-- **Reading on.** After some lines that do not offend, a reader finds the items of the lines to
    come, and the run that is open after them. -/
theorem items_scan_after {policy : KeyPolicy} {raws before : List String} {earlier : Array Item}
    (h : (scan (.after policy before) earlier raws).fault = none) :
    (scan (.after policy before) earlier raws).items
      = earlier.toList ++ ((raws.map trim).zipIdx before.length).flatMap
          (itemsAt (before ++ raws.map trim)) ++ openItems (before ++ raws.map trim) := by
  -- By induction on the lines to come; positions count from the very first line.
  induction raws generalizing before earlier with
  | nil => simp [scan, openItems, Collector.after, Collector.finish]
  | cons raw rest ih =>
    cases hpush : (Collector.after policy before).push raw with
    | mk answer c =>
      cases answer with
      | error e =>
        rw [scan, hpush] at h
        exact absurd h (by simp)
      | ok step =>
        -- Whatever the line is read as, its items stand in front of those of the others.
        obtain ⟨rfl, hitems⟩ := items_push_after hpush (rest.map trim)
        rw [scan_after_cons hpush] at h ⊢
        rw [ih h, List.map_cons, List.zipIdx_cons, List.flatMap_cons, ← hitems]
        simp

/-- **Items.** What a document that is read to its end has: the items of its lines, and the run
    that is open after the last of them. -/
theorem items_ofLines {policy : KeyPolicy} {raws : List String}
    (h : (ofLines policy raws).fault = none) :
    (ofLines policy raws).items = (raws.map trim).zipIdx.flatMap (itemsAt (raws.map trim))
      ++ openItems (raws.map trim) :=
  @items_scan_after policy raws [] #[] h

end Document

/-! ### Control lines and notes -/

namespace Item

/-- The control line that an item is, with its number. -/
def control? : Item → Option (Nat × String)
  | .control line text => some (line, text)
  | _ => none

/-- The number of the line that is noted. -/
def ambiguous? : Item → Option Nat
  | .ambiguous line => some line
  | _ => none

/-- The run that an item is. -/
def run? : Item → Option Run
  | .run r => some r
  | _ => none

end Item

/-- The run that a passage is. -/
def Passage.run? : Passage → Option Run
  | .run r => some r
  | .line _ => none

/-- The lines that pass a test together with their positions, by their numbers. -/
def numbered (p : String × Nat → Bool) (lines : List String) : List (Nat × String) :=
  (lines.zipIdx.filter p).map fun line => (line.2 + 1, line.1)

/-- What there is for each line that passes a test and for no other. -/
theorem flatMap_zipIdx_eq (p : String × Nat → Bool) (lines : List String) :
    lines.zipIdx.flatMap (fun line => if p line then [(line.2 + 1, line.1)] else [])
      = numbered p lines := by
  rw [numbered]
  induction lines.zipIdx with
  | nil => rfl
  | cons line rest ih =>
    rw [List.flatMap_cons, ih]
    cases hp : p line with
    | false => simp [hp]
    | true => simp [hp]

/-- Lines stand by increasing numbers. -/
theorem pairwise_numbered (p : String × Nat → Bool) (lines : List String) :
    ((numbered p lines).map Prod.fst).Pairwise (· < ·) := by
  rw [numbered, List.map_map]
  have hall : (lines.zipIdx.map fun line => line.2 + 1).Pairwise (· < ·) := by
    have hpos : (lines.zipIdx.map fun line => line.2 + 1)
        = (List.range' 0 lines.length).map (· + 1) := by
      rw [← List.zipIdx_map_snd 0 lines, List.map_map]
      rfl
    rw [hpos, List.pairwise_map]
    exact (List.pairwise_lt_range' ..).imp Nat.succ_lt_succ
  exact hall.sublist (List.filter_sublist.map _)

namespace Document

variable {policy : KeyPolicy} {raws : List String}

/-- Nothing but a run is open when the lines end. -/
theorem filterMap_openItems {β : Type} (view : Item → Option β) (h : ∀ r, view (.run r) = none)
    (lines : List String) : (openItems lines).filterMap view = [] := by
  rw [openItems]
  cases pendingOf (lines.rtakeWhile isTriangle) with
  | none => rfl
  | some r => simp [h]

/-- The control lines of a document are its lines that are no triangles. -/
theorem controls_ofLines (h : (ofLines policy raws).fault = none) :
    (ofLines policy raws).items.filterMap Item.control?
      = numbered (fun line => !isTriangle line.1) (raws.map trim) := by
  have hopen := filterMap_openItems Item.control? fun _ => rfl
  have hline : ∀ line, (itemsAt (raws.map trim) line).filterMap Item.control?
      = if !isTriangle line.1 then [(line.2 + 1, line.1)] else [] := by
    intro line
    rw [itemsAt]
    cases isTriangle line.1 with
    | false => simp [hopen, Item.control?]
    | true => cases ambiguousAt (raws.map trim) line <;> rfl
  rw [items_ofLines h, List.filterMap_append, hopen, List.append_nil, List.filterMap_flatMap,
    funext hline, flatMap_zipIdx_eq]

/-- The notes of a document are those of its lines whose keys do not count. -/
theorem ambiguous_ofLines (h : (ofLines policy raws).fault = none) :
    (ofLines policy raws).items.filterMap Item.ambiguous?
      = (numbered (ambiguousAt (raws.map trim)) (raws.map trim)).map Prod.fst := by
  have hopen := filterMap_openItems Item.ambiguous? fun _ => rfl
  have hline : ∀ line, (itemsAt (raws.map trim) line).filterMap Item.ambiguous?
      = (if ambiguousAt (raws.map trim) line then [(line.2 + 1, line.1)] else []).map Prod.fst := by
    intro line
    rw [itemsAt]
    cases hambiguous : ambiguousAt (raws.map trim) line with
    | true =>
      rw [isTriangle_of_ambiguousAt hambiguous]
      rfl
    | false => cases isTriangle line.1 <;> simp [hopen, Item.ambiguous?]
  rw [items_ofLines h, List.filterMap_append, hopen, List.append_nil, List.filterMap_flatMap,
    funext hline, ← List.map_flatMap, flatMap_zipIdx_eq]

/-- The runs of a document, one for each gap that is not empty. -/
theorem runs_ofLines (h : (ofLines policy raws).fault = none) :
    (ofLines policy raws).items.filterMap Item.run?
      = (gaps (raws.map trim)).filterMap pendingOf := by
  have hview : (fun item : Item => item.passage?.bind Passage.run?) = Item.run? := by
    funext item
    cases item <;> rfl
  rw [← hview, ← List.filterMap_filterMap, passages_ofLines h]
  induction raws.map trim using gapInduction with
  | last stretch hstretch =>
    rw [passages_of_forall hstretch, gaps_of_forall hstretch]
    cases stretch <;> rfl
  | next stretch line rest hstretch hline ih =>
    rw [passages_append_cons hstretch hline, gaps_append_cons hstretch hline,
      List.filterMap_append, List.filterMap_cons_none rfl, ih]
    cases stretch <;> rfl

end Document

/-! ### The keys of a run -/

/-- A line that is a record is a triangle of any run. -/
theorem Member.ofLine?_of_ofLine {line : String} {r : Record} (h : Record.ofLine line = .ok r)
    (keyed : Bool) : ofLine? keyed line = some ⟨if keyed then r else r.withoutKey, line⟩ := by
  rw [ofLine?, h]

/-- The key that a line of a run is grouped under. -/
def lineKey (keyed : Bool) (line : String) : Key :=
  match Member.ofLine? keyed line with
  | some m => m.record.groupKey
  | none => Key.zero

/-- Where all lines are records, each is a triangle of the run. -/
theorem Member.sources_ofLines {lines : List String}
    (h : ∀ line ∈ lines, ∃ r, Record.ofLine line = .ok r) (keyed : Bool) :
    (lines.filterMap (ofLine? keyed)).map source = lines := by
  induction lines with
  | nil => rfl
  | cons line rest ih =>
    obtain ⟨r, hr⟩ := h line List.mem_cons_self
    rw [List.filterMap_cons_some (ofLine?_of_ofLine hr keyed), List.map_cons,
      ih fun l hl => h l (List.mem_cons_of_mem line hl)]

/-- The keys of a gap that can be read are those of its lines. -/
theorem Readable.groupKeys {policy : KeyPolicy} {stretch : List String} (h : Readable policy stretch)
    (keyed : Bool) :
    (stretch.filterMap (Member.ofLine? keyed)).map (·.record.groupKey)
      = stretch.map (lineKey keyed) := by
  have hrecord := h.record
  clear h
  induction stretch with
  | nil => rfl
  | cons line rest ih =>
    obtain ⟨r, hr⟩ := hrecord line List.mem_cons_self
    have hline := Member.ofLine?_of_ofLine hr keyed
    rw [List.filterMap_cons_some hline, List.map_cons, List.map_cons, lineKey, hline,
      ih fun l hl => hrecord l (List.mem_cons_of_mem line hl)]

/-- No two groups of a run have the same key. -/
theorem Run.nodup_keys_ofStretch (stretch : List String) :
    ((ofStretch stretch).groups.map Group.key).Nodup := by
  rw [map_key_groups_ofStretch]
  exact nodup_eraseDups _

/-- **Groups.** The run of a gap that can be read has a group for each key of its lines. -/
theorem length_groups_ofStretch {policy : KeyPolicy} {stretch : List String}
    (h : Readable policy stretch) :
    (Run.ofStretch stretch).groups.length
      = (stretch.map (lineKey (Run.ofStretch stretch).keyed)).toFinset.card := by
  have hset : (stretch.map (lineKey (Run.ofStretch stretch).keyed)).toFinset
      = ((Run.ofStretch stretch).groups.map Group.key).toFinset := by
    rw [Run.map_key_groups_ofStretch, h.groupKeys]
    ext k
    simp
  rw [hset, List.toFinset_card_of_nodup (Run.nodup_keys_ofStretch stretch), List.length_map]

/-- A run has as many triangles as its groups. -/
theorem Run.size_eq_sum (r : Run) : r.size = (r.groups.map Group.size).sum := by
  rw [size]
  induction r.groups with
  | nil => rfl
  | cons g rest ih => rw [List.foldr_cons, List.map_cons, List.sum_cons, ih]

/-- The run of a gap that can be read has a triangle for each line. -/
theorem size_ofStretch {policy : KeyPolicy} {stretch : List String} (h : Readable policy stretch) :
    (Run.ofStretch stretch).size = stretch.length := by
  rw [Run.ofStretch, Run.size_groupsOf, ← List.length_map (f := Member.source),
    Member.sources_ofLines h.record]

end CollisionMesh
