import CollisionMesh.Proofs.Reading
import CollisionMesh.Proofs.Recording

namespace CollisionMesh

open Text

/-!
# Documents by their passages

What a document becomes does not depend on how its lines are numbered, nor on keys that were
dropped, but on its passages alone: the same requests are made for the same passages, and the same
lines are written. Only what is told differs.

* `quietly` — an action, but for what was told; `emitGroup_untold`, `emitItem_untold` — what was
  told before is of no account;
* `forEach_quietly_passages` — items are written out as their passages;
* `result_eq_of_passages` — documents with the same passages become the same.
-/

section

variable {σ : Type} [MeshEditor Float σ]

/-- A document part way through, but for what was told. -/
def Progress.untold (p : Progress σ) : Progress σ :=
  { p with events := #[] }

/-- An action, but for what was told. -/
def quietly {β : Type} (action : β → Progress σ → Except Error Unit × Progress σ) (b : β)
    (p : Progress σ) : Except Error Unit × Progress σ :=
  Prod.map id Progress.untold (action b p)

/-- What was told before a group is of no account. -/
theorem emitGroup_untold (s : Settings) (g : Group) (p : Progress σ) :
    quietly (emitGroup s) g p.untold = quietly (emitGroup s) g p := by
  unfold quietly emitGroup
  dsimp only [Progress.untold, Progress.count]
  obtain ⟨answer, editor⟩ := simplifyGroup s.tolerances g p.editor
  cases answer with
  | ok rs => rfl
  | error e =>
    dsimp only
    cases e.isGroupLocal with
    | false => rfl
    | true => cases s.failurePolicy <;> rfl

/-- What was told before an item is of no account. -/
theorem emitItem_untold (s : Settings) (item : Item) (p : Progress σ) :
    quietly (emitItem s) item p.untold = quietly (emitItem s) item p := by
  cases item with
  | ambiguous line => rfl
  | control line text => rfl
  | run r =>
    have hmap : ∀ p : Progress σ, forEach (quietly (emitGroup s)) r.groups p.untold
        = Prod.map id Progress.untold (forEach (emitGroup s) r.groups p) :=
      forEach_map (emitGroup_untold s) r.groups
    exact (hmap (p.untold.count Report.addRun)).symm.trans (hmap (p.count Report.addRun))

/-- A passage as an item, whatever its line number. -/
def Passage.item : Passage → Item
  | .line text => .control 0 text
  | .run r => .run r

/-- Items are written out as their passages. -/
theorem forEach_quietly_passages (s : Settings) (items : List Item) (p : Progress σ) :
    forEach (quietly (emitItem s)) items p.untold
      = forEach (quietly (emitItem s)) ((items.filterMap Item.passage?).map Passage.item) p.untold := by
  induction items generalizing p with
  | nil => rfl
  | cons item rest ih =>
    cases hpassage : item.passage? with
    | none =>
      rw [List.filterMap_cons_none hpassage, ← ih p]
      cases item with
      | ambiguous line => rfl
      | control line text => exact absurd hpassage (by simp [Item.passage?])
      | run r => exact absurd hpassage (by simp [Item.passage?])
    | some passage =>
      have hsame : quietly (emitItem s) item p.untold = quietly (emitItem s) passage.item p.untold := by
        cases item <;> cases hpassage <;> rfl
      rw [List.filterMap_cons_some hpassage, List.map_cons, forEach, forEach, hsame, quietly]
      cases emitItem s passage.item p.untold with
      | mk answer p' =>
        cases answer with
        | error e => rfl
        | ok done => exact ih p'

/-- **Passages.** What a document becomes depends on its passages alone, not on the numbers of its
    lines or on keys that were dropped. -/
theorem result_eq_of_passages {s : Settings} {raws raws' : List String}
    (hfault : (Document.ofLines s.keyPolicy raws).fault = none)
    (hfault' : (Document.ofLines s.keyPolicy raws').fault = none)
    (h : passages (raws'.map trim) = passages (raws.map trim)) (st : σ) :
    (processLines s raws' st).result = (processLines s raws st).result := by
  have hquiet : ∀ raws, forEach (quietly (emitItem s)) (Document.ofLines s.keyPolicy raws).items
      (Progress.start st).untold = Prod.map id Progress.untold
        (forEach (emitItem s) (Document.ofLines s.keyPolicy raws).items (Progress.start st)) :=
    fun raws => forEach_map (fun item (p : Progress σ) => emitItem_untold s item p) _ _
  have hsame : Prod.map id Progress.untold
      (forEach (emitItem s) (Document.ofLines s.keyPolicy raws').items (Progress.start st))
        = Prod.map id Progress.untold
      (forEach (emitItem s) (Document.ofLines s.keyPolicy raws).items (Progress.start st)) := by
    rw [← hquiet, ← hquiet, forEach_quietly_passages, forEach_quietly_passages s
      (Document.ofLines s.keyPolicy raws).items, Document.passages_ofLines hfault',
      Document.passages_ofLines hfault, h]
  unfold processLines
  dsimp only
  rw [hfault, hfault']
  generalize forEach (emitItem s) (Document.ofLines s.keyPolicy raws').items (Progress.start st)
    = ended' at hsame ⊢
  generalize forEach (emitItem s) (Document.ofLines s.keyPolicy raws).items (Progress.start st)
    = ended at hsame ⊢
  obtain ⟨answer, p⟩ := ended
  obtain ⟨answer', p'⟩ := ended'
  obtain ⟨rfl, hp⟩ := Prod.mk.inj hsame
  obtain ⟨-, hlines, hreport, -⟩ := Progress.mk.inj hp
  cases answer' with
  | error e => rfl
  | ok done =>
    dsimp only [id]
    rw [hlines, hreport]

end

end CollisionMesh
