import CollisionMesh.Processing
import CollisionMesh.Proofs.Requests

namespace CollisionMesh

open Text

/-!
# Recording changes nothing

A document does not see what editor it is processed in but through the answers. So it is
processed alike in two editors that answer alike, and an editor that notes what it was asked
answers as the editor inside it.

* `SameAnswers` — a view of the states of one editor as states of another, such that both
  answer alike;
* `forEach_map`, `simplify_map`, `processLines_map` — what is done in one editor is done in the
  other;
* `processLines_recorded` — a document is processed in a recorded editor as in the editor itself;
* `Answered.recorded` — and what was noted are the requests.
-/

/-- Two editors answer alike, where one is a view of the other. -/
structure SameAnswers {α σ τ : Type} [MeshEditor α σ] [MeshEditor α τ] (view : σ → τ) : Prop where
  newMesh : ∀ s, MeshEditor.newMesh (view s) = Prod.map id view (MeshEditor.newMesh s)
  setGeometry : ∀ h vertices faces s, MeshEditor.setGeometry h vertices faces (view s)
    = Prod.map id view (MeshEditor.setGeometry h vertices faces s)
  apply : ∀ pass h s, MeshEditor.apply pass h (view s)
    = Prod.map id view (MeshEditor.apply pass h s)
  readFaces : ∀ h s, MeshEditor.readFaces h (view s) = Prod.map id view (MeshEditor.readFaces h s)
  clearAll : ∀ s, MeshEditor.clearAll (view s) = view (MeshEditor.clearAll s)

/-- Actions in turn are seen in a view as the actions are. -/
theorem forEach_map {β σ τ : Type} {view : σ → τ} {action : β → σ → Except Error Unit × σ}
    {action' : β → τ → Except Error Unit × τ}
    (h : ∀ b s, action' b (view s) = Prod.map id view (action b s)) (bs : List β) (s : σ) :
    forEach action' bs (view s) = Prod.map id view (forEach action bs s) := by
  induction bs generalizing s with
  | nil => rfl
  | cons b rest ih =>
    rw [forEach, forEach, h]
    obtain ⟨answer, s'⟩ := action b s
    cases answer with
    | ok done => exact ih s'
    | error e => rfl

/-- Simplifying is seen in a view as it is. -/
theorem simplify_map {α σ τ : Type} [MeshEditor α σ] [MeshEditor α τ] {view : σ → τ}
    (h : SameAnswers view) (t : Tolerances α) (mesh : TriangleMesh α) (s : σ) :
    simplify t mesh (view s) = Prod.map id view (simplify t mesh s) := by
  unfold simplify
  rw [h.newMesh]
  obtain ⟨handle, s₁⟩ := MeshEditor.newMesh s
  dsimp only [Prod.map, id]
  rw [h.setGeometry]
  obtain ⟨answer, s₂⟩ := MeshEditor.setGeometry handle mesh.vertices mesh.faces s₁
  cases answer with
  | error e => rfl
  | ok done =>
    dsimp only [Prod.map, id]
    rw [forEach_map fun pass s => h.apply pass handle s]
    obtain ⟨answer, s₃⟩ := forEach (fun pass => MeshEditor.apply pass handle) t.passes s₂
    cases answer with
    | error e => rfl
    | ok done => exact h.readFaces handle s₃

/-! ### Documents -/

/-- A document part way through, seen in a view of the editor. -/
def Progress.mapEditor {σ τ : Type} (view : σ → τ) (p : Progress σ) : Progress τ :=
  { p with editor := view p.editor }

/-- What came of a document, seen in a view of the editor. -/
def Outcome.mapEditor {σ τ : Type} (view : σ → τ) (o : Outcome σ) : Outcome τ :=
  { o with editor := view o.editor }

section

variable {σ τ : Type} [MeshEditor Float σ] [MeshEditor Float τ] {view : σ → τ}

theorem emitGroup_map (h : SameAnswers view) (s : Settings) (g : Group) (p : Progress σ) :
    emitGroup s g (p.mapEditor view) = Prod.map id (Progress.mapEditor view) (emitGroup s g p) := by
  have hgroup : simplifyGroup s.tolerances g (view p.editor)
      = Prod.map id view (simplifyGroup s.tolerances g p.editor) := by
    rw [simplifyGroup, simplify_map h]
    rfl
  unfold emitGroup
  dsimp only [Progress.mapEditor, Progress.count]
  rw [hgroup]
  obtain ⟨answer, editor⟩ := simplifyGroup s.tolerances g p.editor
  dsimp only [Prod.map, id]
  rw [h.clearAll]
  cases answer with
  | ok records => rfl
  | error e =>
    dsimp only
    cases e.isGroupLocal with
    | false => rfl
    | true => cases s.failurePolicy <;> rfl

theorem emitItem_map (h : SameAnswers view) (s : Settings) (item : Item) (p : Progress σ) :
    emitItem s item (p.mapEditor view) = Prod.map id (Progress.mapEditor view) (emitItem s item p) := by
  cases item with
  | ambiguous line => rfl
  | control line text => rfl
  | run r => exact forEach_map (fun g p => emitGroup_map h s g p) r.groups (p.count Report.addRun)

/-- **Views.** A document is processed alike in editors that answer alike. -/
theorem processLines_map (h : SameAnswers view) (s : Settings) (raws : List String) (editor : σ) :
    processLines s raws (view editor) = (processLines s raws editor).mapEditor view := by
  unfold processLines
  dsimp only
  rw [show Progress.start (view editor) = (Progress.start editor).mapEditor view from rfl,
    forEach_map fun item p => emitItem_map h s item p]
  obtain ⟨answer, p⟩ := forEach (emitItem s) (Document.ofLines s.keyPolicy raws).items
    (Progress.start editor)
  cases answer with
  | error e => rfl
  | ok done =>
    cases hfault : (Document.ofLines s.keyPolicy raws).fault with
    | some e => rfl
    | none =>
      dsimp only [Prod.map, id, Progress.mapEditor, Outcome.mapEditor]
      rw [h.clearAll]

end

/-! ### Recorded editors -/

section

variable {α σ : Type} [MeshEditor α σ]

/-- A recorded editor answers as the editor inside it. -/
theorem sameAnswers_recorded : SameAnswers (α := α) (Recorded.editor (α := α) (σ := σ)) :=
  ⟨fun _ => rfl, fun _ _ _ _ => rfl, fun _ _ _ => rfl, fun _ _ => rfl, fun _ => rfl⟩

/-- A recorded editor notes the requests that are made of it. -/
theorem Answered.recorded {r r' : Recorded α σ} {log : List (Exchange α)} (h : Answered r log r') :
    r'.calls.toList = r.calls.toList ++ log.map Exchange.call ∧
      Answered r.editor log r'.editor := by
  induction h with
  | nil r => exact ⟨by simp, .nil _⟩
  | @cons r r' call log _ ih =>
    obtain ⟨hcalls, hinside⟩ := ih
    have hnote : (call.perform r).2.calls = r.calls.push call := by cases call <;> rfl
    have hreply : (call.perform r).1 = (call.perform r.editor).1 := by cases call <;> rfl
    have hnext : (call.perform r).2.editor = (call.perform r.editor).2 := by cases call <;> rfl
    refine ⟨by rw [hcalls, hnote]; simp, ?_⟩
    rw [hreply]
    rw [hnext] at hinside
    exact .cons call hinside

end

/-- **Recording.** A document is processed in an editor as in the editor with a record, and what
    the latter leaves is the same editor with the requests that were made of it. -/
theorem processLines_recorded {σ : Type} [MeshEditor Float σ] (s : Settings) (raws : List String)
    (editor : σ) : processLines s raws editor
      = (processLines s raws (Recorded.new (α := Float) editor)).mapEditor Recorded.editor :=
  processLines_map sameAnswers_recorded s raws (Recorded.new editor)

end CollisionMesh
