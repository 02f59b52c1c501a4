import CollisionMesh.Editor.Recorder
import CollisionMesh.Editor.Scene
import CollisionMesh.Proofs.Passes
import CollisionMesh.Proofs.Scene

namespace CollisionMesh

/-!
# Requests as data

What was asked of an editor and what it answered, as a list, for any editor; and all that a
scene can answer.

* `Reply`, `Exchange` — what an editor answers, and a request with its answer;
* `Call.perform`, `performAll` — a request made of an editor, and some in turn;
* `Answered` — the exchanges that lead an editor from one state to another;
* `Scene.Step` — what a scene answers to a request and what it does to its meshes;
  `Scene.step_perform` — it does nothing else.
-/

/-- What an editor answers to a request. -/
inductive Reply (α : Type) where
  | handle (h : Handle)
  | done
  | faces (read : List (EditorFace α))
  | error (e : Error)

/-- A request with its answer. -/
structure Exchange (α : Type) where
  call : Call α
  reply : Reply α

/-- The answer to a request that only fails or not. -/
def Reply.ofResult {α : Type} : Except Error Unit → Reply α
  | .ok () => .done
  | .error e => .error e

/-- The answer to a request for faces. -/
def Reply.ofFaces {α : Type} : Except Error (List (EditorFace α)) → Reply α
  | .ok read => .faces read
  | .error e => .error e

namespace Call

variable {α σ : Type}

/-- The handle that a request names. -/
def handle? : Call α → Option Handle
  | .newMesh | .clearAll => none
  | .setGeometry h _ _ | .apply _ h | .readFaces h => some h

/-- A request made of an editor: its answer, and the editor after it. -/
def perform [MeshEditor α σ] : Call α → σ → Reply α × σ
  | .newMesh, s => (.handle (MeshEditor.newMesh s).1, (MeshEditor.newMesh s).2)
  | .setGeometry h vertices faces, s =>
    (.ofResult (MeshEditor.setGeometry h vertices faces s).1,
      (MeshEditor.setGeometry h vertices faces s).2)
  | .apply pass h, s =>
    (.ofResult (MeshEditor.apply pass h s).1, (MeshEditor.apply pass h s).2)
  | .readFaces h, s => (.ofFaces (MeshEditor.readFaces h s).1, (MeshEditor.readFaces h s).2)
  | .clearAll, s => (.done, MeshEditor.clearAll s)

end Call

section

variable {α σ : Type} [MeshEditor α σ]

/-- An editor after some requests in turn. -/
def performAll (calls : List (Call α)) (s : σ) : σ :=
  calls.foldl (fun s call => (call.perform s).2) s

@[simp] theorem performAll_nil (s : σ) : performAll ([] : List (Call α)) s = s := rfl

@[simp] theorem performAll_cons (call : Call α) (rest : List (Call α)) (s : σ) :
    performAll (call :: rest) s = performAll rest (call.perform s).2 := rfl

theorem performAll_append (calls later : List (Call α)) (s : σ) :
    performAll (calls ++ later) s = performAll later (performAll calls s) :=
  List.foldl_append

/-- What each request keeps, requests in turn keep. -/
theorem performAll_keeps {P : σ → Prop} (h : ∀ (call : Call α) s, P s → P (call.perform s).2)
    (calls : List (Call α)) {s : σ} (hs : P s) : P (performAll calls s) := by
  induction calls generalizing s with
  | nil => exact hs
  | cons call rest ih => exact ih (h call s hs)

/-- The exchanges lead an editor from a state to another: it answers each request as they
    say. -/
inductive Answered : σ → List (Exchange α) → σ → Prop where
  | nil (s : σ) : Answered s [] s
  | cons {s s' : σ} (call : Call α) {log : List (Exchange α)} :
    Answered (call.perform s).2 log s' → Answered s (⟨call, (call.perform s).1⟩ :: log) s'

theorem Answered.single (call : Call α) (s : σ) :
    Answered s [⟨call, (call.perform s).1⟩] (call.perform s).2 :=
  .cons call (.nil _)

theorem Answered.append {s s' s'' : σ} {log later : List (Exchange α)} (h : Answered s log s')
    (h' : Answered s' later s'') : Answered s (log ++ later) s'' := by
  induction h with
  | nil => exact h'
  | cons call _ ih => exact .cons call (ih h')

/-- The last state is that after the requests. -/
theorem Answered.eq_performAll {s s' : σ} {log : List (Exchange α)} (h : Answered s log s') :
    s' = performAll (log.map Exchange.call) s := by
  induction h with
  | nil => rfl
  | cons call _ ih => exact ih

end

namespace Scene

variable {α : Type}

variable [Scalar α] [Clipper α]

/-- What a scene answers to a request, and the scene after it: a new mesh, no mesh any more, a
    live mesh that was edited or read, or a refusal that changes nothing. -/
inductive Step (s : Scene α) : Call α → Reply α → Scene α → Prop where
  | newMesh : Step s .newMesh (.handle ⟨s.nextId⟩) s.newMesh.2
  | clearAll : Step s .clearAll .done s.clearAll
  | refused {call : Call α} {h : Handle} (hcall : call.handle? = some h) (e : Error) :
    Step s call (.error e) s
  | edited {call : Call α} {h : Handle} {m m' : Mesh α} (hcall : call.handle? = some h)
    (hlive : s.mesh? h = some m) (hwell : m.WellIndexed → m'.WellIndexed) :
    Step s call .done (s.put h m')
  | read {h : Handle} {m : Mesh α} (hlive : s.mesh? h = some m) :
    Step s (.readFaces h) (.faces m.readBack) s

/-- **Steps.** A scene answers every request in one of these ways. -/
theorem step_perform (call : Call α) (s : Scene α) :
    s.Step call (call.perform s).1 (call.perform s).2 := by
  cases call with
  | newMesh => exact .newMesh
  | clearAll => exact .clearAll
  | setGeometry h vertices faces =>
    show s.Step _ (.ofResult (s.setGeometry h vertices faces).1) (s.setGeometry h vertices faces).2
    unfold setGeometry
    split
    · exact .refused rfl _
    · next hfaces =>
      split
      · exact .refused rfl _
      · next m hm =>
        refine .edited rfl hm fun _ => ?_
        -- No corner was found beyond the vertices.
        intro face hface i hi
        obtain ⟨t, ht, rfl⟩ := List.mem_map.mp hface
        have hnone := List.find?_eq_none.mp hfaces t ht
        rw [Bool.not_eq_true, List.any_eq_false] at hnone
        exact Nat.lt_of_not_le fun hle => hnone i hi (decide_eq_true hle)
  | apply pass h =>
    show s.Step _ (.ofResult (s.apply pass h).1) (s.apply pass h).2
    unfold apply
    split
    · exact .refused rfl _
    · next m hm =>
      by_cases hfaces : m.faces = []
      · rw [Mesh.apply_of_eq_nil hfaces]
        exact .refused rfl _
      · rw [Mesh.apply_of_ne_nil hfaces]
        exact .edited rfl hm fun hwell => hwell.edit pass
  | readFaces h =>
    show s.Step _ (.ofFaces (s.readFaces h).1) (s.readFaces h).2
    unfold readFaces
    split
    · exact .refused rfl _
    · next m hm => exact .read hm

end Scene

end CollisionMesh
