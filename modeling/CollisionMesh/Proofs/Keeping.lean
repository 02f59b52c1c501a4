import CollisionMesh.Editor.Recorder
import CollisionMesh.Proofs.Sessions

namespace CollisionMesh

/-!
# Editors that keep geometry, and editors that fail

What is said of an editor of any kind is said of all states that requests lead to, so that it may
answer out of what it was asked before.

* `Leads` — requests lead an editor from a state to another;
* `KeepsGeometry`, `KeepsGeometry.simplify` — an editor that stores the geometry it is given, and
  that no pass changes: a mesh is read as it was loaded;
* `FailsAt`, `FailsAt.simplify` — an editor that always fails at a pass: no mesh is simplified;
* `FailsLocally`, `FailsAt.isGroupLocal` — an editor whose failures concern just a group;
* `Scripted.keepsGeometry`, `Scripted.failsAt`, `Scripted.failsLocally` — editors of these kinds.
-/

/-- Actions in turn all succeed, if each of them does after those before. -/
theorem forEach_total {β τ : Type} {action : β → τ → Except Error Unit × τ} {P : τ → Prop}
    (h : ∀ b st, P st → ∃ st', action b st = (.ok (), st') ∧ P st') (bs : List β) {st : τ}
    (hst : P st) : ∃ st', forEach action bs st = (.ok (), st') ∧ P st' := by
  induction bs generalizing st with
  | nil => exact ⟨st, rfl, hst⟩
  | cons b rest ih =>
    obtain ⟨st₁, hb, hst₁⟩ := h b st hst
    rw [forEach, hb]
    exact ih hst₁

section

variable {σ : Type} [MeshEditor Float σ]

/-! ### States that requests lead to -/

/-- Requests lead an editor from a state to another. -/
def Leads (editor st : σ) : Prop :=
  ∃ calls : List (Call Float), performAll calls editor = st

namespace Leads

variable {editor st st' : σ}

theorem refl (editor : σ) : Leads editor editor := ⟨[], rfl⟩

theorem perform (h : Leads editor st) (call : Call Float) : Leads editor (call.perform st).2 := by
  obtain ⟨calls, rfl⟩ := h
  exact ⟨calls ++ [call], performAll_append calls [call] editor⟩

theorem newMesh (h : Leads editor st) : Leads editor (MeshEditor.newMesh st).2 :=
  h.perform .newMesh

theorem setGeometry (h : Leads editor st) (handle : Handle) (vertices : Array (Point Float))
    (faces : List (Triple Nat)) : Leads editor (MeshEditor.setGeometry handle vertices faces st).2 :=
  h.perform (.setGeometry handle vertices faces)

theorem apply (h : Leads editor st) (pass : Pass Float) (handle : Handle) :
    Leads editor (MeshEditor.apply pass handle st).2 :=
  h.perform (.apply pass handle)

theorem answered (h : Leads editor st) {log : List (Exchange Float)} (hlog : Answered st log st') :
    Leads editor st' := by
  obtain ⟨calls, rfl⟩ := h
  exact ⟨calls ++ log.map Exchange.call, by rw [performAll_append, hlog.eq_performAll]⟩

/-- A group that is written out is requests in turn. -/
theorem emitGroup {p : Progress σ} (h : Leads editor p.editor) (s : Settings) (g : Group) :
    Leads editor (emitGroup s g p).2.editor := by
  obtain ⟨log, -, hlog⟩ := emitGroup_sessions s g p
  exact h.answered hlog

end Leads

/-! ### Editors -/

/-- An editor stores the geometry that it is given, no pass changes it or fails, and it is read
    back, in all states that requests lead to. Which geometry is stored under a handle is said by
    a relation. -/
structure KeepsGeometry (editor : σ) (holds : σ → Handle → TriangleMesh Float → Prop) : Prop where
  newMesh : ∀ {st}, Leads editor st →
    ∃ m, holds (MeshEditor.newMesh st).2 (MeshEditor.newMesh st).1 m
  setGeometry : ∀ {st h m}, Leads editor st → holds st h m → ∀ {vertices faces},
    (TriangleMesh.toMesh ⟨vertices, faces⟩).WellIndexed →
      (MeshEditor.setGeometry h vertices faces st).1 = .ok () ∧
        holds (MeshEditor.setGeometry h vertices faces st).2 h ⟨vertices, faces⟩
  apply : ∀ {st h m}, Leads editor st → holds st h m → ∀ pass,
    (MeshEditor.apply pass h st).1 = .ok () ∧ holds (MeshEditor.apply pass h st).2 h m
  readFaces : ∀ {st h m}, Leads editor st → holds st h m →
    (MeshEditor.readFaces h st).1 = .ok m.toMesh.readBack

/-- A pass always fails as passes do, in all states that requests lead to. -/
def FailsAt (pass : Pass Float) (editor : σ) : Prop :=
  ∀ st, Leads editor st → ∀ h, ∃ operation fault,
    (MeshEditor.apply pass h st).1 = .error (.edit operation fault)

/-- All failures of an editor concern just the group, in all states that requests lead to. -/
def FailsLocally (editor : σ) : Prop :=
  ∀ st, Leads editor st → ∀ (call : Call Float) e,
    (call.perform st).1 = .error e → e.isGroupLocal = true

variable {editor st : σ} {holds : σ → Handle → TriangleMesh Float → Prop}

/-- **Keeping.** A mesh that is kept is read as it was loaded. -/
theorem KeepsGeometry.simplify (h : KeepsGeometry editor holds) (hst : Leads editor st)
    (t : Tolerances Float) {mesh : TriangleMesh Float} (hmesh : mesh.toMesh.WellIndexed) :
    (CollisionMesh.simplify t mesh st).1 = .ok mesh.toMesh.readBack := by
  obtain ⟨m, hnew⟩ := h.newMesh hst
  have hnewLeads := hst.newMesh
  unfold CollisionMesh.simplify
  generalize MeshEditor.newMesh st = made at hnew hnewLeads ⊢
  obtain ⟨handle, st₁⟩ := made
  obtain ⟨hset, hheld⟩ := h.setGeometry hnewLeads hnew hmesh
  have hsetLeads := hnewLeads.setGeometry handle mesh.vertices mesh.faces
  dsimp only at hset hheld hsetLeads ⊢
  generalize MeshEditor.setGeometry handle mesh.vertices mesh.faces st₁ = loaded
    at hset hheld hsetLeads ⊢
  obtain ⟨answer, st₂⟩ := loaded
  obtain rfl : answer = .ok () := hset
  dsimp only
  -- The passes in turn keep the mesh.
  have hpass : ∀ (pass : Pass Float) st, Leads editor st ∧ holds st handle mesh →
      ∃ st', MeshEditor.apply pass handle st = (.ok (), st') ∧
        Leads editor st' ∧ holds st' handle mesh := by
    rintro pass st ⟨hst, hheld⟩
    obtain ⟨hok, hheld'⟩ := h.apply hst hheld pass
    exact ⟨_, Prod.ext hok rfl, hst.apply pass handle, hheld'⟩
  obtain ⟨st₃, hpasses, hleads, hheld'⟩ := forEach_total hpass t.passes ⟨hsetLeads, hheld⟩
  rw [hpasses]
  exact h.readFaces hleads hheld'

/-- Passes in turn fail if one of them always does. -/
theorem FailsAt.forEach {pass : Pass Float} (h : FailsAt pass editor) {passes : List (Pass Float)}
    (hpass : pass ∈ passes) (hst : Leads editor st) (handle : Handle) :
    ∃ e, (forEach (fun pass => MeshEditor.apply pass handle) passes st).1 = .error e := by
  induction passes generalizing st with
  | nil => exact absurd hpass List.not_mem_nil
  | cons first rest ih =>
    have hnext := hst.apply first handle
    have hfails := h st hst handle
    rw [CollisionMesh.forEach]
    rcases List.mem_cons.mp hpass with rfl | hlater
    · obtain ⟨operation, fault, hfails⟩ := hfails
      generalize MeshEditor.apply pass handle st = answered at hfails ⊢
      obtain ⟨answer, st₁⟩ := answered
      obtain rfl : answer = _ := hfails
      exact ⟨_, rfl⟩
    · generalize MeshEditor.apply first handle st = answered at hnext ⊢
      obtain ⟨_ | _, st₁⟩ := answered
      · exact ⟨_, rfl⟩
      · exact ih hlater hnext

/-- **Failing.** No mesh is simplified where one of the passes always fails. -/
theorem FailsAt.simplify {pass : Pass Float} (h : FailsAt pass editor) {t : Tolerances Float}
    (hpass : pass ∈ t.passes) (hst : Leads editor st) (mesh : TriangleMesh Float) :
    ∃ e, (CollisionMesh.simplify t mesh st).1 = .error e := by
  have hnewLeads := hst.newMesh
  unfold CollisionMesh.simplify
  generalize MeshEditor.newMesh st = made at hnewLeads ⊢
  obtain ⟨handle, st₁⟩ := made
  have hsetLeads := hnewLeads.setGeometry handle mesh.vertices mesh.faces
  dsimp only at hsetLeads ⊢
  generalize MeshEditor.setGeometry handle mesh.vertices mesh.faces st₁ = loaded at hsetLeads ⊢
  obtain ⟨_ | _, st₂⟩ := loaded
  · exact ⟨_, rfl⟩
  · obtain ⟨e, he⟩ := h.forEach hpass hsetLeads handle
    dsimp only
    generalize CollisionMesh.forEach _ t.passes st₂ = edited at he ⊢
    obtain ⟨answer, st₃⟩ := edited
    obtain rfl : answer = _ := he
    exact ⟨e, rfl⟩

/-! ### Failures of a group -/

/-- An exchange is a request that was made of a state in between. -/
theorem Answered.exists_perform {s s' : σ} {log : List (Exchange Float)} (h : Answered s log s')
    {editor : σ} (hs : Leads editor s) {exchange : Exchange Float} (hmem : exchange ∈ log) :
    ∃ st, Leads editor st ∧ (exchange.call.perform st).1 = exchange.reply := by
  induction h with
  | nil => exact absurd hmem List.not_mem_nil
  | cons call _ ih =>
    rcases List.mem_cons.mp hmem with rfl | hlater
    · exact ⟨_, hs, rfl⟩
    · exact ih (hs.perform call) hlater

/-- Where a pass always fails and all failures concern just the group, groups fail just for
    themselves. -/
theorem FailsAt.isGroupLocal {pass : Pass Float} (h : FailsAt pass editor)
    (hlocal : FailsLocally editor) {t : Tolerances Float} (hpass : pass ∈ t.passes)
    (hst : Leads editor st) {g : Group} {e : Error} (he : (simplifyGroup t g st).1 = .error e) :
    e.isGroupLocal = true := by
  obtain ⟨e', he'⟩ := h.simplify hpass hst (meshOfRecords g.records)
  have heq : (simplifyGroup t g st).1 = .error e' := by
    show ((CollisionMesh.simplify t (meshOfRecords g.records) st).1).bind _ = _
    rw [he']
    rfl
  obtain rfl := Except.error.inj (heq.symm.trans he)
  -- The error is the answer to one of the requests.
  obtain ⟨handle, log, hanswered, hattempt, -⟩ := simplify_attempts t (meshOfRecords g.records) st
  rw [he'] at hattempt
  obtain ⟨call, hlast⟩ := hattempt.error_suffix
  have hmem := hlast.mem (List.mem_singleton_self _)
  obtain ⟨st', hst', hreply⟩ := hanswered.exists_perform hst (List.mem_cons_of_mem _ hmem)
  exact hlocal st' hst' call _ hreply

end

/-! ### Scripted editors -/

namespace Scripted

/-- No request changes what a scripted editor is told to do, and the faces that are set are those
    of a mesh. -/
theorem of_leads {failing : Option Operation} {st : Scripted Float}
    (h : Leads (Scripted.new failing none) st) :
    st.failing = failing ∧ st.prepared = none ∧ ∃ m : TriangleMesh Float, st.faces = m.toMesh.readBack := by
  obtain ⟨calls, rfl⟩ := h
  refine performAll_keeps (P := fun st : Scripted Float => st.failing = failing ∧ st.prepared = none ∧
    ∃ m : TriangleMesh Float, st.faces = m.toMesh.readBack) ?_ calls ⟨rfl, rfl, ⟨#[], []⟩, rfl⟩
  rintro call st ⟨hfailing, hprepared, m, hm⟩
  cases call with
  | setGeometry handle vertices faces =>
    refine ⟨hfailing, hprepared, ⟨vertices, faces⟩, ?_⟩
    rw [Mesh.readBack, TriangleMesh.toMesh, List.map_map]
    rfl
  | _ => exact ⟨hfailing, hprepared, m, hm⟩

/-- A scripted editor that does not fail keeps the geometry that it is given, the last under every
    handle. -/
theorem keepsGeometry : KeepsGeometry (Scripted.new none none : Scripted Float)
    fun st _ m => st.faces = m.toMesh.readBack where
  newMesh hst := (of_leads hst).2.2
  setGeometry := by
    intro st h m hst _ vertices faces _
    refine ⟨?_, ?_⟩
    · show st.checked .setGeometry () = _
      rw [checked, (of_leads hst).1]
      rfl
    · rw [Mesh.readBack, TriangleMesh.toMesh, List.map_map]
      rfl
  apply := by
    intro st h m hst hm pass
    refine ⟨?_, hm⟩
    show st.checked pass.operation () = _
    rw [checked, (of_leads hst).1]
    rfl
  readFaces := by
    intro st h m hst hm
    show st.checked .readFaces (st.prepared.getD st.faces) = _
    rw [checked, (of_leads hst).1, (of_leads hst).2.1, ← hm]
    rfl

/-- A scripted editor always fails at the passes that it is told to. -/
theorem failsAt (pass : Pass Float) :
    FailsAt pass (Scripted.new (some pass.operation) none : Scripted Float) := by
  intro st hst h
  refine ⟨pass.operation, .refused "scripted failure", ?_⟩
  show st.checked pass.operation () = _
  rw [checked, (of_leads hst).1, if_pos rfl]

/-- A scripted editor fails just for groups. -/
theorem failsLocally (failing : Option Operation) :
    FailsLocally (Scripted.new failing none : Scripted Float) := by
  have hchecked : ∀ {β : Type} {st : Scripted Float} {operation : Operation} {answer : β} {e : Error},
      st.checked operation answer = .error e → e.isGroupLocal = true := by
    intro β st operation answer e he
    unfold checked at he
    split at he
    · obtain rfl := Except.error.inj he
      rfl
    · exact absurd he (by simp)
  have hresult : ∀ {x : Except Error Unit} {e : Error},
      (Reply.ofResult x : Reply Float) = .error e → x = .error e := by
    rintro (e' | _) e he
    · rw [Reply.error.inj he]
    · exact absurd he (by simp [Reply.ofResult])
  have hfaces : ∀ {x : Except Error (List (EditorFace Float))} {e : Error},
      Reply.ofFaces x = .error e → x = .error e := by
    rintro (e' | _) e he
    · rw [Reply.error.inj he]
    · exact absurd he (by simp [Reply.ofFaces])
  intro st _ call e he
  cases call with
  | newMesh => exact absurd he (by simp [Call.perform])
  | clearAll => exact absurd he (by simp [Call.perform])
  | setGeometry handle vertices faces => exact hchecked (hresult he)
  | apply pass handle => exact hchecked (hresult he)
  | readFaces handle => exact hchecked (hfaces he)

end Scripted

end CollisionMesh
