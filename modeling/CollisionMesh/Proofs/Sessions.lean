import CollisionMesh.Proofs.Group
import CollisionMesh.Proofs.Recording

namespace CollisionMesh

open Text

/-!
# What an editor is asked

Whatever an editor answers, each group of a document is a session of its own: a new mesh, the
requests of the group up to the first that fails, and one clearing. A failed edit concerns just
the group; any other error ends the document after the session. A document
that is read to its end ends with one clearing more.

* `Group.plan` — the requests of a group on the handle of its mesh;
* `Attempt` — requests in turn up to the first that fails;
* `Group.Session`, `Sessions`, `Document.Session` — the exchanges of a group, of groups in turn
  and of a document, with what ends them;
* `simplify_attempts`, `simplifyGroup_session`, `processLines_session` — what is asked for a mesh, a
  group and a document; `processLines_requests` — what a recorded editor notes of it;
* `Sessions.error_suffix` — the last exchanges of groups that end a document;
* `Scene.Frugal` — exchanges after which a scene is as empty as before, with one mesh at most
  in between;
* `requests_of_process` — all of it.
-/

/-! ### Sessions -/

/-- The error that ends something, if one does. -/
def faultOf {β : Type} : Except Error β → Option Error
  | .ok _ => none
  | .error e => some e

/-- The error that a reply is, if it is one. -/
def Reply.fault? {α : Type} : Reply α → Option Error
  | .error e => some e
  | _ => none

/-- Requests made in turn, up to the first that fails. -/
inductive Attempt {α : Type} : List (Call α) → List (Exchange α) → Option Error → Prop where
  | done : Attempt [] [] none
  | next {call : Call α} {reply : Reply α} {plan : List (Call α)} {log : List (Exchange α)}
    {fault : Option Error} (hreply : reply.fault? = none) :
    Attempt plan log fault → Attempt (call :: plan) (⟨call, reply⟩ :: log) fault
  | failed (call : Call α) (plan : List (Call α)) (e : Error) :
    Attempt (call :: plan) [⟨call, .error e⟩] (some e)

/-- The requests of a group on the handle of its mesh: its triangles, three vertices each, the
    passes, and the faces. -/
def Group.plan (t : Tolerances Float) (g : Group) (h : Handle) : List (Call Float) :=
  [.setGeometry h (Record.points g.records).toArray
      ((List.range g.size).map fun i => ⟨3 * i, 3 * i + 1, 3 * i + 2⟩),
    .apply (.weld t.weldDistance) h, .apply (.edgeSplit t.splitAngle) h,
    .apply (.dissolve t.dissolveAngle) h, .apply (.weld t.weldDistance) h,
    .apply .triangulate h, .readFaces h]

/-- The exchanges of a group, and the error that it ends with: a new mesh, the requests on its
    handle, and one clearing. -/
inductive Group.Session (t : Tolerances Float) (g : Group) :
    List (Exchange Float) → Option Error → Prop where
  /-- A request fails. -/
  | refused {h : Handle} {log : List (Exchange Float)} {e : Error}
    (hlog : Attempt (g.plan t h) log (some e)) :
    Session t g (⟨.newMesh, .handle h⟩ :: log ++ [⟨.clearAll, .done⟩]) (some e)
  /-- All requests succeed, and the faces that were read are triangles. -/
  | read {h : Handle} {log : List (Exchange Float)} {faces : List (EditorFace Float)}
    (hlog : Attempt (g.plan t h) log none)
    (hfaces : log.getLast? = some ⟨.readFaces h, .faces faces⟩)
    (htriangles : ∀ face ∈ faces, face.IsTriangle) :
    Session t g (⟨.newMesh, .handle h⟩ :: log ++ [⟨.clearAll, .done⟩]) none
  /-- All requests succeed, but some face is no triangle. The first one is the error. -/
  | notTriangle {h : Handle} {log : List (Exchange Float)} {faces : List (EditorFace Float)}
    {n : Nat} {face : EditorFace Float} (hlog : Attempt (g.plan t h) log none)
    (hfaces : log.getLast? = some ⟨.readFaces h, .faces faces⟩) (hface : faces[n]? = some face)
    (hnot : ¬ face.IsTriangle) (hearlier : ∀ earlier ∈ faces.take n, earlier.IsTriangle) :
    Session t g (⟨.newMesh, .handle h⟩ :: log ++ [⟨.clearAll, .done⟩])
      (some (.notTriangle n face.indices.length))

/-- The exchanges of groups in turn, and the error that ends them: any but the failure of an edit,
    which concerns just its group. -/
inductive Sessions (t : Tolerances Float) :
    List Group → List (Exchange Float) → Option Error → Prop where
  | done : Sessions t [] [] none
  | next {g : Group} {rest : List Group} {log later : List (Exchange Float)}
    {fault fatal : Option Error} (hg : g.Session t log fault)
    (hlocal : ∀ e, fault = some e → ∃ operation reason, e = .edit operation reason) :
    Sessions t rest later fatal → Sessions t (g :: rest) (log ++ later) fatal
  | fatal {g : Group} {rest : List Group} {log : List (Exchange Float)} {e : Error}
    (hg : g.Session t log (some e)) (he : ∀ operation reason, e ≠ .edit operation reason) :
    Sessions t (g :: rest) log (some e)

/-- The groups of an item. -/
def Item.groups : Item → List Group
  | .run r => r.groups
  | _ => []

namespace Document

/-- The groups of a document, in the order in which they are written out. -/
def groups (d : Document) : List Group :=
  d.items.flatMap Item.groups

/-- The exchanges of a document, and the error that it ends with: its groups in turn, and one
    clearing more if nothing ends it. -/
inductive Session (t : Tolerances Float) (d : Document) :
    List (Exchange Float) → Option Error → Prop where
  | rewritten {log : List (Exchange Float)} (hgroups : Sessions t d.groups log none)
    (hfault : d.fault = none) : Session t d (log ++ [⟨.clearAll, .done⟩]) none
  | malformed {log : List (Exchange Float)} {e : Error} (hgroups : Sessions t d.groups log none)
    (hfault : d.fault = some e) : Session t d log (some e)
  | fatal {log : List (Exchange Float)} {e : Error} (hgroups : Sessions t d.groups log (some e)) :
    Session t d log (some e)

end Document

/-! ### Attempts -/

section

variable {α σ : Type}

/-- After a plan that succeeds the next one is attempted. -/
theorem Attempt.append {plan later : List (Call α)} {log log' : List (Exchange α)}
    {fault : Option Error} (h : Attempt plan log none) (h' : Attempt later log' fault) :
    Attempt (plan ++ later) (log ++ log') fault := by
  induction log generalizing plan with
  | nil =>
    cases h
    exact h'
  | cons exchange log ih =>
    cases h with
    | next hreply hrest => exact .next hreply (ih hrest)

/-- After a plan that fails nothing is attempted. -/
theorem Attempt.append_of_failed {plan : List (Call α)} {log : List (Exchange α)} {e : Error}
    (h : Attempt plan log (some e)) (later : List (Call α)) :
    Attempt (plan ++ later) log (some e) := by
  induction log generalizing plan with
  | nil => cases h
  | cons exchange log ih =>
    cases h with
    | next hreply hrest => exact .next hreply (ih hrest)
    | failed call plan e => exact .failed call (plan ++ later) e

/-- Nothing but what was planned is requested. -/
theorem Attempt.isPrefix {plan : List (Call α)} {log : List (Exchange α)} {fault : Option Error}
    (h : Attempt plan log fault) : log.map Exchange.call <+: plan := by
  induction h with
  | done => exact List.nil_prefix
  | next hreply _ ih => exact (List.prefix_cons_inj _).mpr ih
  | failed call plan e => exact (List.prefix_cons_inj _).mpr List.nil_prefix

/-- An attempt that fails ends with the request that did. -/
theorem Attempt.error_suffix {plan : List (Call α)} {log : List (Exchange α)} {e : Error}
    (h : Attempt plan log (some e)) : ∃ call, [⟨call, .error e⟩] <:+ log := by
  generalize hsome : some e = fault at h
  induction h with
  | done => exact absurd hsome (by simp)
  | next hreply _ ih =>
    obtain ⟨call, hlast⟩ := ih hsome
    exact ⟨call, hlast.trans (List.suffix_cons _ _)⟩
  | failed call plan e' =>
    obtain rfl := Option.some.inj hsome
    exact ⟨call, List.suffix_rfl⟩

variable [MeshEditor α σ]

/-- One request more at the start. -/
theorem Answered.cons_of_eq {call : Call α} {reply : Reply α} {s s₁ s' : σ}
    {log : List (Exchange α)} (h : call.perform s = (reply, s₁)) (hrest : Answered s₁ log s') :
    Answered s (⟨call, reply⟩ :: log) s' := by
  have hnext : Answered (call.perform s).2 log s' := by rw [h]; exact hrest
  have hcons := Answered.cons call hnext
  rwa [h] at hcons

/-- Passes in turn are an attempt. -/
theorem forEach_apply_attempts (h : Handle) (passes : List (Pass α)) (s : σ) :
    ∃ log, Answered s log (forEach (fun pass => MeshEditor.apply pass h) passes s).2 ∧
      Attempt (passes.map fun pass => .apply pass h) log
        (faultOf (forEach (fun pass => MeshEditor.apply pass h) passes s).1) := by
  induction passes generalizing s with
  | nil => exact ⟨[], .nil s, .done⟩
  | cons pass rest ih =>
    rw [forEach, List.map_cons]
    cases happly : MeshEditor.apply pass h s with
    | mk answer s₁ =>
      have hperform : (Call.apply pass h).perform s = (.ofResult answer, s₁) := by
        rw [Call.perform, happly]
      cases answer with
      | error e => exact ⟨_, .cons_of_eq hperform (.nil s₁), .failed _ _ e⟩
      | ok done =>
        obtain ⟨log, hanswered, hattempt⟩ := ih s₁
        exact ⟨_, .cons_of_eq hperform hanswered, .next rfl hattempt⟩

/-- Reading the faces is an attempt that succeeds with the faces. -/
theorem readFaces_attempt (h : Handle) (s : σ) :
    Attempt [.readFaces h] [⟨.readFaces h, .ofFaces (MeshEditor.readFaces h s).1⟩]
      (faultOf (MeshEditor.readFaces h s).1) := by
  cases (MeshEditor.readFaces h s).1 with
  | error e => exact .failed _ _ e
  | ok faces => exact .next rfl .done

/-- **Simplifying.** A new mesh is made, and the requests on its handle are attempted. Where
    they succeed, the last of them reads the faces. -/
theorem simplify_attempts (t : Tolerances α) (mesh : TriangleMesh α) (s : σ) :
    ∃ h log, Answered s (⟨.newMesh, .handle h⟩ :: log) (simplify t mesh s).2 ∧
      Attempt (.setGeometry h mesh.vertices mesh.faces ::
        ((t.passes.map fun pass => .apply pass h) ++ [.readFaces h])) log
          (faultOf (simplify t mesh s).1) ∧
      ∀ faces, (simplify t mesh s).1 = .ok faces →
        log.getLast? = some ⟨.readFaces h, .faces faces⟩ := by
  unfold simplify
  cases hnew : MeshEditor.newMesh s with
  | mk h s₁ =>
    have hnew : Call.newMesh.perform s = (.handle h, s₁) := by rw [Call.perform, hnew]
    refine ⟨h, ?_⟩
    dsimp only
    cases hset : MeshEditor.setGeometry h mesh.vertices mesh.faces s₁ with
    | mk answer s₂ =>
      have hset : (Call.setGeometry h mesh.vertices mesh.faces).perform s₁
          = (.ofResult answer, s₂) := by
        rw [Call.perform, hset]
      cases answer with
      | error e =>
        exact ⟨_, .cons_of_eq hnew (.cons_of_eq hset (.nil s₂)), .failed _ _ e,
          fun _ hok => absurd hok (by simp)⟩
      | ok done =>
        obtain ⟨log, hanswered, hattempt⟩ := forEach_apply_attempts h t.passes s₂
        dsimp only
        cases hpasses : forEach (fun pass => MeshEditor.apply pass h) t.passes s₂ with
        | mk answer s₃ =>
          rw [hpasses] at hanswered hattempt
          cases answer with
          | error e =>
            exact ⟨_, .cons_of_eq hnew (.cons_of_eq hset hanswered),
              .next rfl (hattempt.append_of_failed _), fun _ hok => absurd hok (by simp)⟩
          | ok done =>
            refine ⟨_, .cons_of_eq hnew (.cons_of_eq hset (hanswered.append
              (.single (.readFaces h) s₃))), .next rfl (hattempt.append (readFaces_attempt h s₃)), ?_⟩
            intro faces hok
            rw [← List.cons_append, List.getLast?_concat, Call.perform]
            dsimp only at hok
            rw [hok]
            rfl

end

/-! ### Groups and documents -/

section

variable {σ : Type} [MeshEditor Float σ]

/-- The plan of a group loads its mesh, edits it by every pass and reads it. -/
theorem Group.plan_eq (t : Tolerances Float) (g : Group) (h : Handle) :
    g.plan t h = .setGeometry h (meshOfRecords g.records).vertices (meshOfRecords g.records).faces ::
      ((t.passes.map fun pass => .apply pass h) ++ [.readFaces h]) := by
  have hpoints : (meshOfRecords g.records).vertices = (Record.points g.records).toArray := by
    rw [Record.points, ← List.flatMap_map]
    rfl
  have hsize : (g.records.map (·.corners)).length = g.size := by
    rw [List.length_map, Group.length_records]
  rw [Group.plan, hpoints, meshOfRecords, TriangleMesh.ofTriangles, hsize]
  rfl

/-- **Groups.** Simplifying a group and clearing the editor is a session. -/
theorem simplifyGroup_session (t : Tolerances Float) (g : Group) (s : σ) :
    ∃ log, g.Session t log (faultOf (simplifyGroup t g s).1) ∧
      Answered s log (MeshEditor.clearAll (simplifyGroup t g s).2) := by
  obtain ⟨h, log, hanswered, hattempt, hfaces⟩ := simplify_attempts t (meshOfRecords g.records) s
  rw [← Group.plan_eq] at hattempt
  refine ⟨_, ?_, hanswered.append (.single .clearAll _)⟩
  show g.Session t _ (faultOf ((simplify t (meshOfRecords g.records) s).1.bind _))
  cases hresult : (simplify t (meshOfRecords g.records) s).1 with
  | error e =>
    rw [hresult] at hattempt
    exact .refused hattempt
  | ok faces =>
    rw [hresult] at hattempt
    rcases recordsOfFacesFrom_cases faces (if g.keyed then some g.key else none) 0 with
      ⟨htriangles, rs, hrs⟩ | ⟨n, face, hface, hnot, hearlier, herror⟩
    · rw [show (Except.ok faces).bind (fun faces => recordsOfFaces faces g.key g.keyed) = .ok rs
        from hrs]
      exact .read hattempt (hfaces faces hresult) htriangles
    · rw [Nat.zero_add] at herror
      rw [show (Except.ok faces).bind (fun faces => recordsOfFaces faces g.key g.keyed)
        = .error (.notTriangle n face.indices.length) from herror]
      exact .notTriangle hattempt (hfaces faces hresult) hface hnot hearlier

/-- A group that is written out leaves a clear editor. Only an error that concerns more than
    the group ends the document. -/
theorem emitGroup_eq (s : Settings) (g : Group) (p : Progress σ) :
    (emitGroup s g p).2.editor = MeshEditor.clearAll (simplifyGroup s.tolerances g p.editor).2 ∧
      faultOf (emitGroup s g p).1
        = (faultOf (simplifyGroup s.tolerances g p.editor).1).filter fun e => !e.isGroupLocal := by
  unfold emitGroup
  dsimp only [Progress.count]
  obtain ⟨answer, editor⟩ := simplifyGroup s.tolerances g p.editor
  cases answer with
  | ok records => exact ⟨rfl, rfl⟩
  | error e =>
    dsimp only [faultOf]
    cases hlocal : e.isGroupLocal with
    | false => simp [Option.filter, hlocal]
    | true =>
      cases s.failurePolicy <;> simp [Option.filter, hlocal, Progress.tell, Progress.write]

/-- Sessions of some groups and then of others. -/
theorem Sessions.append {t : Tolerances Float} {gs later : List Group}
    {log log' : List (Exchange Float)} {fault : Option Error} (h : Sessions t gs log none)
    (h' : Sessions t later log' fault) : Sessions t (gs ++ later) (log ++ log') fault := by
  generalize hnone : (none : Option Error) = ended at h
  induction h with
  | done => exact h'
  | next hg hlocal _ ih =>
    rw [List.cons_append, List.append_assoc]
    exact .next hg hlocal (ih hnone)
  | fatal hg he => exact absurd hnone (by simp)

/-- After an error that ends the document no group has a session. -/
theorem Sessions.append_of_fatal {t : Tolerances Float} {gs : List Group}
    {log : List (Exchange Float)} {e : Error} (h : Sessions t gs log (some e))
    (later : List Group) : Sessions t (gs ++ later) log (some e) := by
  generalize hsome : some e = ended at h
  induction h with
  | done => exact absurd hsome (by simp)
  | next hg hlocal _ ih => exact .next hg hlocal (ih hsome)
  | fatal hg he => exact .fatal hg he

/-- Actions in turn that are sessions of some groups are sessions of all of them. -/
theorem forEach_sessions {β : Type} {t : Tolerances Float}
    {action : β → Progress σ → Except Error Unit × Progress σ} {groups : β → List Group}
    (h : ∀ b p, ∃ log, Sessions t (groups b) log (faultOf (action b p).1) ∧
      Answered p.editor log (action b p).2.editor) (bs : List β) (p : Progress σ) :
    ∃ log, Sessions t (bs.flatMap groups) log (faultOf (forEach action bs p).1) ∧
      Answered p.editor log (forEach action bs p).2.editor := by
  induction bs generalizing p with
  | nil => exact ⟨[], .done, .nil _⟩
  | cons b rest ih =>
    obtain ⟨log, hlog, hanswered⟩ := h b p
    rw [forEach, List.flatMap_cons]
    cases hb : action b p with
    | mk answer p₁ =>
      rw [hb] at hlog hanswered
      cases answer with
      | error e => exact ⟨log, hlog.append_of_fatal _, hanswered⟩
      | ok done =>
        obtain ⟨later, hlater, hrest⟩ := ih p₁
        exact ⟨log ++ later, hlog.append hlater, hanswered.append hrest⟩

/-- Writing a group out is the session of one group. -/
theorem emitGroup_sessions (s : Settings) (g : Group) (p : Progress σ) :
    ∃ log, Sessions s.tolerances [g] log (faultOf (emitGroup s g p).1) ∧
      Answered p.editor log (emitGroup s g p).2.editor := by
  obtain ⟨log, hsession, hanswered⟩ := simplifyGroup_session s.tolerances g p.editor
  obtain ⟨heditor, hfault⟩ := emitGroup_eq s g p
  refine ⟨log, ?_, heditor ▸ hanswered⟩
  rw [hfault]
  cases hresult : faultOf (simplifyGroup s.tolerances g p.editor).1 with
  | none =>
    rw [hresult] at hsession
    have hnext := Sessions.next hsession (fun e he => absurd he (by simp)) .done
    rwa [List.append_nil] at hnext
  | some e =>
    rw [hresult] at hsession
    cases hlocal : e.isGroupLocal with
    | false =>
      rw [Option.filter_some, if_pos (by simp [hlocal])]
      exact .fatal hsession (Error.isGroupLocal_eq_false_iff.mp hlocal)
    | true =>
      have hedit := Error.isGroupLocal_eq_true_iff.mp hlocal
      have hnext := Sessions.next hsession (fun e' he' => Option.some.inj he' ▸ hedit) .done
      rw [Option.filter_some, if_neg (by simp [hlocal])]
      rwa [List.append_nil] at hnext

/-- **Items.** Writing an item out is the sessions of its groups. -/
theorem emitItem_sessions (s : Settings) (item : Item) (p : Progress σ) :
    ∃ log, Sessions s.tolerances item.groups log (faultOf (emitItem s item p).1) ∧
      Answered p.editor log (emitItem s item p).2.editor := by
  cases item with
  | control line text => exact ⟨[], .done, .nil _⟩
  | ambiguous line => exact ⟨[], .done, .nil _⟩
  | run r =>
    obtain ⟨log, hlog, hanswered⟩ := forEach_sessions (fun g p => emitGroup_sessions s g p) r.groups
      (p.count Report.addRun)
    rw [List.flatMap_singleton'] at hlog
    exact ⟨log, hlog, hanswered⟩

/-- **Documents.** What an editor is asked for a document are the sessions of its groups, and
    one clearing more if nothing ends it. -/
theorem processLines_session (s : Settings) (raws : List String) (editor : σ) :
    ∃ log, (Document.ofLines s.keyPolicy raws).Session s.tolerances log
        (faultOf (processLines s raws editor).result) ∧
      Answered editor log (processLines s raws editor).editor := by
  obtain ⟨log, hlog, hanswered⟩ := forEach_sessions (fun item p => emitItem_sessions s item p)
    (Document.ofLines s.keyPolicy raws).items (Progress.start editor)
  unfold processLines
  dsimp only
  cases hitems : forEach (emitItem s) (Document.ofLines s.keyPolicy raws).items
      (Progress.start editor) with
  | mk answer p =>
    rw [hitems] at hlog hanswered
    cases answer with
    | error e => exact ⟨log, .fatal hlog, hanswered⟩
    | ok done =>
      cases hfault : (Document.ofLines s.keyPolicy raws).fault with
      | some e => exact ⟨log, .malformed hlog hfault, hanswered⟩
      | none => exact ⟨_, .rewritten hlog hfault, hanswered.append (.single .clearAll _)⟩

/-- **Records.** What a recorded editor notes of a document are the requests of its sessions. -/
theorem processLines_requests (s : Settings) (raws : List String) (editor : σ) :
    ∃ log, (Document.ofLines s.keyPolicy raws).Session s.tolerances log
        (faultOf (processLines s raws editor).result) ∧
      Answered editor log (processLines s raws editor).editor ∧
      (processLines s raws (Recorded.new (α := Float) editor)).editor.calls.toList
        = log.map Exchange.call := by
  obtain ⟨log, hsession, hanswered⟩ :=
    processLines_session s raws (Recorded.new (α := Float) editor)
  obtain ⟨hcalls, hinside⟩ := hanswered.recorded
  rw [processLines_recorded s raws editor]
  exact ⟨log, hsession, hinside, hcalls.trans (by simp [Recorded.new])⟩

end

/-! ### Sessions that end a document -/

/-- A group that fails ends with a request that was answered with the error, and the clearing, or
    with a face that is no triangle. -/
theorem Group.Session.error_suffix {t : Tolerances Float} {g : Group} {log : List (Exchange Float)}
    {e : Error} (h : g.Session t log (some e)) :
    (∃ call, [⟨call, .error e⟩, ⟨.clearAll, .done⟩] <:+ log) ∨
      ∃ face corners, e = .notTriangle face corners := by
  generalize hsome : some e = fault at h
  cases h with
  | @refused handle log' e' hlog =>
    obtain rfl := Option.some.inj hsome
    obtain ⟨call, before, rfl⟩ := hlog.error_suffix
    exact .inl ⟨call, ⟨.newMesh, .handle handle⟩ :: before, by simp⟩
  | read => exact absurd hsome (by simp)
  | notTriangle => exact .inr ⟨_, _, Option.some.inj hsome⟩

/-- So do groups in turn. -/
theorem Sessions.error_suffix {t : Tolerances Float} {gs : List Group} {log : List (Exchange Float)}
    {e : Error} (h : Sessions t gs log (some e)) :
    (∃ call, [⟨call, .error e⟩, ⟨.clearAll, .done⟩] <:+ log) ∨
      ∃ face corners, e = .notTriangle face corners := by
  generalize hsome : some e = fault at h
  induction h with
  | done => exact absurd hsome (by simp)
  | next hg hlocal _ ih =>
    refine (ih hsome).imp_left ?_
    rintro ⟨call, hlast⟩
    exact ⟨call, hlast.trans (List.suffix_append _ _)⟩
  | fatal hg he =>
    obtain rfl := Option.some.inj hsome
    exact hg.error_suffix

/-! ### Sessions in a scene -/

namespace Scene

variable [Clipper Float]

/-- After these exchanges a scene that was empty is empty again, and at no moment in between
    it had more than one mesh. -/
def Frugal (log : List (Exchange Float)) : Prop :=
  ∀ scene : Scene Float, scene.meshes = [] →
    (performAll (log.map Exchange.call) scene).meshes = [] ∧
      ∀ calls, calls <+: log.map Exchange.call → (performAll calls scene).meshes.length ≤ 1

theorem Frugal.nil : Frugal [] := by
  intro scene hscene
  refine ⟨hscene, ?_⟩
  intro calls hcalls
  rw [List.prefix_nil.mp hcalls, performAll_nil, hscene]
  exact Nat.zero_le 1

theorem Frugal.append {log later : List (Exchange Float)} (h : Frugal log) (h' : Frugal later) :
    Frugal (log ++ later) := by
  intro scene hscene
  obtain ⟨hempty, hmoments⟩ := h scene hscene
  obtain ⟨hempty', hmoments'⟩ := h' _ hempty
  rw [List.map_append, performAll_append]
  refine ⟨hempty', ?_⟩
  intro calls hcalls
  rcases List.prefix_or_prefix_of_prefix hcalls (List.prefix_append _ _) with hcalls' | ⟨rest, rfl⟩
  · exact hmoments calls hcalls'
  · rw [performAll_append]
    exact hmoments' rest ((List.prefix_append_right_inj _).mp hcalls)

omit [Clipper Float] in
/-- Only a new mesh is one mesh more. -/
theorem Step.length_meshes_le {s s' : Scene Float} {call : Call Float} {reply : Reply Float}
    (hstep : s.Step call reply s') (hcall : call ≠ .newMesh) :
    s'.meshes.length ≤ s.meshes.length := by
  cases hstep with
  | newMesh => exact absurd rfl hcall
  | clearAll => exact Nat.zero_le _
  | refused | read => exact Nat.le_refl _
  | edited hnames hlive hwell => exact (List.length_map _).le

/-- Without a new mesh there are no more meshes than before. -/
theorem length_meshes_performAll_le {calls : List (Call Float)}
    (h : ∀ call ∈ calls, call ≠ .newMesh) (s : Scene Float) :
    (performAll calls s).meshes.length ≤ s.meshes.length := by
  induction calls generalizing s with
  | nil => exact Nat.le_refl _
  | cons call rest ih =>
    exact (ih (fun c hc => h c (List.mem_cons_of_mem call hc)) _).trans
      ((step_perform call s).length_meshes_le (h call List.mem_cons_self))

/-- A clearing is frugal. -/
theorem Frugal.clearAll : Frugal [⟨.clearAll, .done⟩] := by
  intro scene hscene
  refine ⟨rfl, ?_⟩
  intro calls hcalls
  have hnone : ∀ call ∈ calls, call ≠ .newMesh := by
    intro call hcall
    rw [List.mem_singleton.mp (hcalls.subset hcall)]
    exact fun h => nomatch h
  have hle := length_meshes_performAll_le hnone scene
  rw [hscene] at hle
  exact hle.trans (Nat.zero_le 1)

/-- **Groups.** The session of a group is frugal. -/
theorem Frugal.of_attempt {t : Tolerances Float} {g : Group} {h : Handle}
    {log : List (Exchange Float)} {fault : Option Error} (hlog : Attempt (g.plan t h) log fault) :
    Frugal (⟨.newMesh, .handle h⟩ :: log ++ [⟨.clearAll, .done⟩]) := by
  -- Nothing that was planned makes a mesh, and neither does the clearing.
  have hnone : ∀ call ∈ log.map Exchange.call ++ [.clearAll], call ≠ .newMesh := by
    rintro call hcall rfl
    rcases List.mem_append.mp hcall with hcall | hcall
    · have hplan := hlog.isPrefix.subset hcall
      simp [Group.plan] at hplan
    · exact nomatch List.mem_singleton.mp hcall
  rw [Frugal, List.map_append, List.map_cons]
  intro scene hscene
  constructor
  · rw [performAll_append]
    rfl
  · intro calls hcalls
    cases calls with
    | nil =>
      rw [performAll_nil, hscene]
      exact Nat.zero_le 1
    | cons call rest =>
      obtain ⟨rfl, hrest⟩ := List.cons_prefix_cons.mp hcalls
      have hle := length_meshes_performAll_le (fun c hc => hnone c (hrest.subset hc))
        scene.newMesh.2
      refine hle.trans ?_
      show (scene.meshes ++ _).length ≤ 1
      rw [hscene]
      exact Nat.le_refl 1

theorem Frugal.of_groupSession {t : Tolerances Float} {g : Group} {log : List (Exchange Float)}
    {fault : Option Error} (h : g.Session t log fault) : Frugal log := by
  cases h with
  | refused hlog => exact .of_attempt hlog
  | read hlog => exact .of_attempt hlog
  | notTriangle hlog => exact .of_attempt hlog

theorem Frugal.of_sessions {t : Tolerances Float} {gs : List Group} {log : List (Exchange Float)}
    {fault : Option Error} (h : Sessions t gs log fault) : Frugal log := by
  induction h with
  | done => exact .nil
  | next hg hlocal _ ih => exact .append (.of_groupSession hg) ih
  | fatal hg he => exact .of_groupSession hg

/-- **Documents.** The exchanges of a document are frugal. -/
theorem Frugal.of_session {t : Tolerances Float} {d : Document} {log : List (Exchange Float)}
    {fault : Option Error} (h : d.Session t log fault) : Frugal log := by
  cases h with
  | rewritten hgroups hfault => exact .append (.of_sessions hgroups) .clearAll
  | malformed hgroups hfault => exact .of_sessions hgroups
  | fatal hgroups => exact .of_sessions hgroups

end Scene

/-! ### The result -/

/-- **Call discipline.** Whatever an editor answers, what it is asked for a document is a
    session for every group in turn, until one ends with an error that concerns more than the
    group, and one clearing more if nothing ends the document; these are the requests that a
    recorded editor notes. So a scene that was empty is empty again, and at no moment it had
    more than one mesh. -/
theorem requests_of_process {σ : Type} [MeshEditor Float σ] [Clipper Float] (s : Settings)
    (text : String) (editor : σ) :
    (∃ log, (Document.ofLines s.keyPolicy (lines text)).Session s.tolerances log
        (faultOf (process s text editor).result) ∧
      Answered editor log (process s text editor).editor ∧
      (process s text (Recorded.new (α := Float) editor)).editor.calls.toList
        = log.map Exchange.call) ∧
    ∀ scene : Scene Float, scene.meshes = [] → (process s text scene).editor.meshes = [] ∧
      ∀ calls, calls <+: (process s text (Recorded.new (α := Float) scene)).editor.calls.toList →
        (performAll calls scene).meshes.length ≤ 1 := by
  refine ⟨processLines_requests s (lines text) editor, ?_⟩
  intro scene hscene
  obtain ⟨log, hsession, hanswered, hcalls⟩ := processLines_requests s (lines text) scene
  obtain ⟨hempty, hmoments⟩ := Scene.Frugal.of_session hsession scene hscene
  unfold process
  rw [hanswered.eq_performAll, hcalls]
  exact ⟨hempty, hmoments⟩

/-- A run with three keys. -/
def threeKeys : String :=
  "TRI 0;0;0 1;0;0 0;1;0 0 1\nTRI 0;0;0 1;0;0 0;1;0 0 2\nTRI 0;0;0 1;0;0 0;1;0 0 3"

/-- An editor where the weld of a first group fails, and a face of the second one is a square. -/
def Prepared.twoFaults : Prepared Float :=
  ⟨[.ok [], .error (.edit .weld (.refused "busy")), .ok [], .ok [], .ok [], .ok [], .ok [], .ok [],
    .ok [⟨[0, 1, 2], List.replicate 3 Point.origin⟩, ⟨[0, 1, 2, 3], List.replicate 4 Point.origin⟩]]⟩

/-- Of three groups the first ends with a failed weld, after four requests. The second has nine of
    them and ends the document with its second face, so that the third one has none. In a scene all
    three end where their edges are split, and the scene is cleared once more. -/
theorem requests_of_process_three :
    (process Settings.standard threeKeys Prepared.twoFaults).result = .error (.notTriangle 1 4) ∧
    (process Settings.standard threeKeys Prepared.twoFaults).events
      = [.failed ⟨1⟩ (.edit .weld (.refused "busy"))] ∧
    (∃ log, (Document.ofLines .lenient (lines threeKeys)).Session Tolerances.standard log
        (some (.notTriangle 1 4)) ∧ log.length = 4 + 9) ∧
    (Scene.new : Scene Float).meshes = [] ∧
    (process Settings.standard threeKeys (Scene.new : Scene Float)).editor.meshes = [] ∧
    (process Settings.standard threeKeys
        (Recorded.new (α := Float) (Scene.new : Scene Float))).editor.calls.size = 3 * 5 + 1 ∧
    ∀ calls, calls <+: (process Settings.standard threeKeys
        (Recorded.new (α := Float) (Scene.new : Scene Float))).editor.calls.toList →
      (performAll calls (Scene.new : Scene Float)).meshes.length ≤ 1 := by
  have hresult : (process Settings.standard threeKeys Prepared.twoFaults).result
      = .error (.notTriangle 1 4) := by
    decide +kernel
  have hcount : (process Settings.standard threeKeys
      (Recorded.new (α := Float) Prepared.twoFaults)).editor.calls.toList.length = 4 + 9 := by
    decide +kernel
  obtain ⟨⟨log, hsession, -, hcalls⟩, hscene⟩ :=
    requests_of_process Settings.standard threeKeys Prepared.twoFaults
  rw [hresult] at hsession
  rw [hcalls, List.length_map] at hcount
  obtain ⟨hempty, hmoments⟩ := hscene Scene.new rfl
  exact ⟨hresult, by decide +kernel, ⟨log, hsession, hcount⟩, rfl, hempty, by decide +kernel, hmoments⟩

end CollisionMesh
