import CollisionMesh.Proofs.Requests
import Mathlib.Data.List.Range

namespace CollisionMesh

/-!
# Histories of a scene

Whatever is asked of a new scene, in any order: no mesh in it has a corner outside its vertex
list, a request that fails changes nothing, a request that names a handle leaves all other
meshes, no handle is issued twice, and none survives a clearing.

* `Pass.Turn`, `Pass.stages` — what a pass does in one turn, and the meshes that it goes through;
  `Pass.course_stages` — turn by turn to what the pass makes of a mesh;
* `Mesh.WellIndexed.turn`, `Mesh.WellIndexed.stages` — all corners that a pass looks up are
  vertices of the list;
* `Scene.Healthy` — a scene with handles that were issued and meshes that are well indexed;
  `Scene.Healthy.step` — every request keeps that;
* `Scene.Retired` — a handle that was issued and stands for nothing; `Scene.Retired.step` —
  it stays so;
* `Scene.issued` — the handles that requests were answered with;
* `Scene.after`, `Scene.reached_iff` — the scenes that histories end with;
* `Scene.invariants_of_history` — all of it.
-/

/-! ### Indices that a pass looks up -/

section

variable {α : Type} [Scalar α]

/-- The faces of a mesh after the vertices below a number were tried for straight corners. -/
def Mesh.tried (angle : α) (m : Mesh α) (n : Nat) : Mesh α :=
  { m with faces := straighten (m.isStraight angle) n m.faces }

variable [Clipper α]

/-- A turn of a pass: the next mesh whose corners are looked up. -/
inductive Pass.Turn : Pass α → Mesh α → Mesh α → Prop where
  | weld (distance : α) (m : Mesh α) : Turn (.weld distance) m (m.welded distance)
  | split (angle : α) (m : Mesh α) : Turn (.edgeSplit angle) m (m.splitEdges angle)
  | merge (angle : α) (m : Mesh α) : Turn (.dissolve angle) m (m.mergeRegions angle)
  /-- The next vertex is tried for a straight corner. -/
  | straighten (angle : α) (m : Mesh α) (v : Nat) : Turn (.dissolve angle) m
      { m with faces := straightenAt (m.isStraight angle) m.faces v }
  /-- Vertices that no face uses any more are dropped. -/
  | compact {pass : Pass α} (hpass : pass.operation = .weld ∨ pass.operation = .dissolve)
      (m : Mesh α) : Turn pass m m.compact
  | cut (m : Mesh α) : Turn .triangulate m m.triangulate

/-- The meshes that a pass goes through, the first and the last included. -/
def Pass.stages : Pass α → Mesh α → List (Mesh α)
  | .weld distance, m => [m, m.welded distance, m.weld distance]
  | .edgeSplit angle, m => [m, m.splitEdges angle]
  | .dissolve angle, m =>
    m :: ((List.range (m.vertices.size + 1)).map ((m.mergeRegions angle).tried angle)
      ++ [m.dissolve angle])
  | .triangulate, m => [m, m.triangulate]

/-- A course that a pass takes from a mesh: turn by turn to what the pass makes of it. -/
structure Pass.Course (pass : Pass α) (m : Mesh α) (stages : List (Mesh α)) : Prop where
  start : stages.head? = some m
  turns : stages.IsChain pass.Turn
  last : stages.getLast? = some (pass.edit m)

omit [Clipper α] in
theorem Mesh.tried_succ (angle : α) (m : Mesh α) (n : Nat) : m.tried angle (n + 1)
    = { m.tried angle n with
        faces := straightenAt ((m.tried angle n).isStraight angle) (m.tried angle n).faces n } := by
  rw [tried, straighten_succ]
  rfl

omit [Clipper α] in
/-- Dissolving ends with the mesh where all vertices were tried. -/
theorem Mesh.compact_tried (angle : α) (m : Mesh α) :
    ((m.mergeRegions angle).tried angle m.vertices.size).compact = m.dissolve angle :=
  congrArg compact (straightenCorners_eq angle (m.mergeRegions angle)).symm

/-- **Courses.** The stages of a pass are a course that it takes. -/
theorem Pass.course_stages (pass : Pass α) (m : Mesh α) : pass.Course m (pass.stages m) := by
  cases pass with
  | weld distance =>
    refine ⟨rfl, ?_, rfl⟩
    exact .cons_cons (.weld distance m) (.cons_cons (.compact (.inl rfl) _) (.singleton _))
  | edgeSplit angle => exact ⟨rfl, .cons_cons (.split angle m) (.singleton _), rfl⟩
  | dissolve angle =>
    refine ⟨rfl, ?_, by simp [stages, List.getLast?_cons, Pass.edit]⟩
    have htried : ((List.range (m.vertices.size + 1)).map ((m.mergeRegions angle).tried angle)).IsChain
        (Pass.dissolve angle).Turn := by
      rw [List.isChain_map, List.isChain_range_succ]
      intro n _
      rw [Nat.succ_eq_add_one, Mesh.tried_succ]
      exact .straighten angle _ n
    rw [stages, List.isChain_cons, List.isChain_append]
    refine ⟨?_, htried, .singleton _, ?_⟩
    · -- The first one is the mesh after merging.
      intro next hnext
      rw [List.range_succ_eq_map] at hnext
      obtain rfl : m.mergeRegions angle = next := Option.some.inj hnext
      exact .merge angle m
    · intro last hlast final hfinal
      rw [List.range_succ, List.map_append] at hlast
      obtain rfl : (m.mergeRegions angle).tried angle m.vertices.size = last := by
        simpa using hlast
      obtain rfl : m.dissolve angle = final := Option.some.inj hfinal
      rw [← Mesh.compact_tried]
      exact .compact (.inr rfl) _
  | triangulate => exact ⟨rfl, .cons_cons (.cut m) (.singleton _), rfl⟩

/-- **Turns.** No turn leaves a corner outside the vertex list. -/
theorem Mesh.WellIndexed.turn {m m' : Mesh α} (h : m.WellIndexed) {pass : Pass α}
    (hturn : pass.Turn m m') : m'.WellIndexed := by
  cases hturn with
  | weld distance => exact wellIndexed_welded h distance
  | split angle => exact wellIndexed_splitEdges h angle
  | merge angle => exact wellIndexed_mergeRegions h angle
  | straighten angle =>
    intro face hface i hi
    obtain ⟨old, hold, hsub⟩ := exists_superset_of_forall₂ sublist_straightenAt hface
    exact h old hold i (hsub hi)
  | compact => exact wellIndexed_compact m
  | cut => exact wellIndexed_triangulate h

/-- **Lookups.** No pass over a mesh that is well indexed looks up a corner outside the vertex
    list. -/
theorem Mesh.WellIndexed.stages {m : Mesh α} (h : m.WellIndexed) (pass : Pass α) :
    ∀ stage ∈ pass.stages m, stage.WellIndexed := by
  obtain ⟨hstart, hturns, -⟩ := pass.course_stages m
  refine hturns.induction _ _ (fun _ _ hturn hm => hm.turn hturn) fun hne => ?_
  rw [List.head?_eq_some_head hne] at hstart
  rwa [Option.some.inj hstart]

omit [Clipper α] in
/-- The faces of a mesh that is well indexed are read back with the vertices at their
    corners. -/
theorem Mesh.WellIndexed.readBack {m : Mesh α} (h : m.WellIndexed) {face : EditorFace α}
    (hface : face ∈ m.readBack) :
    face.positions.map some = face.indices.map fun i => m.vertices[i]? := by
  obtain ⟨corners, hcorners, rfl⟩ := List.mem_map.mp hface
  show (corners.map m.position).map some = corners.map _
  rw [List.map_map]
  apply List.map_congr_left
  intro i hi
  have hlt := h corners hcorners i hi
  simp [Mesh.position, hlt]

end

namespace Scene

variable {α : Type}

/-! ### What a request keeps -/

/-- Every live mesh has a handle that was issued and is well indexed. -/
structure Healthy (s : Scene α) : Prop where
  sound : s.Sound
  wellIndexed : ∀ entry ∈ s.meshes, entry.2.WellIndexed

theorem Healthy.new : (Scene.new : Scene α).Healthy :=
  ⟨fun _ h => absurd h List.not_mem_nil, fun _ h => absurd h List.not_mem_nil⟩

/-- A live mesh is one of the list. -/
theorem Healthy.wellIndexed_of_live {s : Scene α} (hs : s.Healthy) {h : Handle} {m : Mesh α}
    (hlive : s.mesh? h = some m) : m.WellIndexed := by
  obtain ⟨before, after, hsplit, -⟩ := List.lookup_eq_some_iff.mp hlive
  exact hs.wellIndexed (h.id, m) (hsplit ▸ List.mem_append_right _ List.mem_cons_self)

variable [Scalar α]

/-- Requests keep a scene healthy. -/
theorem Healthy.step {s s' : Scene α} {call : Call α} {reply : Reply α} (hs : s.Healthy)
    (hstep : s.Step call reply s') : s'.Healthy := by
  cases hstep with
  | newMesh =>
    refine ⟨hs.sound.newMesh, ?_⟩
    intro entry hentry
    rcases List.mem_append.mp hentry with hentry | hentry
    · exact hs.wellIndexed entry hentry
    · rw [List.mem_singleton.mp hentry]
      exact fun face hface => absurd hface List.not_mem_nil
  | clearAll => exact ⟨fun _ h => absurd h List.not_mem_nil, fun _ h => absurd h List.not_mem_nil⟩
  | refused hcall e => exact hs
  | edited hcall hlive hwell =>
    refine ⟨hs.sound.put _ _, ?_⟩
    intro entry hentry
    obtain ⟨old, hold, rfl⟩ := List.mem_map.mp hentry
    split
    · exact hwell (hs.wellIndexed_of_live hlive)
    · exact hs.wellIndexed old hold
  | read hlive => exact hs

/-- A request that fails changes nothing. -/
theorem Step.eq_of_error {s s' : Scene α} {call : Call α} {e : Error}
    (hstep : s.Step call (.error e) s') : s' = s := by
  cases hstep with
  | refused hcall e => rfl

/-- A request that does not name a live mesh leaves it, but for a clearing. -/
theorem Step.mesh?_of_ne {s s' : Scene α} {call : Call α} {reply : Reply α} {h : Handle}
    {m : Mesh α} (hstep : s.Step call reply s') (hclear : call ≠ .clearAll)
    (hne : call.handle? ≠ some h) (hlive : s.mesh? h = some m) : s'.mesh? h = some m := by
  cases hstep with
  | newMesh =>
    show (s.meshes ++ _).lookup h.id = some m
    rw [List.lookup_append, show s.meshes.lookup h.id = some m from hlive]
    rfl
  | clearAll => exact absurd rfl hclear
  | refused hcall e => exact hlive
  | edited hcall hlive' hwell =>
    rw [mesh?_put_of_ne]
    · exact hlive
    · rintro rfl
      exact hne hcall
  | read hlive' => exact hlive

/-- Handles count up. -/
theorem Step.nextId_le {s s' : Scene α} {call : Call α} {reply : Reply α}
    (hstep : s.Step call reply s') : s.nextId ≤ s'.nextId := by
  cases hstep with
  | newMesh => exact Nat.le_succ _
  | clearAll | refused | edited | read => exact Nat.le_refl _

/-! ### Handles that stand for nothing -/

/-- A handle that was issued and stands for no mesh. -/
structure Retired (h : Handle) (s : Scene α) : Prop where
  issued : h.id < s.nextId
  gone : s.mesh? h = none

/-- No request brings a mesh back. -/
theorem Retired.step {s s' : Scene α} {call : Call α} {reply : Reply α} {h : Handle}
    (hs : Retired h s) (hstep : s.Step call reply s') : Retired h s' := by
  refine ⟨Nat.lt_of_lt_of_le hs.issued hstep.nextId_le, ?_⟩
  cases hstep with
  | newMesh =>
    -- The handle that is issued is a later one.
    show (s.meshes ++ _).lookup h.id = none
    have hlater : (h.id == s.nextId) = false := beq_eq_false_iff_ne.mpr (Nat.ne_of_lt hs.issued)
    rw [List.lookup_append, show s.meshes.lookup h.id = none from hs.gone, List.lookup_cons, hlater]
    rfl
  | clearAll => rfl
  | refused hcall e => exact hs.gone
  | edited hcall hlive hwell =>
    rw [mesh?_put_of_ne]
    · exact hs.gone
    · rintro rfl
      exact absurd (hs.gone.symm.trans hlive) (by simp)
  | read hlive => exact hs.gone

/-- A request that names a handle that stands for nothing fails. -/
theorem Step.exists_error_of_gone {s s' : Scene α} {call : Call α} {reply : Reply α} {h : Handle}
    (hstep : s.Step call reply s') (hcall : call.handle? = some h) (hgone : s.mesh? h = none) :
    ∃ e, reply = .error e := by
  cases hstep with
  | newMesh | clearAll => exact absurd hcall (by simp [Call.handle?])
  | refused hcall' e => exact ⟨e, rfl⟩
  | edited hcall' hlive hwell =>
    obtain rfl := Option.some.inj (hcall'.symm.trans hcall)
    exact absurd (hgone.symm.trans hlive) (by simp)
  | read hlive =>
    obtain rfl := Option.some.inj hcall
    exact absurd (hgone.symm.trans hlive) (by simp)

variable [Clipper α]

/-- The handles that some requests in turn are answered with. -/
def issued : List (Call α) → Scene α → List Handle
  | [], _ => []
  | call :: rest, s =>
    match call.perform s with
    | (.handle h, s) => h :: issued rest s
    | (_, s) => issued rest s

/-- A handle that was issued is less than the next one. -/
theorem lt_nextId_of_mem_issued {calls : List (Call α)} {s : Scene α} {h : Handle}
    (hmem : h ∈ issued calls s) : h.id < (performAll calls s).nextId := by
  have hkeeps : ∀ (calls : List (Call α)) (s : Scene α), s.nextId ≤ (performAll calls s).nextId :=
    fun calls s => performAll_keeps (P := fun s' => s.nextId ≤ s'.nextId)
      (fun call s' hs' => hs'.trans (step_perform call s').nextId_le) calls (Nat.le_refl _)
  induction calls generalizing s with
  | nil => exact absurd hmem List.not_mem_nil
  | cons call rest ih =>
    have hstep := step_perform call s
    rw [performAll_cons]
    rw [issued] at hmem
    generalize hreply : call.perform s = next at *
    obtain ⟨reply, s'⟩ := next
    cases hstep with
    | newMesh =>
      rcases List.mem_cons.mp hmem with rfl | hmem
      · exact Nat.lt_of_lt_of_le (Nat.lt_succ_self _) (hkeeps rest s.newMesh.2)
      · exact ih hmem
    | clearAll | refused | edited | read => exact ih hmem

/-- A pass that succeeds leaves what it makes of the mesh. -/
theorem mesh?_apply {s : Scene α} {h : Handle} {m : Mesh α} (hlive : s.mesh? h = some m)
    {pass : Pass α} (hok : (s.apply pass h).1 = .ok ()) :
    (s.apply pass h).2.mesh? h = some (pass.edit m) := by
  by_cases hm : m.faces = []
  · rw [apply_live hlive, Mesh.apply, if_pos (by simpa using hm)] at hok
    exact absurd hok (by simp)
  · rw [apply_live hlive, Mesh.apply_of_ne_nil hm]
    exact mesh?_put hlive _

/-! ### Histories -/

/-- A new scene after some requests in turn. -/
abbrev after (calls : List (Call α)) : Scene α :=
  performAll calls Scene.new

/-- The scenes that requests lead to are those after some requests in turn. -/
theorem reached_iff {s : Scene α} : s.Reached ↔ ∃ calls, after calls = s := by
  have hmore : ∀ (calls : List (Call α)) (call : Call α),
      after (calls ++ [call]) = (call.perform (after calls)).2 :=
    fun calls call => performAll_append calls [call] Scene.new
  constructor
  · intro h
    induction h with
    | new => exact ⟨[], rfl⟩
    | newMesh _ ih =>
      obtain ⟨calls, rfl⟩ := ih
      exact ⟨calls ++ [.newMesh], hmore calls _⟩
    | setGeometry h vertices faces _ ih =>
      obtain ⟨calls, rfl⟩ := ih
      exact ⟨calls ++ [.setGeometry h vertices faces], hmore calls _⟩
    | apply pass h _ ih =>
      obtain ⟨calls, rfl⟩ := ih
      exact ⟨calls ++ [.apply pass h], hmore calls _⟩
    | clearAll _ ih =>
      obtain ⟨calls, rfl⟩ := ih
      exact ⟨calls ++ [.clearAll], hmore calls _⟩
  · rintro ⟨calls, rfl⟩
    refine performAll_keeps (fun call s hs => ?_) calls .new
    cases call with
    | newMesh => exact hs.newMesh
    | setGeometry h vertices faces => exact hs.setGeometry h vertices faces
    | apply pass h => exact hs.apply pass h
    | readFaces h => exact hs.readFaces h
    | clearAll => exact hs.clearAll

theorem healthy_after (calls : List (Call α)) : (after calls).Healthy :=
  performAll_keeps (fun call s hs => hs.step (step_perform call s)) calls .new

/-- **Clearing.** A handle that was issued before a clearing stands for nothing after it, for
    ever. -/
theorem retired_after {calls : List (Call α)} {h : Handle} (hmem : h ∈ issued calls Scene.new)
    (later : List (Call α)) : Retired h (after (calls ++ .clearAll :: later)) := by
  rw [after, performAll_append, performAll_cons]
  exact performAll_keeps (fun call s hs => hs.step (step_perform call s)) later
    ⟨lt_nextId_of_mem_issued hmem, rfl⟩

/-- **Histories.** After any requests, every corner of a live mesh is a vertex of its list, at
    every turn on the course of a pass to what it leaves, and its faces are read back as they
    are. A request that fails changes nothing, and one that does not name a mesh leaves it unless
    it clears the scene. A new mesh has a new handle, and handles from before a clearing are
    refused from then on, whatever is asked in between. -/
theorem invariants_of_history (calls : List (Call α)) :
    (∀ h m, (after calls).mesh? h = some m →
      m.WellIndexed ∧
      (∀ pass : Pass α, pass.Course m (pass.stages m) ∧
        (∀ stage ∈ pass.stages m, stage.WellIndexed) ∧
        ((apply pass h (after calls)).1 = .ok () →
          (apply pass h (after calls)).2.mesh? h = some (pass.edit m))) ∧
      ∃ faces, (readFaces h (after calls)).1 = .ok faces ∧
        ∀ face ∈ faces, face.positions.map some = face.indices.map fun i => m.vertices[i]?) ∧
    (∀ (call : Call α) e, (call.perform (after calls)).1 = .error e →
      (call.perform (after calls)).2 = after calls) ∧
    (∀ (call : Call α) h m, call ≠ .clearAll → call.handle? ≠ some h →
      (after calls).mesh? h = some m → (call.perform (after calls)).2.mesh? h = some m) ∧
    ∀ h ∈ issued calls Scene.new, (newMesh (after calls)).1 ≠ h ∧
      ∀ (later : List (Call α)) (call : Call α), call.handle? = some h →
        ∃ e, (call.perform (after (calls ++ .clearAll :: later))).1 = .error e := by
  refine ⟨?_, ?_, ?_, ?_⟩
  · intro h m hlive
    have hwell := (healthy_after calls).wellIndexed_of_live hlive
    refine ⟨hwell, fun pass => ⟨pass.course_stages m, hwell.stages pass, mesh?_apply hlive⟩,
      m.readBack, ?_, fun face hface => hwell.readBack hface⟩
    rw [readFaces, hlive]
    rfl
  · intro call e he
    have hstep := step_perform call (after calls)
    rw [he] at hstep
    exact hstep.eq_of_error
  · intro call h m hclear hne hlive
    exact (step_perform call (after calls)).mesh?_of_ne hclear hne hlive
  · intro h hmem
    refine ⟨?_, ?_⟩
    · rintro rfl
      exact absurd (lt_nextId_of_mem_issued hmem) (Nat.lt_irrefl _)
    · intro later call hcall
      exact (step_perform call _).exists_error_of_gone hcall (retired_after hmem later).gone

/-- A triangle, a clearing and a new mesh: the triangle was well indexed, and its handle is
    refused after the clearing. -/
theorem invariants_of_history_cleared :
    ((after [.newMesh, .setGeometry ⟨0⟩ #[Point.origin, Point.origin, Point.origin] [⟨0, 1, 2⟩]] :
        Scene Float).mesh? ⟨0⟩
      = some ⟨#[Point.origin, Point.origin, Point.origin], [[0, 1, 2]]⟩ ∧
    (⟨#[Point.origin, Point.origin, Point.origin], [[0, 1, 2]]⟩ : Mesh Float).WellIndexed) ∧
    ∃ e, ((Call.readFaces ⟨0⟩).perform
      (after ([.newMesh, .setGeometry ⟨0⟩ #[Point.origin, Point.origin, Point.origin] [⟨0, 1, 2⟩]]
        ++ .clearAll :: [.newMesh]) : Scene Float)).1 = .error e := by
  have hlive : (after [.newMesh,
      .setGeometry ⟨0⟩ #[Point.origin, Point.origin, Point.origin] [⟨0, 1, 2⟩]] :
        Scene Float).mesh? ⟨0⟩
      = some ⟨#[Point.origin, Point.origin, Point.origin], [[0, 1, 2]]⟩ := rfl
  refine ⟨⟨hlive, ((invariants_of_history _).1 _ _ hlive).1⟩, ?_⟩
  exact ((invariants_of_history _).2.2.2 ⟨0⟩ List.mem_cons_self).2 [.newMesh] (.readFaces ⟨0⟩) rfl

end Scene

end CollisionMesh
