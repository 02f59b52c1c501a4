import CollisionMesh.Editor.Scene
import CollisionMesh.Proofs.Passes

namespace CollisionMesh

/-!
# Requests to the scene

Handles are never issued twice, so a new mesh is empty and its requests meet no other
mesh. Whatever was asked of a scene before, simplifying a mesh in it answers what the
passes make of that mesh alone.

* `forEach_keeps`, `forEach_adds` — what every action keeps, actions in turn keep, and what
  each of them adds to a list they add in turn;
* `Scene.Reached` — the scenes that requests lead to; `Scene.Reached.sound` — their
  handles are all used;
* `Scene.forEach_apply_run` — passes on a live mesh are a run;
* `TriangleMesh.simplified` — what the passes make of a mesh;
* `Scene.simplify_eq` — what simplifying in a scene answers.
-/

/-- Actions in turn keep what each of them keeps. -/
theorem forEach_keeps {β σ : Type} {action : β → σ → Except Error Unit × σ} {P : σ → Prop}
    (h : ∀ b s, P s → P (action b s).2) (bs : List β) {s : σ} (hs : P s) :
    P (forEach action bs s).2 := by
  induction bs generalizing s with
  | nil => exact hs
  | cons b rest ih =>
    have hnext := h b s hs
    rw [forEach]
    split
    · next s' heq =>
      rw [heq] at hnext
      exact ih hnext
    · next e s' heq =>
      rw [heq] at hnext
      exact hnext

/-- Actions in turn that all succeed add to a list what each of them adds. -/
theorem forEach_adds {β γ σ : Type} {action : β → σ → Except Error Unit × σ} {P : σ → Prop}
    {view : σ → List γ} {added : β → List γ}
    (h : ∀ b s, P s → ∃ s', action b s = (.ok (), s') ∧ P s' ∧ view s' = view s ++ added b)
    (bs : List β) {s : σ} (hs : P s) :
    ∃ s', forEach action bs s = (.ok (), s') ∧ P s' ∧ view s' = view s ++ bs.flatMap added := by
  induction bs generalizing s with
  | nil => exact ⟨s, rfl, hs, by rw [List.flatMap_nil, List.append_nil]⟩
  | cons b rest ih =>
    obtain ⟨s₁, hb, hs₁, h₁⟩ := h b s hs
    obtain ⟨s₂, hrest, hs₂, h₂⟩ := ih hs₁
    refine ⟨s₂, ?_, hs₂, ?_⟩
    · rw [forEach, hb]
      exact hrest
    · rw [h₂, h₁, List.flatMap_cons, List.append_assoc]

/-- Simplifying keeps what every request keeps. -/
theorem simplify_keeps {α σ : Type} [MeshEditor α σ] {P : σ → Prop}
    (hnew : ∀ s, P s → P (MeshEditor.newMesh s).2)
    (hset : ∀ h vertices faces s, P s → P (MeshEditor.setGeometry h vertices faces s).2)
    (happly : ∀ pass h s, P s → P (MeshEditor.apply pass h s).2)
    (hread : ∀ h s, P s → P (MeshEditor.readFaces h s).2) (t : Tolerances α)
    (mesh : TriangleMesh α) {s : σ} (hs : P s) : P (simplify t mesh s).2 := by
  have hs₂ := hset (MeshEditor.newMesh s).1 mesh.vertices mesh.faces _ (hnew s hs)
  unfold simplify
  dsimp only
  split
  · next heq =>
    rw [heq] at hs₂
    exact hs₂
  · next s₂ heq =>
    rw [heq] at hs₂
    have hs₃ := forEach_keeps (fun pass _ h => happly pass (MeshEditor.newMesh s).1 _ h)
      t.passes hs₂
    split
    · next heq =>
      rw [heq] at hs₃
      exact hs₃
    · next heq =>
      rw [heq] at hs₃
      exact hread _ _ hs₃

namespace Scene

variable {α : Type}

/-- Every live mesh has a handle that was issued. -/
def Sound (s : Scene α) : Prop :=
  ∀ entry ∈ s.meshes, entry.1 < s.nextId

/-! ### Live meshes -/

/-- A new mesh is empty: its handle stood for nothing before. -/
theorem mesh?_newMesh {s : Scene α} (hs : s.Sound) :
    s.newMesh.2.mesh? s.newMesh.1 = some ⟨#[], []⟩ := by
  show (s.meshes ++ [(s.nextId, _)]).lookup s.nextId = _
  -- The next handle was never issued, so no mesh has it.
  have hold : s.meshes.lookup s.nextId = none := by
    rw [List.lookup_eq_none_iff]
    intro entry hentry
    exact bne_iff_ne.mpr (Nat.ne_of_gt (hs entry hentry))
  rw [List.lookup_append, hold]
  simp

/-- A live mesh that was replaced is the new one. -/
theorem mesh?_put {s : Scene α} {h : Handle} {m : Mesh α} (hm : s.mesh? h = some m) (m' : Mesh α) :
    (s.put h m').mesh? h = some m' := by
  obtain ⟨before, after, hsplit, hbefore⟩ := List.lookup_eq_some_iff.mp hm
  show (s.meshes.map fun entry => if entry.1 = h.id then (entry.1, m') else entry).lookup h.id = _
  rw [hsplit, List.map_append, List.map_cons, List.lookup_append, List.lookup_cons]
  -- Entries before the first one with the handle have other handles, also afterwards.
  have hnone : (before.map fun entry => if entry.1 = h.id then (entry.1, m') else entry).lookup h.id
      = none := by
    rw [List.lookup_eq_none_iff]
    intro entry hentry
    obtain ⟨old, hold, rfl⟩ := List.mem_map.mp hentry
    have hne : ¬ old.1 = h.id := fun heq => by simpa [heq] using hbefore old hold
    rw [if_neg hne]
    exact bne_iff_ne.mpr (Ne.symm hne)
  rw [hnone]
  simp

/-- Of two meshes that are put in the same place the second one stays. -/
theorem put_put (s : Scene α) (h : Handle) (m m' : Mesh α) : (s.put h m).put h m' = s.put h m' := by
  simp only [put, List.map_map]
  congr 1
  refine List.map_congr_left fun entry _ => ?_
  simp only [Function.comp_apply]
  split <;> simp_all

/-- A mesh that is put in the place of one leaves all others. -/
theorem mesh?_put_of_ne {s : Scene α} {h h' : Handle} (hne : h ≠ h') (m : Mesh α) :
    (s.put h' m).mesh? h = s.mesh? h := by
  have hid : h.id ≠ h'.id := fun heq => hne (congrArg Handle.mk heq)
  show (s.meshes.map fun entry => if entry.1 = h'.id then (entry.1, m) else entry).lookup h.id
    = s.meshes.lookup h.id
  induction s.meshes with
  | nil => rfl
  | cons entry rest ih =>
    rw [List.map_cons, List.lookup_cons, ih]
    obtain ⟨id, old⟩ := entry
    by_cases hold : id = h'.id
    · have hother : (h.id == id) = false := beq_eq_false_iff_ne.mpr (hold ▸ hid)
      rw [if_pos hold, List.lookup_cons, hother]
    · rw [if_neg hold, List.lookup_cons]

/-- Geometry that is set on a live mesh is the mesh from then on. -/
theorem setGeometry_live {s : Scene α} {h : Handle} {m : Mesh α} (hm : s.mesh? h = some m)
    {mesh : TriangleMesh α} (hmesh : mesh.toMesh.WellIndexed) :
    s.setGeometry h mesh.vertices mesh.faces = (.ok (), s.put h mesh.toMesh) := by
  have hfaces : (mesh.faces.find? fun face => face.toList.any (mesh.vertices.size ≤ ·)) = none := by
    rw [List.find?_eq_none]
    intro face hface
    rw [Bool.not_eq_true, List.any_eq_false]
    intro i hi
    have := hmesh face.toList (List.mem_map_of_mem hface) i hi
    exact fun hle => absurd (of_decide_eq_true hle) (Nat.not_le.mpr this)
  rw [setGeometry, hfaces]
  simp only [hm]

theorem Sound.put {s : Scene α} (hs : s.Sound) (h : Handle) (m : Mesh α) : (s.put h m).Sound := by
  intro entry hentry
  obtain ⟨old, hold, rfl⟩ := List.mem_map.mp hentry
  have := hs old hold
  split <;> exact this

theorem Sound.newMesh {s : Scene α} (hs : s.Sound) : s.newMesh.2.Sound := by
  intro entry hentry
  rcases List.mem_append.mp hentry with hentry | hentry
  · exact Nat.lt_succ_of_lt (hs entry hentry)
  · rw [List.mem_singleton.mp hentry]
    exact Nat.lt_succ_self _

/-! ### Scenes that requests lead to -/

variable [Scalar α] [Clipper α]

/-- The scenes that requests lead to. -/
inductive Reached : Scene α → Prop where
  | new : Reached Scene.new
  | newMesh {s : Scene α} : Reached s → Reached s.newMesh.2
  | setGeometry {s : Scene α} (h : Handle) (vertices : Array (Point α)) (faces : List (Triple Nat)) :
    Reached s → Reached (s.setGeometry h vertices faces).2
  | apply {s : Scene α} (pass : Pass α) (h : Handle) : Reached s → Reached (s.apply pass h).2
  | clearAll {s : Scene α} : Reached s → Reached s.clearAll

/-- **Handles.** In every scene that requests lead to, the live meshes have handles that
    were issued. -/
theorem Reached.sound {s : Scene α} (h : s.Reached) : s.Sound := by
  induction h with
  | new => exact fun entry hentry => absurd hentry List.not_mem_nil
  | newMesh _ ih => exact ih.newMesh
  | setGeometry h vertices faces _ ih =>
    unfold Scene.setGeometry
    split
    · exact ih
    · split
      · exact ih
      · exact ih.put h _
  | apply pass h _ ih =>
    unfold Scene.apply
    split
    · exact ih
    · split
      · exact ih
      · exact ih.put h _
  | clearAll _ _ => exact fun entry hentry => absurd hentry List.not_mem_nil

/-- Reading faces changes nothing. -/
theorem Reached.readFaces {s : Scene α} (hs : s.Reached) (h : Handle) : (s.readFaces h).2.Reached := by
  unfold Scene.readFaces
  split <;> exact hs

/-- Simplifying leads to a scene that requests lead to. -/
theorem Reached.simplify {s : Scene α} (hs : s.Reached) (t : Tolerances α)
    (mesh : TriangleMesh α) : (CollisionMesh.simplify t mesh s).2.Reached := by
  exact simplify_keeps (fun _ h => h.newMesh) (fun h vertices faces _ hs =>
    hs.setGeometry h vertices faces) (fun pass h _ hs => hs.apply pass h)
    (fun h _ hs => hs.readFaces h) t mesh hs

/-! ### Passes on a live mesh -/

/-- A pass on a live mesh does to it what it does to the mesh alone. -/
theorem apply_live {s : Scene α} {h : Handle} {m : Mesh α} (hm : s.mesh? h = some m)
    (pass : Pass α) :
    s.apply pass h = match m.apply pass with
      | .error fault => (.error (.edit pass.operation fault), s)
      | .ok m' => (.ok (), s.put h m') := by
  unfold apply
  split
  · next hnone => exact absurd (hm.symm.trans hnone) (by simp)
  · next live hlive =>
    obtain rfl : m = live := Option.some.inj (hm.symm.trans hlive)
    rfl

/-- **Passes are a run.** On a live mesh the passes fail as the run of the mesh alone does, and else
    what they leave is what the run made of it. -/
theorem forEach_apply_run {h : Handle} {s : Scene α} {m : Mesh α} (hm : s.mesh? h = some m)
    (passes : List (Pass α)) :
    ∃ s', forEach (fun pass => MeshEditor.apply pass h) passes s
        = ((m.run passes).map fun _ => (), s') ∧
      ∀ m', m.run passes = .ok m' → s'.mesh? h = some m' := by
  induction passes generalizing s m with
  | nil =>
    refine ⟨s, rfl, fun m' hrun => ?_⟩
    obtain rfl : m = m' := Except.ok.inj hrun
    exact hm
  | cons pass rest ih =>
    rw [Mesh.run, forEach, show MeshEditor.apply pass h s = _ from apply_live hm pass]
    cases m.apply pass with
    | error fault => exact ⟨s, rfl, fun m' hrun => absurd hrun (by simp)⟩
    | ok m₁ => exact ih (mesh?_put hm m₁)

/-! ### Simplifying -/

/-- **Simplifying in a scene.** Whatever the scene has been asked before, the answer is what
    the passes make of the mesh alone. -/
theorem simplify_eq {s : Scene α} (hs : s.Sound) (t : Tolerances α) {mesh : TriangleMesh α}
    (hmesh : mesh.toMesh.WellIndexed) : (simplify t mesh s).1 = mesh.simplified t := by
  -- After the first two requests the mesh is live, and what follows is its run.
  have hlive := mesh?_put (mesh?_newMesh hs) mesh.toMesh
  have hset : MeshEditor.setGeometry (MeshEditor.newMesh s).1 mesh.vertices mesh.faces
      (MeshEditor.newMesh s).2 = (.ok (), s.newMesh.2.put s.newMesh.1 mesh.toMesh) :=
    setGeometry_live (mesh?_newMesh hs) hmesh
  obtain ⟨s', hpasses, hleft⟩ := forEach_apply_run hlive t.passes
  simp only [simplify, TriangleMesh.simplified, hset]
  rw [show forEach (fun pass => MeshEditor.apply pass (MeshEditor.newMesh s).1) t.passes _ = _
    from hpasses]
  cases hrun : mesh.toMesh.run t.passes with
  | error e => rfl
  | ok m =>
    show (s'.readFaces s.newMesh.1).1 = _
    rw [readFaces, hleft m hrun]
    rfl

end Scene

end CollisionMesh
