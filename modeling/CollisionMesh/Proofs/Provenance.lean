import CollisionMesh.Proofs.Refusal
import CollisionMesh.Proofs.WrittenRecord

namespace CollisionMesh

open Number Record Text

/-!
# Where the geometry comes from

Simplifying makes no new places. At every point of it all vertices of the mesh lie at
corners of the records that it was loaded from, and so do the faces that are read back.
In a document, what is written for a group are corners of triangle lines of its run and
its key.

* `Scene.exists_loaded` — a scene after loading some records;
* `Scene.grounded_of_forEach` — a live mesh after some passes;
* `TriangleMesh.mem_of_simplified` — the faces that are read back;
* `Record.StemsFrom` — a record out of the corners of triangle lines with a key;
* `Group.stemsFrom_of_simplified` — what is written for a group stems from its lines;
* `geometry_from_input` — all of it.
-/

section

variable [Clipper Float]

/-! ### Live meshes -/

omit [Clipper Float] in
/-- Records can be loaded into a new mesh of any scene, and it is their mesh. -/
theorem Scene.exists_loaded {scene : Scene Float} (h : scene.Sound) (rs : List Record) :
    ∃ loaded, scene.newMesh.2.setGeometry scene.newMesh.1 (meshOfRecords rs).vertices
        (meshOfRecords rs).faces = (.ok (), loaded) ∧
      loaded.mesh? scene.newMesh.1 = some (meshOfRecords rs).toMesh :=
  ⟨_, Scene.setGeometry_live (Scene.mesh?_newMesh h) (wellIndexed_meshOfRecords rs),
    Scene.mesh?_put (Scene.mesh?_newMesh h) _⟩

/-- A live mesh that is grounded is so after all passes that succeed. -/
theorem Scene.grounded_of_forEach {scene edited : Scene Float} {h : Handle} {m : Mesh Float}
    (hm : scene.mesh? h = some m) {points : List (Point Float)} (hg : m.Grounded points)
    {passes : List (Pass Float)}
    (hok : forEach (fun pass => Scene.apply pass h) passes scene = (.ok (), edited)) :
    ∃ m', edited.mesh? h = some m' ∧ m'.Grounded points := by
  -- The passes on the live mesh are a run of it, so they succeed together.
  obtain ⟨left, hleft, hm'⟩ := Scene.forEach_apply_run hm passes
  have heq : ((m.run passes).map fun _ => (), left) = (Except.ok (), edited) := hleft.symm.trans hok
  obtain rfl : left = edited := congrArg Prod.snd heq
  cases hrun : m.run passes with
  | error e =>
    rw [hrun] at heq
    exact absurd (congrArg Prod.fst heq) (by simp [Except.map])
  | ok m' => exact ⟨m', hm' m' hrun, hg.run hrun⟩

/-- The faces that are read back from a grounded mesh lie at its points. -/
theorem TriangleMesh.mem_of_simplified {mesh : TriangleMesh Float} {points : List (Point Float)}
    (hg : mesh.toMesh.Grounded points) {t : Tolerances Float} {faces : List (EditorFace Float)}
    (h : mesh.simplified t = .ok faces) {face : EditorFace Float} (hface : face ∈ faces)
    {p : Point Float} (hp : p ∈ face.positions) : p ∈ points := by
  unfold simplified at h
  cases hrun : mesh.toMesh.run t.passes with
  | error e =>
    rw [hrun] at h
    exact absurd h (by simp [Except.map])
  | ok m =>
    rw [hrun] at h
    obtain rfl : m.readBack = faces := Except.ok.inj h
    obtain ⟨corners, hcorners, rfl⟩ := List.mem_map.mp hface
    exact (hg.run hrun).mem_of_mem_shape (List.mem_map_of_mem hcorners) hp

/-! ### Groups of a document -/

/-- A record that stems from a stretch of triangle lines and a key: it carries the key if
    the stretch carries keys, and each of its corners is written as a corner of a line of
    that stretch with that key. -/
structure Record.StemsFrom (stretch : List String) (k : Key) (r : Record) : Prop where
  key : r.key = if stretch.head?.any carriesKey then some k else none
  corners : ∀ p ∈ r.corners.toList, ∃ line ∈ stretch, ∃ m,
    Member.ofLine? (stretch.head?.any carriesKey) line = some m ∧ m.record.groupKey = k ∧
      ∃ q ∈ m.record.corners.toList, vertexWord p = vertexWord q

omit [Clipper Float] in
/-- A group of a run has the triangle lines of the run with its key. -/
theorem Run.mem_groups_ofStretch {stretch : List String} {g : Group}
    (h : g ∈ (Run.ofStretch stretch).groups) :
    g.keyed = stretch.head?.any carriesKey ∧ ∀ r ∈ g.records, ∃ line ∈ stretch, ∃ m,
      Member.ofLine? (stretch.head?.any carriesKey) line = some m ∧ m.record.groupKey = g.key ∧
        m.record = r := by
  obtain ⟨hkeyed, hmembers⟩ := Run.mem_members_ofStretch h
  refine ⟨hkeyed, ?_⟩
  intro r hr
  obtain ⟨m, hm, rfl⟩ := Group.mem_records_iff.mp hr
  obtain ⟨hsource, hof, hkey⟩ := hmembers m hm
  exact ⟨m.source, hsource, m, hof, hkey, rfl⟩

/-- **Groups.** What is written for a group that succeeds stems from the lines of its run
    with its key. -/
theorem Group.stemsFrom_of_simplified {stretch : List String} {g : Group}
    (hg : g ∈ (Run.ofStretch stretch).groups) {t : Tolerances Float} {rs : List Record}
    (h : g.simplified t = .ok rs) {r : Record} (hr : r ∈ rs) : r.StemsFrom stretch g.key := by
  obtain ⟨hkeyed, hrecords⟩ := Run.mem_groups_ofStretch hg
  obtain ⟨faces, hfaces⟩ := Group.exists_faces_of_simplified h
  obtain ⟨triangles, htriangles, hok⟩ := Group.simplified_of_ok hfaces
  obtain rfl := Except.ok.inj (hok.symm.trans h)
  obtain ⟨triangle, htriangle, rfl⟩ := List.mem_map.mp hr
  refine ⟨by rw [← hkeyed, Group.written], ?_⟩
  intro p hp
  obtain ⟨p₀, hp₀, rfl⟩ : ∃ p₀ ∈ triangle.toList, p₀.rounded = p := List.mem_map.mp hp
  -- Before it was rounded the corner was read back, so it lies at a corner of the records.
  have hpositions : triangle.toList ∈ faces.map EditorFace.positions := by
    rw [← htriangles]
    exact List.mem_map_of_mem htriangle
  obtain ⟨face, hface, heq⟩ := List.mem_map.mp hpositions
  have hpoints : p₀ ∈ Record.points g.records :=
    TriangleMesh.mem_of_simplified (grounded_meshOfRecords g.records) hfaces hface (heq ▸ hp₀)
  obtain ⟨source, hsource, hcorner⟩ := List.mem_flatMap.mp hpoints
  obtain ⟨line, hline, m, hof, hkey, rfl⟩ := hrecords source hsource
  exact ⟨line, hline, m, hof, hkey, p₀, hcorner, vertexWord_rounded p₀⟩

/-! ### The result -/

/-- **Provenance.** In any scene that documents leave, records are loaded as a new mesh, and
    after all passes that succeed its vertices lie at their corners; so do the faces that
    are read back. In a document that is rewritten, the lines of a group that succeeds are
    records that stem from the lines of its run with its key. -/
theorem geometry_from_input {scene : Scene Float} (h : scene.Reached) :
    (∀ (t : Tolerances Float) (rs : List Record),
      (∃ loaded, scene.newMesh.2.setGeometry scene.newMesh.1 (meshOfRecords rs).vertices
          (meshOfRecords rs).faces = (.ok (), loaded) ∧
        ∀ passes, passes <+: t.passes → ∀ edited,
          forEach (fun pass => Scene.apply pass scene.newMesh.1) passes loaded = (.ok (), edited) →
          ∃ m, edited.mesh? scene.newMesh.1 = some m ∧ ∀ p ∈ m.vertices, p ∈ Record.points rs) ∧
      ∀ faces, (simplify t (meshOfRecords rs) scene).1 = .ok faces →
        ∀ face ∈ faces, ∀ p ∈ face.positions, p ∈ Record.points rs) ∧
    ∀ (s : Settings) (text : String) (written : List String) (report : Report),
      (process s text scene).result = .ok (written, report) →
      written = rewritten s ((lines text).map trim) ∧
        ∀ stretch, ∀ g ∈ (Run.ofStretch stretch).groups, ∀ rs,
          g.simplified s.tolerances = .ok rs →
          g.block s = rs.map Record.line ∧ ∀ r ∈ rs, r.StemsFrom stretch g.key := by
  refine ⟨fun t rs => ⟨?_, ?_⟩, ?_⟩
  · obtain ⟨loaded, hset, hm⟩ := Scene.exists_loaded h.sound rs
    refine ⟨loaded, hset, ?_⟩
    intro passes _ edited hok
    obtain ⟨m, hm, hg⟩ := Scene.grounded_of_forEach hm (grounded_meshOfRecords rs) hok
    exact ⟨m, hm, hg.vertices⟩
  · intro faces hfaces face hface p hp
    rw [Scene.simplify_eq h.sound t (wellIndexed_meshOfRecords rs)] at hfaces
    exact TriangleMesh.mem_of_simplified (grounded_meshOfRecords rs) hfaces hface hp
  · intro s text written report hok
    refine ⟨process_lines h hok, ?_⟩
    intro stretch g hg rs hrs
    exact ⟨by rw [Group.block, hrs], fun r hr => Group.stemsFrom_of_simplified hg hrs hr⟩

end

/-- The plot among the lines of another key, where no angle is straight. -/
theorem geometry_from_input_plot :
    ∃ written report, ∃ g ∈ (Run.ofStretch plotLines).groups, ∃ rs,
      (process Settings.unstraightened (render plotLines) (Scene.new : Scene Float)).result
        = .ok (written, report) ∧
      g.records = Record.plot ∧ g.simplified Settings.unstraightened.tolerances = .ok rs ∧
      g.block Settings.unstraightened = rs.map Record.line ∧
      ∀ r ∈ rs, r.StemsFrom plotLines g.key := by
  obtain ⟨written, report, hok⟩ := exists_written_plot
  -- The first group of the run has the lines of the plot.
  obtain ⟨g, rest, hgroups⟩ : ∃ g rest, (Run.ofStretch plotLines).groups = g :: rest :=
    List.exists_cons_of_ne_nil (by decide +kernel)
  have hrecords : (Run.ofStretch plotLines).groups.head?.map Group.records = some Record.plot := by
    decide +kernel
  rw [hgroups] at hrecords
  have hplot : g.records = Record.plot := Option.some.inj hrecords
  have hg : g ∈ (Run.ofStretch plotLines).groups := hgroups ▸ List.mem_cons_self
  obtain ⟨faces, hfaces⟩ := exists_simplified_plot
  rw [← hplot] at hfaces
  obtain ⟨triangles, -, hrs⟩ := Group.simplified_of_ok hfaces
  obtain ⟨hblock, hstems⟩ := ((geometry_from_input .new).2 _ _ _ _ hok).2 plotLines g hg _ hrs
  exact ⟨written, report, g, hg, _, hok, hplot, hrs, hblock, hstems⟩

end CollisionMesh
