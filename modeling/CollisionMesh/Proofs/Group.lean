import CollisionMesh.Processing
import CollisionMesh.Proofs.Loose
import CollisionMesh.Proofs.Scene
import CollisionMesh.Proofs.Shrinking

namespace CollisionMesh

/-!
# Groups in a scene

What a group becomes does not depend on the scene: in any of them it is what the passes
make of its triangles alone. Where they succeed, these are records with the key of the
group, no more than it had; where they fail, the failure concerns just that group.

* `recordsOfFacesFrom_eq` — triangles as records; `recordsOfFacesFrom_cases` — faces of any kind;
* `Group.simplified` — what a group becomes in a new scene; `simplifyGroup_eq` — and in
  any other;
* `Group.simplified_of_ok`, `Group.simplified_error` — both ways that it can end;
* `Group.block` — the lines that are written for a group.
-/

/-! ### Faces as records -/

/-- A face as a record where both its lists have three elements. -/
theorem exists_recordOfFace {face : EditorFace Float} (hi : face.indices.length = 3)
    (hp : face.positions.length = 3) (key : Option Key) :
    ∃ corners : Triple (Point Float), corners.toList = face.positions ∧
      recordOfFace key face = some ⟨corners.map Point.rounded, key⟩ := by
  obtain ⟨indices, positions⟩ := face
  obtain ⟨i, j, k, rfl⟩ := List.length_eq_three.mp hi
  obtain ⟨a, b, c, rfl⟩ := List.length_eq_three.mp hp
  exact ⟨⟨a, b, c⟩, rfl, rfl⟩

/-- **Triangles as records.** Faces that are triangles become a record each, with the key,
    the corners rounded. -/
theorem recordsOfFacesFrom_eq {faces : List (EditorFace Float)}
    (h : ∀ face ∈ faces, face.indices.length = 3 ∧ face.positions.length = 3)
    (key : Option Key) (number : Nat) :
    ∃ triangles : List (Triple (Point Float)),
      triangles.map Triple.toList = faces.map EditorFace.positions ∧
      recordsOfFacesFrom key number faces
        = .ok (triangles.map fun t => ⟨t.map Point.rounded, key⟩) := by
  induction faces generalizing number with
  | nil => exact ⟨[], rfl, rfl⟩
  | cons face rest ih =>
    obtain ⟨hi, hp⟩ := h face List.mem_cons_self
    obtain ⟨t, ht, hface⟩ := exists_recordOfFace hi hp key
    obtain ⟨triangles, htriangles, hrest⟩ :=
      ih (fun face' hface' => h face' (List.mem_cons_of_mem face hface')) (number + 1)
    refine ⟨t :: triangles, ?_, ?_⟩
    · rw [List.map_cons, List.map_cons, ht, htriangles]
    · rw [recordsOfFacesFrom, hface, hrest]
      rfl

/-- A face with three vertices and a place for each. -/
def EditorFace.IsTriangle (face : EditorFace Float) : Prop :=
  face.indices.length = 3 ∧ face.positions.length = 3

/-- A face that is no triangle is no record. -/
theorem recordOfFace_eq_none {face : EditorFace Float} (h : ¬ face.IsTriangle) (key : Option Key) :
    recordOfFace key face = none := by
  unfold recordOfFace
  split
  · next hi hp => exact absurd ⟨congrArg List.length hi, congrArg List.length hp⟩ h
  · rfl

/-- **Faces.** Either all faces are triangles and become records, or the first that is none is an
    error with its number and its number of vertices. -/
theorem recordsOfFacesFrom_cases (faces : List (EditorFace Float)) (key : Option Key)
    (number : Nat) :
    (∀ face ∈ faces, face.IsTriangle) ∧ (∃ rs, recordsOfFacesFrom key number faces = .ok rs) ∨
      ∃ n face, faces[n]? = some face ∧ ¬ face.IsTriangle ∧
        (∀ earlier ∈ faces.take n, earlier.IsTriangle) ∧
        recordsOfFacesFrom key number faces
          = .error (.notTriangle (number + n) face.indices.length) := by
  induction faces generalizing number with
  | nil => exact .inl ⟨by simp, [], rfl⟩
  | cons face rest ih =>
    by_cases hface : face.IsTriangle
    · obtain ⟨t, -, hrecord⟩ := exists_recordOfFace hface.1 hface.2 key
      rw [recordsOfFacesFrom, hrecord]
      rcases ih (number + 1) with ⟨hall, rs, hrs⟩ | ⟨n, last, hget, hlast, hbefore, herror⟩
      · exact .inl ⟨List.forall_mem_cons.mpr ⟨hface, hall⟩, _, by rw [hrs]; rfl⟩
      · refine .inr ⟨n + 1, last, hget, hlast, List.forall_mem_cons.mpr ⟨hface, hbefore⟩, ?_⟩
        rw [herror, Nat.add_right_comm]
        rfl
    · refine .inr ⟨0, face, rfl, hface, by simp, ?_⟩
      rw [recordsOfFacesFrom, recordOfFace_eq_none hface]
      rfl

/-! ### Loose triangles of records -/

theorem wellIndexed_meshOfRecords (rs : List Record) : (meshOfRecords rs).toMesh.WellIndexed :=
  TriangleMesh.wellIndexed_ofTriangles _

@[simp] theorem length_faces_meshOfRecords (rs : List Record) :
    (meshOfRecords rs).faces.length = rs.length := by
  rw [meshOfRecords, TriangleMesh.length_faces_ofTriangles, List.length_map]

/-- The corners of some records. -/
def Record.points (rs : List Record) : List (Point Float) :=
  rs.flatMap fun r => r.corners.toList

/-- The mesh of some records is grounded on their corners. -/
theorem grounded_meshOfRecords (rs : List Record) :
    (meshOfRecords rs).toMesh.Grounded (Record.points rs) := by
  refine ⟨wellIndexed_meshOfRecords rs, ?_⟩
  intro p hp
  obtain ⟨t, ht, hp⟩ := TriangleMesh.mem_vertices_ofTriangles.mp hp
  obtain ⟨r, hr, rfl⟩ := List.mem_map.mp ht
  exact List.mem_flatMap.mpr ⟨r, hr, hp⟩

variable [Clipper Float]

/-! ### What a group becomes -/

namespace Group

/-- What a group becomes in a new scene. -/
def simplified (t : Tolerances Float) (g : Group) : Except Error (List Record) :=
  (simplify t (meshOfRecords g.records) (Scene.new (α := Float))).1.bind fun faces =>
    recordsOfFaces faces g.key g.keyed

/-- What a group becomes is what the passes make of its triangles, as records. -/
theorem simplified_eq (t : Tolerances Float) (g : Group) :
    g.simplified t = ((meshOfRecords g.records).simplified t).bind fun faces =>
      recordsOfFaces faces g.key g.keyed := by
  rw [simplified, Scene.simplify_eq Scene.Reached.new.sound t (wellIndexed_meshOfRecords _)]

/-- The key that the records of a group carry. -/
def written (g : Group) : Option Key :=
  if g.keyed then some g.key else none

/-- **A group that succeeds.** Its faces are triangles, between one and as many as it had,
    and become records with its key. -/
theorem simplified_of_ok {t : Tolerances Float} {g : Group} {faces : List (EditorFace Float)}
    (h : (meshOfRecords g.records).simplified t = .ok faces) :
    ∃ triangles : List (Triple (Point Float)),
      triangles.map Triple.toList = faces.map EditorFace.positions ∧
      g.simplified t = .ok (triangles.map fun t => ⟨t.map Point.rounded, g.written⟩) := by
  obtain ⟨hthree, -, -⟩ := TriangleMesh.simplified_shrinks h
  obtain ⟨triangles, htriangles, hrecords⟩ := recordsOfFacesFrom_eq hthree g.written 0
  refine ⟨triangles, htriangles, ?_⟩
  rw [simplified_eq, h]
  exact hrecords

/-- A group becomes records only where the passes succeed. -/
theorem exists_faces_of_simplified {t : Tolerances Float} {g : Group} {rs : List Record}
    (h : g.simplified t = .ok rs) :
    ∃ faces, (meshOfRecords g.records).simplified t = .ok faces := by
  rw [simplified_eq] at h
  cases hfaces : (meshOfRecords g.records).simplified t with
  | error e =>
    rw [hfaces] at h
    exact absurd h (by simp [Except.bind])
  | ok faces => exact ⟨faces, rfl⟩

/-- **A group that fails.** The failure is a pass that found no faces. -/
theorem simplified_error {t : Tolerances Float} {g : Group} {e : Error}
    (h : g.simplified t = .error e) : ∃ operation, e = .edit operation .noFaces := by
  cases hfaces : (meshOfRecords g.records).simplified t with
  | error e' =>
    rw [simplified_eq, hfaces] at h
    -- Either a pass failed, or its faces could not be read as records; the second cannot be.
    obtain rfl : e' = e := Except.error.inj h
    unfold TriangleMesh.simplified at hfaces
    cases hrun : (meshOfRecords g.records).toMesh.run t.passes with
    | error e'' =>
      rw [hrun] at hfaces
      obtain rfl : e'' = e' := Except.error.inj hfaces
      exact Mesh.exists_operation_of_run_eq_error hrun
    | ok m =>
      rw [hrun] at hfaces
      exact absurd hfaces (by simp [Except.map])
  | ok faces =>
    obtain ⟨triangles, -, hok⟩ := simplified_of_ok hfaces
    rw [hok] at h
    exact absurd h (by simp)

/-- A group becomes at least one record and at most as many as it had. -/
theorem length_simplified {t : Tolerances Float} {g : Group} {rs : List Record}
    (h : g.simplified t = .ok rs) : 1 ≤ rs.length ∧ rs.length ≤ g.size := by
  obtain ⟨faces, hfaces⟩ := exists_faces_of_simplified h
  obtain ⟨-, hone, hle⟩ := TriangleMesh.simplified_shrinks hfaces
  obtain ⟨triangles, htriangles, hok⟩ := simplified_of_ok hfaces
  have hlen := congrArg List.length htriangles
  rw [List.length_map, List.length_map] at hlen
  rw [length_faces_meshOfRecords, Group.length_records] at hle
  rw [hok] at h
  obtain rfl := Except.ok.inj h
  rw [List.length_map, hlen]
  exact ⟨hone, hle⟩

/-- The lines that are written for a group: its records, or what the failure policy makes
    of its lines. -/
def block (s : Settings) (g : Group) : List String :=
  match g.simplified s.tolerances with
  | .ok rs => rs.map Record.line
  | .error _ =>
    match s.failurePolicy with
    | .passThrough => g.sources
    | .drop => []

end Group

/-! ### Groups in a scene -/

/-- **Any scene.** What a group becomes does not depend on the scene. -/
theorem simplifyGroup_eq {editor : Scene Float} (h : editor.Reached) (t : Tolerances Float)
    (g : Group) : (simplifyGroup t g editor).1 = g.simplified t := by
  show ((simplify t (meshOfRecords g.records) editor).1).bind _ = _
  rw [Scene.simplify_eq h.sound t (wellIndexed_meshOfRecords _), Group.simplified_eq]

end CollisionMesh
