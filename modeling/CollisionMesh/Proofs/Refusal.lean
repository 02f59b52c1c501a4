import CollisionMesh.Proofs.HalfTurn
import CollisionMesh.Proofs.Proximity
import CollisionMesh.Proofs.Rewriting

namespace CollisionMesh

open Number Scalar

/-!
# When simplifying is refused

The first weld leaves vertices apart and loops whose neighbours lie in different places.
Splitting edges only copies vertices, and merging and straightening keep such loops as
long as no half turn passes for straight. So the second weld finds nothing to do but to
join the copies, and only a first weld that leaves no face makes the passes fail.

* `Mesh.Tidy` — vertices apart and proper loops; `Mesh.tidy_weld`, `Mesh.Tidy.splitEdges`,
  `Mesh.Tidy.dissolve` — the passes keep it;
* `Mesh.Tidy.weld_joins_copies` — welding such a mesh joins vertices in one place only;
* `Mesh.run_passes_of_eq_nil`, `Mesh.run_passes_of_ne_nil` — how the passes end;
* `simplify_succeeds_iff` — when simplifying records succeeds, and why it fails.
-/

namespace Mesh

variable {α : Type} [Scalar α] {m : Mesh α} {d angle : α}

/-! ### Tidy meshes -/

/-- Corners are vertices of the list, vertices are near themselves and none in another
    place, and neighbours in a loop lie in different places. -/
structure Tidy (d : α) (m : Mesh α) : Prop where
  wellIndexed : m.WellIndexed
  close : m.Close d
  apart : m.Apart d
  proper : m.Proper

theorem tidy_weld (hm : m.WellIndexed) (hd : m.Close d) : (m.weld d).Tidy d where
  wellIndexed := wellIndexed_weld m d
  close := fun p hp => hd p (vertices_weld_subset hm d hp)
  apart := apart_weld hm d
  proper := proper_weld hm hd

/-- A mesh with the vertices of a tidy one is tidy if its loops are proper. -/
theorem Tidy.of_subset (h : m.Tidy d) {m' : Mesh α} (hm : m'.WellIndexed)
    (hv : ∀ p ∈ m'.vertices, p ∈ m.vertices) (hp : m'.Proper) : m'.Tidy d where
  wellIndexed := hm
  close := fun p hmem => h.close p (hv p hmem)
  apart := fun p hmem q hmem' => h.apart p (hv p hmem) q (hv q hmem')
  proper := hp

theorem Tidy.splitEdges (h : m.Tidy d) (angle : α) : (m.splitEdges angle).Tidy d := by
  refine h.of_subset (wellIndexed_splitEdges h.wellIndexed angle)
    (fun p hp => vertices_splitEdges_subset hp) ?_
  rw [Proper, shape_splitEdges h.wellIndexed angle]
  exact h.proper

/-- Proper loops by the vertices of their corners. -/
theorem proper_iff (m : Mesh α) :
    m.Proper ↔ ∀ face ∈ m.faces, 3 ≤ face.length ∧
      ∀ e ∈ loopEdges face, m.position e.1 ≠ m.position e.2 := by
  unfold Proper shape
  rw [List.forall_mem_map]
  refine forall₂_congr fun face _ => ?_
  rw [positions, List.length_map, cyclicPairs_map, List.forall_mem_map]
  rfl

/-- A corner that is straight has neighbours in different places. -/
theorem position_ne_of_isStraight (hback : NeverBack angle) {a v b : Nat}
    (h : m.isStraight angle a v b = true) : m.position a ≠ m.position b := by
  intro hplace
  unfold isStraight at h
  -- If both neighbours lay in one place, the way out and the way back would pass for straight.
  rw [← hplace] at h
  split at h
  · next there back hthere hreturn =>
    exact hback _ _ there back hthere hreturn (of_decide_eq_true h)
  · exact absurd h (by simp)

/-- Merged and straightened loops are proper if the loops were. -/
theorem proper_dissolved (hback : NeverBack angle) (h : m.Proper) : (m.dissolved angle).Proper := by
  rw [proper_iff] at h ⊢
  obtain ⟨parts, -, -, hfaces⟩ := m.exists_parts_mergeRegions angle
  -- Outlines run along old edges, so their neighbours lie apart as before.
  have hmerged : ∀ face ∈ (m.mergeRegions angle).faces, 3 ≤ face.length ∧
      ∀ e ∈ loopEdges face, m.position e.1 ≠ m.position e.2 := by
    rw [hfaces]
    intro face hface
    refine ⟨three_le_length_of_mem_merge (fun old hold => (h old hold).1) hface, ?_⟩
    intro e he
    obtain ⟨old, hold, he⟩ := edges_of_mem_merge hface e he
    exact (h old hold).2 e he
  rw [faces_dissolved]
  intro face hface
  refine ⟨three_le_length_straighten (fun old hold => (hmerged old hold).1) face hface, ?_⟩
  refine edges_straighten (r := fun i j => m.position i ≠ m.position j) ?_
    (fun old hold => (hmerged old hold).2) face hface
  -- A new edge joins the neighbours of a straight corner.
  intro a v b hstraight
  have hne : m.position a ≠ m.position b := position_ne_of_isStraight hback hstraight
  exact ⟨hne, hne.symm⟩

theorem Tidy.dissolve (hback : NeverBack angle) (h : m.Tidy d) : (m.dissolve angle).Tidy d := by
  refine h.of_subset (wellIndexed_compact _) (fun p hp =>
    vertices_compact_subset (wellIndexed_dissolved h.wellIndexed angle) hp) ?_
  have hproper := proper_dissolved hback h.proper
  unfold Proper at hproper ⊢
  rw [show (m.dissolve angle).shape = (m.dissolved angle).shape from shape_compact _]
  exact hproper

/-- **Joining copies.** Welding a tidy mesh joins vertices iff they lie in one place, and
    neither takes a face away nor a corner from a face. -/
theorem Tidy.weld_joins_copies (h : m.Tidy d) :
    (m.weld d).shape = m.shape ∧ ∀ i j, i < m.vertices.size → j < m.vertices.size →
      ((m.clusters d).least i = (m.clusters d).least j ↔ m.position i = m.position j) :=
  ⟨shape_weld_of_apart h.wellIndexed h.apart h.close h.proper,
    fun _ _ hi hj => least_eq_iff_position_eq h.apart h.close hi hj⟩

/-! ### How the passes end -/

/-- Meshes that look alike both have faces or both have none. -/
theorem faces_ne_nil_of_shape_eq {m' : Mesh α} (h : m'.shape = m.shape) (hm : m.faces ≠ []) :
    m'.faces ≠ [] := by
  rw [← List.length_pos_iff] at hm ⊢
  have := congrArg List.length h
  simp only [shape, List.length_map] at this
  omega

variable [Clipper α] (t : Tolerances α)

/-- **Refusal.** Where the first weld leaves no face, splitting edges is refused. -/
theorem run_passes_of_eq_nil (hm : m.faces ≠ []) (hweld : (m.weld t.weldDistance).faces = []) :
    m.run t.passes = .error (.edit .edgeSplit .noFaces) := by
  rw [Tolerances.passes, run_cons_of_ne_nil hm]
  exact run_cons_of_eq_nil hweld _ _

/-- **Success.** Where the first weld leaves a face, every pass leaves one. -/
theorem run_passes_of_ne_nil (hm : m.WellIndexed) (hd : m.Close t.weldDistance)
    (hback : NeverBack t.dissolveAngle) (hne : m.faces ≠ [])
    (hweld : (m.weld t.weldDistance).faces ≠ []) : ∃ m', m.run t.passes = .ok m' := by
  -- Pass by pass the mesh is tidy and has a face.
  have hsplit := (tidy_weld hm hd).splitEdges t.splitAngle
  have hsplit_ne : ((m.weld t.weldDistance).splitEdges t.splitAngle).faces ≠ [] :=
    faces_ne_nil_of_shape_eq (shape_splitEdges (wellIndexed_weld m _) _) hweld
  have hdissolve := hsplit.dissolve hback
  have hdissolve_ne := faces_dissolve_ne_nil hsplit_ne t.dissolveAngle
  have hagain_ne := faces_ne_nil_of_shape_eq hdissolve.weld_joins_copies.1 hdissolve_ne
  simp only [Tolerances.passes, run_cons_eq_ok_iff]
  exact ⟨_, hne, hweld, hsplit_ne, hdissolve_ne, hagain_ne, rfl⟩

/-- The mesh before the second weld is tidy. -/
theorem tidy_of_run_take (hm : m.WellIndexed) (hd : m.Close t.weldDistance)
    (hback : NeverBack t.dissolveAngle) {m₃ : Mesh α} (hrun : m.run (t.passes.take 3) = .ok m₃) :
    m₃.Tidy t.weldDistance := by
  simp only [Tolerances.passes, List.take_succ_cons, List.take_zero, run_cons_eq_ok_iff] at hrun
  obtain ⟨-, -, -, hrun⟩ := hrun
  rw [← Except.ok.inj hrun]
  exact ((tidy_weld hm hd).splitEdges t.splitAngle).dissolve hback

end Mesh

namespace TriangleMesh

variable {α : Type} [Scalar α] [Clipper α] {t : Tolerances α} {triangles : List (Triple (Point α))}

/-- What the passes make of loose triangles that are not refused. -/
theorem simplified_eq_ok_or_error (hne : triangles ≠ [])
    (hd : (ofTriangles triangles).toMesh.Close t.weldDistance) (hback : NeverBack t.dissolveAngle) :
    (((ofTriangles triangles).toMesh.weld t.weldDistance).faces ≠ [] ∧
        ∃ faces, (ofTriangles triangles).simplified t = .ok faces) ∨
      (((ofTriangles triangles).toMesh.weld t.weldDistance).faces = [] ∧
        (ofTriangles triangles).simplified t = .error (.edit .edgeSplit .noFaces)) := by
  have hfaces : (ofTriangles triangles).toMesh.faces ≠ [] := by
    rw [← List.length_pos_iff] at hne ⊢
    show 0 < ((ofTriangles triangles).faces.map Triple.toList).length
    rwa [List.length_map, length_faces_ofTriangles]
  by_cases hweld : ((ofTriangles triangles).toMesh.weld t.weldDistance).faces = []
  · right
    refine ⟨hweld, ?_⟩
    rw [simplified, Mesh.run_passes_of_eq_nil t hfaces hweld]
    rfl
  · left
    obtain ⟨m, hm⟩ :=
      Mesh.run_passes_of_ne_nil t (wellIndexed_ofTriangles triangles) hd hback hfaces hweld
    refine ⟨hweld, m.readBack, ?_⟩
    rw [simplified, hm]
    rfl

/-- **Loose triangles.** The passes succeed on them iff one is scattered, and else it is
    splitting edges that is refused. -/
theorem simplified_ofTriangles (hne : triangles ≠ [])
    (hcomm : ∀ p q : Point α, p.distanceSq q = q.distanceSq p)
    (hd : (ofTriangles triangles).toMesh.Close t.weldDistance) (hback : NeverBack t.dissolveAngle) :
    ((∃ faces, (ofTriangles triangles).simplified t = .ok faces) ↔
      ∃ triangle ∈ triangles,
        triangle.Scattered t.weldDistance (triangles.flatMap Triple.toList)) ∧
    ∀ e, (ofTriangles triangles).simplified t = .error e → e = .edit .edgeSplit .noFaces := by
  rw [← faces_weld_ne_nil_iff hcomm hd]
  rcases simplified_eq_ok_or_error hne hd hback with ⟨hweld, faces, hok⟩ | ⟨hweld, herror⟩
  · rw [hok]
    exact ⟨⟨fun _ => hweld, fun _ => ⟨faces, rfl⟩⟩, fun e he => absurd he (by simp)⟩
  · rw [herror]
    refine ⟨⟨?_, fun h => absurd hweld h⟩, fun e he => (Except.error.inj he).symm⟩
    rintro ⟨faces, hfaces⟩
    exact absurd hfaces (by simp)

end TriangleMesh

/-! ### The result -/

/-- The corners of some records are the points of their triangles. -/
theorem Record.points_eq (rs : List Record) :
    Record.points rs = (rs.map (·.corners)).flatMap Triple.toList := by
  rw [Record.points, List.flatMap_map]

/-- **Exactly when a group fails.** In any scene that requests lead to, simplifying some
    records with finite corners succeeds iff the corners of one of them are in three
    different classes, if the angle for straight corners is below a right one. Else it is
    splitting edges that is refused. The first weld leaves no two vertices in one place, and
    the second only joins vertices in one place: no face is lost, nor a corner of one. -/
theorem simplify_succeeds_iff [Clipper Float] {arccos : Float → Float}
    (harccos : LawfulArccos arccos) {rs : List Record} (hne : rs ≠ [])
    (hfinite : ∀ p ∈ Record.points rs, p.Finite) {t : Tolerances Float}
    (hangle : t.dissolveAngle < rightAngle) :
    letI := double arccos
    ∀ scene : Scene Float, scene.Reached →
      ((∃ faces, (simplify t (meshOfRecords rs) scene).1 = .ok faces) ↔
        ∃ r ∈ rs, r.corners.Scattered t.weldDistance (Record.points rs)) ∧
      (∀ e, (simplify t (meshOfRecords rs) scene).1 = .error e →
        e = .edit .edgeSplit .noFaces) ∧
      ((meshOfRecords rs).toMesh.weld t.weldDistance).vertices.toList.Nodup ∧
      ∀ m, (meshOfRecords rs).toMesh.run (t.passes.take 3) = .ok m →
        (m.weld t.weldDistance).shape = m.shape ∧
        ∀ i j, i < m.vertices.size → j < m.vertices.size →
          ((m.clusters t.weldDistance).least i = (m.clusters t.weldDistance).least j ↔
            m.position i = m.position j) := by
  let _ := double arccos
  intro scene hscene
  have hwell := wellIndexed_meshOfRecords rs
  have hclose : (meshOfRecords rs).toMesh.Close t.weldDistance := fun p hp =>
    distanceSq_self_le arccos (hfinite p ((grounded_meshOfRecords rs).vertices p hp)) _
  have hback := neverBack_of_lt harccos hangle
  have htriangles : rs.map (·.corners) ≠ [] := fun h => hne (List.map_eq_nil_iff.mp h)
  obtain ⟨hiff, herror⟩ :=
    TriangleMesh.simplified_ofTriangles htriangles (distanceSq_comm arccos) hclose hback
  simp only [List.mem_map, exists_exists_and_eq_and, ← Record.points_eq] at hiff
  rw [Scene.simplify_eq hscene.sound t hwell]
  exact ⟨hiff, herror, Mesh.nodup_vertices_weld hwell hclose,
    fun m hm => (Mesh.tidy_of_run_take t hwell hclose hback hm).weld_joins_copies⟩

/-- An arc cosine that is right where the cosine is zero or of length one. -/
def stepArccos (c : Float) : Float :=
  if c ≤ 0.0 then if -1.0 < c then rightAngle else 3.141592653589793
  else if c < 1.0 then 0.7853981633974483
  else if 1.0 ≤ c then 0.0 else c

theorem lawful_stepArccos : LawfulArccos stepArccos where
  obtuse := by
    have hright : rightAngle ≤ rightAngle ∧ rightAngle ≤ 3.141592653589793 := by decide +kernel
    intro c _ hc
    rw [stepArccos, if_pos hc]
    split
    · exact hright.1
    · exact hright.2
  notANumber := by
    intro c hc
    -- No comparison with it holds, so it is answered as it is.
    rw [stepArccos, if_neg fun h => (le_iff.mp h).1 hc, if_neg fun h => (lt_iff.mp h).1 hc,
      if_neg fun h => (le_iff.mp h).2.1 hc]
    exact hc

/-- Welding leaves a face of some records with finite corners iff one of them is scattered. -/
theorem Record.faces_weld_ne_nil_iff {rs : List Record} (hfinite : ∀ p ∈ points rs, p.Finite)
    (d : Float) : ((meshOfRecords rs).toMesh.weld d).faces ≠ [] ↔
      ∃ r ∈ rs, r.corners.Scattered d (points rs) := by
  have hclose : (TriangleMesh.ofTriangles (rs.map (·.corners))).toMesh.Close d := fun p hp =>
    distanceSq_self_le Float.acos (hfinite p ((grounded_meshOfRecords rs).vertices p hp)) d
  have h := TriangleMesh.faces_weld_ne_nil_iff (distanceSq_comm Float.acos) hclose
  simp only [List.mem_map, exists_exists_and_eq_and, ← points_eq] at h
  exact h

/-- A square in two halves with sides of ten units, a triangle above it, and a speck at one of its
    corners. -/
def Record.plot : List Record :=
  [⟨⟨⟨0.0, 0.0, 0.0⟩, ⟨10.0, 0.0, 0.0⟩, ⟨0.0, 10.0, 0.0⟩⟩, some ⟨5⟩⟩,
    ⟨⟨⟨10.0, 0.0, 0.0⟩, ⟨10.0, 10.0, 0.0⟩, ⟨0.0, 10.0, 0.0⟩⟩, some ⟨5⟩⟩,
    ⟨⟨⟨0.0, 0.0, 30.0⟩, ⟨10.0, 0.0, 30.0⟩, ⟨0.0, 10.0, 30.0⟩⟩, some ⟨5⟩⟩,
    ⟨⟨⟨0.0, 0.0, 0.0⟩, ⟨1.0, 0.0, 0.0⟩, ⟨0.0, 1.0, 0.0⟩⟩, some ⟨5⟩⟩]

/-- The lines of the plot, and between them one with another key. -/
def plotLines : List String :=
  ["TRI 0;0;0 10;0;0 0;10;0 0 5", "TRI 50;0;0 90;0;0 50;90;0 0 7", "TRI 10;0;0 10;10;0 0;10;0 0 5",
    "TRI 0;0;30 10;0;30 0;10;30 0 5", "TRI 0;0;0 1;0;0 0;1;0 0 5"]

/-- A triangle with sides of four units and more, and a second one with its corners between two of
    the corners of the first. -/
def Record.bridged : List Record :=
  [⟨⟨⟨0.0, 0.0, 0.0⟩, ⟨4.0, 0.0, 0.0⟩, ⟨0.0, 40.0, 0.0⟩⟩, none⟩,
    ⟨⟨⟨1.0, 0.0, 0.0⟩, ⟨2.0, 0.0, 0.0⟩, ⟨3.0, 0.0, 0.0⟩⟩, none⟩]

theorem finite_plot : ∀ p ∈ Record.points Record.plot, p.Finite := by decide +kernel

/-- At the standard distance the halves of the square and the triangle above it are scattered. -/
theorem scattered_plot : ∃ r ∈ Record.plot,
    r.corners.Scattered Tolerances.standard.weldDistance (Record.points Record.plot) :=
  (Record.faces_weld_ne_nil_iff finite_plot _).mp (by decide +kernel)

/-- At the standard distance the second triangle joins two corners of the first. -/
theorem not_scattered_bridged : ¬ ∃ r ∈ Record.bridged,
    r.corners.Scattered Tolerances.standard.weldDistance (Record.points Record.bridged) := by
  rw [← Record.faces_weld_ne_nil_iff (by decide +kernel)]
  decide +kernel

/-- With the standard tolerances the plot can be simplified. A triangle that is bridged cannot. -/
theorem simplify_succeeds_iff_plot :
    letI := double stepArccos
    (∃ faces, (simplify Tolerances.standard (meshOfRecords Record.plot)
      (Scene.new : Scene Float)).1 = .ok faces) ∧
    (simplify Tolerances.standard (meshOfRecords Record.bridged) (Scene.new : Scene Float)).1
      = .error (.edit .edgeSplit .noFaces) := by
  let _ := double stepArccos
  have hplot := simplify_succeeds_iff lawful_stepArccos (List.cons_ne_nil _ _ : Record.plot ≠ [])
    finite_plot (t := Tolerances.standard) (by decide +kernel) Scene.new .new
  have hbridged := simplify_succeeds_iff lawful_stepArccos
    (List.cons_ne_nil _ _ : Record.bridged ≠ []) (by decide +kernel) (t := Tolerances.standard)
    (by decide +kernel) Scene.new .new
  refine ⟨hplot.1.mpr scattered_plot, ?_⟩
  cases hresult : (simplify Tolerances.standard (meshOfRecords Record.bridged)
      (Scene.new : Scene Float)).1 with
  | ok faces => exact absurd (hbridged.1.mp ⟨faces, hresult⟩) not_scattered_bridged
  | error e => rw [hbridged.2.1 e hresult]

/-- The standard settings, but no angle is straight. -/
def Settings.unstraightened : Settings :=
  { Settings.standard with
    tolerances := { Tolerances.standard with dissolveAngle := 0.0 / 0.0 } }

/-- Where no angle is straight, records with finite corners can be simplified as soon as one of them
    is scattered, whatever the arc cosine. -/
theorem exists_simplified_of_scattered [Clipper Float] {rs : List Record}
    (hfinite : ∀ p ∈ Record.points rs, p.Finite) (hscattered : ∃ r ∈ rs,
      r.corners.Scattered Tolerances.standard.weldDistance (Record.points rs)) :
    ∃ faces, (meshOfRecords rs).simplified Settings.unstraightened.tolerances = .ok faces := by
  have hclose : (meshOfRecords rs).toMesh.Close Settings.unstraightened.tolerances.weldDistance :=
    fun p hp => distanceSq_self_le Float.acos
      (hfinite p ((grounded_meshOfRecords rs).vertices p hp)) _
  have hback : NeverBack Settings.unstraightened.tolerances.dissolveAngle :=
    neverBack_of_notANumber Float.acos rfl
  have hne : rs.map (·.corners) ≠ [] := by
    obtain ⟨r, hr, -⟩ := hscattered
    exact List.ne_nil_of_mem (List.mem_map_of_mem hr)
  have h := (TriangleMesh.simplified_ofTriangles hne (distanceSq_comm Float.acos) hclose hback).1
  simp only [List.mem_map, exists_exists_and_eq_and, ← Record.points_eq] at h
  exact h.mpr hscattered

/-- So can the plot. -/
theorem exists_simplified_plot [Clipper Float] :
    ∃ faces, (meshOfRecords Record.plot).simplified Settings.unstraightened.tolerances
      = .ok faces :=
  exists_simplified_of_scattered finite_plot scattered_plot

/-- A document with the lines of the plot is rewritten. -/
theorem exists_written_plot [Clipper Float] :
    ∃ written report, (process Settings.unstraightened (render plotLines)
      (Scene.new : Scene Float)).result = .ok (written, report) :=
  exists_written_of_fault_eq_none _ _ .new (by decide +kernel)

end CollisionMesh
