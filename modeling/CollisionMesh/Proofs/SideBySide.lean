import CollisionMesh.Proofs.Splitting

namespace CollisionMesh

/-!
# Splitting next to another mesh

Two meshes side by side have the creases of both and no others, and around a vertex of either
the fans are those that it has alone. So next to another mesh the corners of the first part as
they do alone, but for one case. Splitting leaves a mesh without a sharp edge as it is, even
where faces of different fans touch in a vertex only. Such fans stay together in a mesh alone,
and part as soon as another mesh with a sharp edge stands next to it.

* `Mesh.join` — two meshes side by side;
* `Mesh.alongside_join_left`, `Mesh.alongside_join_right` — the faces along the edges of either;
* `Mesh.sameFan_join_left`, `Mesh.exists_sharp_join_iff` — fans and sharp edges;
* `Mesh.corner?_splitEdges_eq_iff` — when corners share a vertex after splitting;
* `Mesh.Gathered` — a mesh with one fan around every vertex;
* `Mesh.apply_edgeSplit_join` — splitting next to another mesh.
-/

namespace Mesh

variable {α : Type} [Scalar α] {angle : α} {M N : Mesh α} {v f g i j : Nat} {e : Nat × Nat}

/-! ### Two meshes side by side -/

omit [Scalar α] in
/-- Two meshes side by side: the second one's vertices and faces come after those of the first. -/
def join (M N : Mesh α) : Mesh α where
  vertices := M.vertices ++ N.vertices
  faces := M.faces ++ N.faces.map fun face => face.map (M.vertices.size + ·)

omit [Scalar α] in
theorem wellIndexed_join (hM : M.WellIndexed) (hN : N.WellIndexed) : (M.join N).WellIndexed := by
  intro face hface v hv
  rw [join, Array.size_append]
  rcases List.mem_append.mp hface with hface | hface
  · exact Nat.lt_add_right _ (hM face hface v hv)
  · obtain ⟨old, hold, rfl⟩ := List.mem_map.mp hface
    obtain ⟨w, hw, rfl⟩ := List.mem_map.mp hv
    exact Nat.add_lt_add_left (hN old hold w hw) _

theorem position_join_left (hv : v < M.vertices.size) : (M.join N).position v = M.position v := by
  simp only [position, join, Array.getD_eq_getD_getElem?, Array.getElem?_append_left hv]

theorem position_join_right (M N : Mesh α) (v : Nat) :
    (M.join N).position (M.vertices.size + v) = N.position v := by
  simp only [position, join, Array.getD_eq_getD_getElem?,
    Array.getElem?_append_right (Nat.le_add_right _ _), Nat.add_sub_cancel_left]

omit [Scalar α] in
/-- Corners of the first mesh are corners of both. -/
theorem corner?_join (h : M.corner? f i = some v) : (M.join N).corner? f i = some v := by
  obtain ⟨face, hface, hi⟩ := Option.bind_eq_some_iff.mp h
  rw [corner?, join, List.getElem?_append_left (List.getElem?_eq_some_iff.mp hface).1, hface]
  exact hi

/-- Faces of the first mesh look in the directions that they do alone. -/
theorem direction?_join_left (hM : M.WellIndexed) (hf : f < M.faces.length) :
    (M.join N).direction? f = M.direction? f := by
  rw [direction?, direction?, join, List.getElem?_append_left hf, List.getElem?_eq_getElem hf,
    Option.bind_some, Option.bind_some, normal?, normal?]
  congr 2
  exact List.map_congr_left fun v hv =>
    position_join_left (hM _ (List.getElem_mem hf) v hv)

/-- So do those of the second. -/
theorem direction?_join_right (M N : Mesh α) (f : Nat) :
    (M.join N).direction? (M.faces.length + f) = N.direction? f := by
  have hpositions : ∀ face : Face,
      (M.join N).positions (face.map (M.vertices.size + ·)) = N.positions face := by
    intro face
    rw [positions, positions, List.map_map]
    exact List.map_congr_left fun v _ => position_join_right M N v
  rw [direction?, direction?, join, List.getElem?_append_right (Nat.le_add_right _ _),
    Nat.add_sub_cancel_left, List.getElem?_map]
  cases N.faces[f]? with
  | none => rfl
  | some face => exact congrArg (fun loop => (newellNormal loop).unit?) (hpositions face)

/-! ### Edges -/

omit [Scalar α] in
/-- The faces along an edge are those of the first mesh and then those of the second. -/
theorem alongside_join (M N : Mesh α) (e : Nat × Nat) :
    (M.join N).alongside e = M.alongside e ++ (users (sideUses (N.faces.map fun face =>
      face.map (M.vertices.size + ·))) (side e)).map (M.faces.length + ·) :=
  users_sideUses_append _ _ _

omit [Scalar α] in
/-- Along an edge with an end in the first mesh there are faces of that only. -/
theorem alongside_join_left (he : e.1 < M.vertices.size ∨ e.2 < M.vertices.size) :
    (M.join N).alongside e = M.alongside e := by
  rw [alongside_join, List.append_right_eq_self, List.map_eq_nil_iff,
    List.eq_nil_iff_forall_not_mem]
  intro k hk
  obtain ⟨d, hd, hside⟩ := mem_users_sideUses.mp hk
  -- All corners of the second mesh come after those of the first.
  have hlater : ∀ w, w ∈ (N.faces.map fun face =>
      face.map (M.vertices.size + ·)).toArray.getD k [] → M.vertices.size ≤ w := by
    intro w hw
    obtain ⟨face, hface, hw⟩ := mem_getD_iff.mp hw
    obtain ⟨old, -, rfl⟩ := List.mem_map.mp (List.mem_of_getElem? hface)
    obtain ⟨x, -, rfl⟩ := List.mem_map.mp hw
    exact Nat.le_add_right _ _
  obtain ⟨h₁, h₂⟩ := mem_of_mem_cyclicPairs hd
  have h₁ := hlater d.1 h₁
  have h₂ := hlater d.2 h₂
  rcases side_eq_side_iff.mp hside with rfl | rfl
  · omega
  · simp only [Prod.fst_swap, Prod.snd_swap] at h₁ h₂
    omega

omit [Scalar α] in
/-- Along an edge of the second mesh there are the faces of that. -/
theorem alongside_join_right (hM : M.WellIndexed) (N : Mesh α) (e : Nat × Nat) :
    (M.join N).alongside (e.map (M.vertices.size + ·) (M.vertices.size + ·))
      = (N.alongside e).map (M.faces.length + ·) := by
  have hnone : M.alongside (e.map (M.vertices.size + ·) (M.vertices.size + ·)) = [] := by
    rw [List.eq_nil_iff_forall_not_mem]
    intro f hf
    have := hM.lt_of_mem_getD (mem_of_mem_alongside hf).1
    simp at this
  rw [alongside_join, hnone, List.nil_append, users_sideUses_map fun _ _ => Nat.add_left_cancel]
  rfl

omit [Scalar α] in
/-- Only faces of the mesh are along its edges. -/
theorem lt_of_mem_alongside (h : f ∈ M.alongside e) : f < M.faces.length := by
  by_contra hf
  have := (mem_of_mem_alongside h).1
  rw [getD_eq_nil hf] at this
  exact absurd this List.not_mem_nil

/-! ### Creases and fans -/

/-- The first mesh has the creases that it has alone. -/
theorem crease_join_left (hM : M.WellIndexed)
    (he : e.1 < M.vertices.size ∨ e.2 < M.vertices.size) :
    (M.join N).Crease angle f g e ↔ M.Crease angle f g e := by
  have hdirection : M.alongside e = [f, g] →
      (M.join N).direction? f = M.direction? f ∧ (M.join N).direction? g = M.direction? g := by
    intro halong
    have hf : f ∈ M.alongside e := halong ▸ List.mem_cons_self
    have hg : g ∈ M.alongside e := halong ▸ List.mem_cons_of_mem _ List.mem_cons_self
    exact ⟨direction?_join_left hM (lt_of_mem_alongside hf),
      direction?_join_left hM (lt_of_mem_alongside hg)⟩
  constructor
  · rintro ⟨halong, hne, hapart⟩
    rw [alongside_join_left he] at halong
    obtain ⟨hf, hg⟩ := hdirection halong
    exact ⟨halong, hne, by rwa [hf, hg] at hapart⟩
  · rintro ⟨halong, hne, hapart⟩
    obtain ⟨hf, hg⟩ := hdirection halong
    exact ⟨by rwa [alongside_join_left he], hne, by rwa [hf, hg]⟩

/-- So does the second. -/
theorem crease_join_right (hM : M.WellIndexed) :
    (M.join N).Crease angle (M.faces.length + f) (M.faces.length + g)
      (e.map (M.vertices.size + ·) (M.vertices.size + ·)) ↔ N.Crease angle f g e := by
  have hinj : Function.Injective (List.map (M.faces.length + ·)) :=
    List.map_injective_iff.mpr fun _ _ => Nat.add_left_cancel
  have halong : (M.join N).alongside (e.map (M.vertices.size + ·) (M.vertices.size + ·))
      = [M.faces.length + f, M.faces.length + g] ↔ N.alongside e = [f, g] := by
    rw [alongside_join_right hM]
    exact hinj.eq_iff (b := [f, g])
  constructor
  · rintro ⟨h, hne, hapart⟩
    rw [direction?_join_right, direction?_join_right] at hapart
    exact ⟨halong.mp h, fun heq => hne (heq ▸ rfl), hapart⟩
  · rintro ⟨h, hne, hapart⟩
    refine ⟨halong.mpr h, fun heq => hne (Nat.add_left_cancel heq), ?_⟩
    rwa [direction?_join_right, direction?_join_right]

/-- Around a vertex of the first mesh the same faces are hinged as alone. -/
theorem hinged_join_left (hM : M.WellIndexed) (hv : v < M.vertices.size) :
    (M.join N).Hinged angle v f g ↔ M.Hinged angle v f g := by
  refine exists_congr fun e => and_congr_right fun hend => ?_
  have he : e.1 < M.vertices.size ∨ e.2 < M.vertices.size := by
    rcases hend with rfl | rfl
    · exact .inl hv
    · exact .inr hv
  rw [alongside_join_left he, Sharp, Sharp]
  simp only [crease_join_left hM he]

/-- So its fans are those that it has alone. -/
theorem sameFan_join_left (hM : M.WellIndexed) (hv : v < M.vertices.size) :
    (M.join N).SameFan angle v f g ↔ M.SameFan angle v f g := by
  have hhinged : (M.join N).Hinged angle v = M.Hinged angle v := by
    funext f g
    exact propext (hinged_join_left hM hv)
  rw [SameFan, hhinged, SameFan]

/-- Meshes side by side have a sharp edge iff one of them has. -/
theorem exists_sharp_join_iff (hM : M.WellIndexed) :
    (∃ e, (M.join N).Sharp angle e) ↔ (∃ e, M.Sharp angle e) ∨ ∃ e, N.Sharp angle e := by
  constructor
  · rintro ⟨e, f, g, h⟩
    by_cases he : e.1 < M.vertices.size ∨ e.2 < M.vertices.size
    · exact .inl ⟨e, f, g, (crease_join_left hM he).mp h⟩
    · -- Neither end is in the first mesh, so the edge and its faces are those of the second.
      obtain ⟨d, rfl⟩ : ∃ d : Nat × Nat, e = d.map (M.vertices.size + ·) (M.vertices.size + ·) :=
        ⟨(e.1 - M.vertices.size, e.2 - M.vertices.size), by
          ext <;> simp only [Prod.map_fst, Prod.map_snd] <;> omega⟩
      have halong := h.alongside_eq
      rw [alongside_join_right hM] at halong
      obtain ⟨f', hf, rfl⟩ := List.mem_map.mp (halong ▸ List.mem_cons_self : f ∈ _)
      obtain ⟨g', hg, rfl⟩ := List.mem_map.mp
        (halong ▸ List.mem_cons_of_mem _ List.mem_cons_self : g ∈ _)
      exact .inr ⟨d, f', g', (crease_join_right hM).mp h⟩
  · rintro (⟨e, f, g, h⟩ | ⟨e, f, g, h⟩)
    · have hend := hM.lt_of_mem_getD (mem_of_mem_alongside
        (h.alongside_eq ▸ List.mem_cons_self : f ∈ M.alongside e)).1
      exact ⟨e, f, g, (crease_join_left hM (.inl hend)).mpr h⟩
    · exact ⟨_, _, _, (crease_join_right hM).mpr h⟩

/-! ### The result -/

/-- Corners share a vertex after splitting iff they shared one before and, where anything was
    split at all, their faces are in the same fan. -/
theorem corner?_splitEdges_eq_iff {m : Mesh α} {w : Nat} (hm : m.WellIndexed)
    (hv : m.corner? f i = some v) (hw : m.corner? g j = some w) :
    (m.splitEdges angle).corner? f i = (m.splitEdges angle).corner? g j ↔
      v = w ∧ ((∃ e, m.Sharp angle e) → m.SameFan angle v f g) := by
  by_cases h : ∃ e, m.Sharp angle e
  · rw [(splitByFans_splitEdges hm h).eq_iff hv hw, imp_iff_right h]
  · rw [splitEdges_of_not_sharp (not_exists.mp h), hv, hw, Option.some.injEq]
    exact ⟨fun heq => ⟨heq, fun hsharp => absurd hsharp h⟩, And.left⟩

/-- Next to another mesh it also counts whether anything of that is split. -/
theorem corner?_splitEdges_join_iff {w : Nat} (hM : M.WellIndexed) (hN : N.WellIndexed)
    (hv : M.corner? f i = some v) (hw : M.corner? g j = some w) :
    ((M.join N).splitEdges angle).corner? f i = ((M.join N).splitEdges angle).corner? g j ↔
      v = w ∧ ((∃ e, M.Sharp angle e) ∨ (∃ e, N.Sharp angle e) → M.SameFan angle v f g) := by
  rw [corner?_splitEdges_eq_iff (wellIndexed_join hM hN) (corner?_join hv) (corner?_join hw),
    exists_sharp_join_iff hM,
    sameFan_join_left hM (hM.lt_of_mem_getD (mem_of_corner?_eq_some hv))]

/-- Around every vertex the faces are one fan. -/
def Gathered (angle : α) (m : Mesh α) : Prop :=
  ∀ {f i g j v}, m.corner? f i = some v → m.corner? g j = some v → m.SameFan angle v f g

/-- **Splitting next to another mesh.** Corners of a mesh that share a vertex after splitting it
    next to another one share one after splitting it alone. The converse holds for all corners
    iff the mesh has a sharp edge, or the other one has none, or around every vertex the faces
    are one fan. -/
theorem apply_edgeSplit_join [Clipper α] (hM : M.WellIndexed) (hN : N.WellIndexed)
    (hne : M.faces ≠ []) (angle : α) :
    ∃ alone beside, M.apply (.edgeSplit angle) = .ok alone ∧
      (M.join N).apply (.edgeSplit angle) = .ok beside ∧
      (∀ {f i g j v w}, M.corner? f i = some v → M.corner? g j = some w →
        beside.corner? f i = beside.corner? g j → alone.corner? f i = alone.corner? g j) ∧
      ((∀ {f i g j v w}, M.corner? f i = some v → M.corner? g j = some w →
          (beside.corner? f i = beside.corner? g j ↔ alone.corner? f i = alone.corner? g j)) ↔
        (∃ e, M.Sharp angle e) ∨ (∀ e, ¬ N.Sharp angle e) ∨ M.Gathered angle) := by
  have hboth : (M.join N).faces ≠ [] := List.append_ne_nil_of_left_ne_nil hne _
  refine ⟨M.splitEdges angle, (M.join N).splitEdges angle, apply_of_ne_nil hne _,
    apply_of_ne_nil hboth _, ?_, ?_, ?_⟩
  · intro f i g j v w hv hw
    rw [corner?_splitEdges_eq_iff hM hv hw, corner?_splitEdges_join_iff hM hN hv hw]
    exact fun h => ⟨h.1, fun hsharp => h.2 (.inl hsharp)⟩
  · -- Where they agree although only the other mesh has a sharp edge, corners in one vertex
    -- that stay together alone must be in one fan.
    intro hagree
    by_cases hsharp : ∃ e, M.Sharp angle e
    · exact .inl hsharp
    by_cases hother : ∃ e, N.Sharp angle e
    · refine .inr (.inr fun {f i g j v} hv hw => ?_)
      have halone : (M.splitEdges angle).corner? f i = (M.splitEdges angle).corner? g j :=
        (corner?_splitEdges_eq_iff hM hv hw).mpr ⟨rfl, fun h => absurd h hsharp⟩
      exact ((corner?_splitEdges_join_iff hM hN hv hw).mp ((hagree hv hw).mpr halone)).2
        (.inr hother)
    · exact .inr (.inl (not_exists.mp hother))
  · intro hcases f i g j v w hv hw
    rw [corner?_splitEdges_eq_iff hM hv hw, corner?_splitEdges_join_iff hM hN hv hw]
    refine and_congr_right fun heq => ?_
    subst heq
    rcases hcases with hsharp | hother | hgathered
    · rw [imp_iff_right hsharp, imp_iff_right (.inl hsharp)]
    · rw [or_iff_left (not_exists.mpr hother)]
    · exact iff_of_true (fun _ => hgathered hv hw) fun _ => hgathered hv hw

/-- Two triangles in one plane that have only a vertex in common. -/
def bowtie : Mesh Float where
  vertices := #[⟨0, 0, 0⟩, ⟨10, 0, 0⟩, ⟨0, 10, 0⟩, ⟨-10, 0, 0⟩, ⟨0, -10, 0⟩]
  faces := [[0, 1, 2], [0, 3, 4]]

theorem wellIndexed_bowtie : bowtie.WellIndexed := by
  show ∀ face ∈ bowtie.faces, ∀ i ∈ face, i < 5
  decide

/-- The roof has a sharp edge, so next to the bow tie its corners part as they do alone. -/
theorem apply_edgeSplit_join_roof :
    letI := Scalar.double stepArccos
    ∃ alone beside, roof.apply (.edgeSplit Tolerances.standard.splitAngle) = .ok alone ∧
      (roof.join bowtie).apply (.edgeSplit Tolerances.standard.splitAngle) = .ok beside ∧
      ∀ {f i g j v w}, roof.corner? f i = some v → roof.corner? g j = some w →
        (beside.corner? f i = beside.corner? g j ↔ alone.corner? f i = alone.corner? g j) := by
  let _ := Scalar.double stepArccos
  have hsharp : roof.Sharp Tolerances.standard.splitAngle (0, 2) := by decide +kernel
  obtain ⟨alone, beside, halone, hbeside, -, hagree⟩ :=
    apply_edgeSplit_join wellIndexed_roof wellIndexed_bowtie (List.cons_ne_nil _ _)
      Tolerances.standard.splitAngle
  exact ⟨alone, beside, halone, hbeside, hagree.mpr (.inl ⟨_, hsharp⟩)⟩

/-- The bow tie has no sharp edge, so its triangles keep the vertex that they share. Next to the
    roof they part, as they are two fans. -/
theorem bowtie_parts_beside_roof :
    letI := Scalar.double stepArccos
    bowtie.WellIndexed ∧ roof.WellIndexed ∧
    ∃ alone beside, bowtie.apply (.edgeSplit Tolerances.standard.splitAngle) = .ok alone ∧
      (bowtie.join roof).apply (.edgeSplit Tolerances.standard.splitAngle) = .ok beside ∧
      bowtie.corner? 0 0 = some 0 ∧ bowtie.corner? 1 0 = some 0 ∧
      alone.corner? 0 0 = alone.corner? 1 0 ∧ beside.corner? 0 0 ≠ beside.corner? 1 0 := by
  let _ := Scalar.double stepArccos
  have hflat : ¬ ∃ e, bowtie.Sharp Tolerances.standard.splitAngle e := by decide +kernel
  have hsharp : roof.Sharp Tolerances.standard.splitAngle (0, 2) := by decide +kernel
  have hhinges : ∀ f ∈ [0], bowtie.hinges Tolerances.standard.splitAngle 0 f ⊆ [0] := by
    decide +kernel
  refine ⟨wellIndexed_bowtie, wellIndexed_roof, _, _, apply_of_ne_nil (List.cons_ne_nil _ _) _,
    apply_of_ne_nil (List.cons_ne_nil _ _) _, rfl, rfl, ?_, ?_⟩
  · exact (corner?_splitEdges_eq_iff wellIndexed_bowtie rfl rfl).mpr
      ⟨rfl, fun h => absurd h hflat⟩
  · intro heq
    have hfan := ((corner?_splitEdges_join_iff wellIndexed_bowtie wellIndexed_roof rfl rfl).mp
      heq).2 (.inr ⟨_, hsharp⟩)
    exact absurd (hfan.mem_of_hinges_subset hhinges (List.mem_singleton_self 0)) (by decide)

end Mesh

end CollisionMesh
