import CollisionMesh.Mesh.Triangulate
import CollisionMesh.Proofs.Merge

namespace CollisionMesh

/-!
# What cutting into triangles does

Whatever the clipper answers, a polygon of `n` corners is cut into `n - 2` triangles
over its own corners: an answer of another kind is replaced by a fan.

* `covers_iff`, `covers_fan` — answers that cover a polygon;
* `covers_cutPolygon` — the triangles of a polygon in space do;
* `length_triangulate` — faces are cut into as many triangles as counted;
* `mem_triangulate` — all of them are triangles over old corners.
-/

/-- An answer covers a polygon if it has two triangles fewer than the polygon corners, all
    of them over those corners. -/
theorem covers_iff {n : Nat} {triangles : List (Triple Nat)} :
    covers n triangles = true ↔
      triangles.length = n - 2 ∧ ∀ t ∈ triangles, ∀ i ∈ t.toList, i < n := by
  simp only [covers, Bool.and_eq_true, beq_iff_eq, List.all_eq_true, decide_eq_true_eq]
  refine and_congr_right fun _ => forall₂_congr fun t _ => ?_
  simp [Triple.toList, and_assoc]

/-- A fan covers its polygon. -/
theorem covers_fan (n : Nat) : covers n (fan n) = true := by
  rw [covers_iff]
  refine ⟨by rw [fan, List.length_map, List.length_range], ?_⟩
  intro t ht i hi
  obtain ⟨k, hk, rfl⟩ := List.mem_map.mp ht
  have hk := List.mem_range.mp hk
  simp only [Triple.toList, List.mem_cons, List.not_mem_nil, or_false] at hi
  omega

/-- An answer that does not cover its polygon is replaced by one that does. -/
theorem covers_filter_getD_fan (n : Nat) (answer : Option (List (Triple Nat))) :
    covers n ((answer.filter (covers n)).getD (fan n)) = true := by
  cases h : answer.filter (covers n) with
  | none => exact covers_fan n
  | some triangles => exact (Option.filter_eq_some_iff.mp h).2

variable {α : Type} [Scalar α]

/-- Turning a triangle over keeps its corners. -/
theorem mem_toList_facing {points : Array (Point α)} {normal : Vec α} {t : Triple Nat} {i : Nat} :
    i ∈ (facing points normal t).toList ↔ i ∈ t.toList := by
  unfold facing
  dsimp only
  split
  · simp only [Triple.toList, List.mem_cons, List.not_mem_nil, or_false]
    tauto
  · exact Iff.rfl

/-- Turning triangles over covers the same polygon. -/
theorem covers_map_facing {n : Nat} {triangles : List (Triple Nat)} (points : Array (Point α))
    (normal : Vec α) (h : covers n triangles = true) :
    covers n (triangles.map (facing points normal)) = true := by
  obtain ⟨hlen, hin⟩ := covers_iff.mp h
  refine covers_iff.mpr ⟨by rw [List.length_map, hlen], ?_⟩
  intro t ht i hi
  obtain ⟨old, hold, rfl⟩ := List.mem_map.mp ht
  exact hin old hold i (mem_toList_facing.mp hi)

/-- **Polygons are covered.** The triangles of a polygon in space are two fewer than its
    corners, and have those as their corners. -/
theorem covers_cutPolygon [Clipper α] (points : List (Point α)) :
    covers points.length (cutPolygon points) = true := by
  -- Up to three corners there is nothing to cut. Without a normal it is a fan, and else what
  -- the clipper answered, checked and turned to face the same way.
  unfold cutPolygon
  split
  · rfl
  · rfl
  · rfl
  · rfl
  · dsimp only
    split
    · exact covers_fan _
    · exact covers_map_facing _ _ (covers_filter_getD_fan _ _)

/-! ### Faces -/

section Faces

variable {cut : Face → List (Triple Nat)} {faces : List Face}

/-- A face is cut into two triangles fewer than its corners. -/
theorem length_cutFace (hcut : ∀ face, covers face.length (cut face) = true) (face : Face) :
    (cutFace cut face).length = face.length - 2 := by
  unfold cutFace
  split
  · rfl
  · rfl
  · rfl
  · rfl
  · rw [List.length_map]
    exact (covers_iff.mp (hcut _)).1

/-- What a face is cut into are triangles over its corners. -/
theorem mem_cutFace (hcut : ∀ face, covers face.length (cut face) = true) {face triangle : Face}
    (h : triangle ∈ cutFace cut face) : triangle.length = 3 ∧ triangle ⊆ face := by
  unfold cutFace at h
  split at h
  · exact absurd h List.not_mem_nil
  · exact absurd h List.not_mem_nil
  · exact absurd h List.not_mem_nil
  · obtain rfl := List.mem_singleton.mp h
    exact ⟨rfl, List.Subset.refl _⟩
  · obtain ⟨t, ht, rfl⟩ := List.mem_map.mp h
    refine ⟨rfl, ?_⟩
    -- The answer speaks of positions in the face, all of them in range.
    have hcorner : ∀ i, i < face.length → face.toArray.getD i 0 ∈ face := by
      intro i hi
      rw [Array.getD_eq_getD_getElem?, List.getElem?_toArray, List.getElem?_eq_getElem hi]
      exact List.getElem_mem hi
    intro v hv
    simp only [Triple.toList, Triple.map, List.mem_cons, List.not_mem_nil, or_false] at hv
    have hin := (covers_iff.mp (hcut face)).2 t ht
    simp only [Triple.toList, List.forall_mem_cons, List.not_mem_nil, false_implies, implies_true,
      and_true] at hin
    rcases hv with rfl | rfl | rfl
    · exact hcorner t.a hin.1
    · exact hcorner t.b hin.2.1
    · exact hcorner t.c hin.2.2

/-- **As many triangles as counted.** Faces are cut into as many triangles as their corners
    say. -/
theorem length_triangulate (hcut : ∀ face, covers face.length (cut face) = true) :
    (triangulate cut faces).length = triangleCount faces := by
  rw [triangulate, List.length_flatMap, triangleCount]
  congr 1
  exact List.map_congr_left fun face _ => length_cutFace hcut face

/-- Every face after cutting is a triangle over the corners of a face before. -/
theorem mem_triangulate (hcut : ∀ face, covers face.length (cut face) = true) {triangle : Face}
    (h : triangle ∈ triangulate cut faces) :
    triangle.length = 3 ∧ ∃ face ∈ faces, triangle ⊆ face := by
  obtain ⟨face, hface, h⟩ := List.mem_flatMap.mp h
  obtain ⟨hlen, hsub⟩ := mem_cutFace hcut h
  exact ⟨hlen, face, hface, hsub⟩

end Faces

end CollisionMesh
