import CollisionMesh.Mesh.Crease
import CollisionMesh.Proofs.EdgeUses
import Mathlib.Logic.Relation

namespace CollisionMesh

/-!
# Creases and fans by the faces alone

Two faces meet in a crease where no other face has their edge and they look in directions that
are too far apart. Faces around a vertex are hinged there by the edges that are no creases, and
the chains of hinged faces are the fans of the vertex.

* `Mesh.alongside` — the faces along an edge, once for each use;
* `Mesh.Crease`, `Mesh.Sharp` — edges where two faces meet too sharply;
* `Mesh.Hinged`, `Mesh.SameFan` — faces around a vertex that stay together;
* `Mesh.isSharp_alongside_iff`, `Mesh.mem_hinges_iff` — both can be computed;
* `Mesh.sharp_creases_iff`, `Mesh.linked_creases_iff`, `Mesh.any_sharp_iff` — splitting tests
  for just that.
-/

namespace Mesh

variable {α : Type} [Scalar α]

/-! ### Creases -/

omit [Scalar α] in
/-- The faces along an edge in either direction, once for each use. -/
def alongside (m : Mesh α) (e : Nat × Nat) : List Nat :=
  users (sideUses m.faces) (side e)

/-- The direction that the face in a place looks in, if there is one and it has any. -/
def direction? (m : Mesh α) (f : Nat) : Option (Vec α) :=
  m.faces[f]?.bind m.normal?

/-- The faces `f` and `g` are the two along an edge, and both have a direction, but these are
    further apart than the angle. -/
structure Crease (angle : α) (m : Mesh α) (f g : Nat) (e : Nat × Nat) : Prop where
  alongside_eq : m.alongside e = [f, g]
  ne : f ≠ g
  apart : ∃ u v, m.direction? f = some u ∧ m.direction? g = some v ∧ angle < angleBetween u v

/-- Two faces meet in a crease along an edge. -/
def Sharp (angle : α) (m : Mesh α) (e : Nat × Nat) : Prop :=
  ∃ f g, m.Crease angle f g e

/-- The faces `f` and `g` share an edge at a vertex that is not sharp. -/
def Hinged (angle : α) (m : Mesh α) (v f g : Nat) : Prop :=
  ∃ e : Nat × Nat, (e.1 = v ∨ e.2 = v) ∧ f ∈ m.alongside e ∧ g ∈ m.alongside e ∧ ¬ m.Sharp angle e

/-- A chain of hinged faces around a vertex leads from `f` to `g`. -/
def SameFan (angle : α) (m : Mesh α) (v f g : Nat) : Prop :=
  Relation.ReflTransGen (m.Hinged angle v) f g

section

variable {angle : α} {m : Mesh α} {v f g : Nat} {e : Nat × Nat}

theorem Hinged.symm (h : m.Hinged angle v f g) : m.Hinged angle v g f := by
  obtain ⟨e, hv, hf, hg, hsharp⟩ := h
  exact ⟨e, hv, hg, hf, hsharp⟩

theorem SameFan.symm (h : m.SameFan angle v f g) : m.SameFan angle v g f :=
  have : Std.Symm (m.Hinged angle v) := ⟨fun _ _ => Hinged.symm⟩
  Relation.ReflTransGen.stdSymm.symm f g h

omit [Scalar α] in
/-- The faces along an edge are those that have it in either direction. -/
theorem mem_alongside :
    f ∈ m.alongside e ↔ ∃ d ∈ loopEdges (m.faces.toArray.getD f []), d = e ∨ d = e.swap := by
  simp only [alongside, mem_users_sideUses, side_eq_side_iff]

omit [Scalar α] in
/-- The faces along an edge are those along it backwards. -/
theorem alongside_congr {d : Nat × Nat} (h : side d = side e) : m.alongside d = m.alongside e := by
  rw [alongside, h, alongside]

/-- So faces meet in a crease along an edge in both directions. -/
theorem crease_congr {d : Nat × Nat} (h : side d = side e) :
    m.Crease angle f g d ↔ m.Crease angle f g e := by
  constructor <;> rintro ⟨halong, hne, hapart⟩
  · exact ⟨alongside_congr h ▸ halong, hne, hapart⟩
  · exact ⟨alongside_congr h.symm ▸ halong, hne, hapart⟩

theorem sharp_congr {d : Nat × Nat} (h : side d = side e) :
    m.Sharp angle d ↔ m.Sharp angle e :=
  exists₂_congr fun _ _ => crease_congr h

omit [Scalar α] in
/-- A face along an edge has its ends as corners. -/
theorem mem_of_mem_alongside (h : f ∈ m.alongside e) :
    e.1 ∈ m.faces.toArray.getD f [] ∧ e.2 ∈ m.faces.toArray.getD f [] := by
  obtain ⟨d, hd, rfl | rfl⟩ := mem_alongside.mp h
  · exact mem_of_mem_cyclicPairs hd
  · exact (mem_of_mem_cyclicPairs hd).symm

/-- Hinged faces have the vertex as a corner. -/
theorem Hinged.mem (h : m.Hinged angle v f g) :
    v ∈ m.faces.toArray.getD f [] ∧ v ∈ m.faces.toArray.getD g [] := by
  obtain ⟨e, hv, hf, hg, -⟩ := h
  have hf := mem_of_mem_alongside hf
  have hg := mem_of_mem_alongside hg
  rcases hv with rfl | rfl
  · exact ⟨hf.1, hg.1⟩
  · exact ⟨hf.2, hg.2⟩

/-! ### The tests of splitting -/

/-- Directions are looked up face by face. -/
theorem getD_normals (m : Mesh α) (f : Nat) :
    (m.faces.map m.normal?).toArray.getD f none = m.direction? f := by
  rw [Array.getD_eq_getD_getElem?, List.getElem?_toArray, List.getElem?_map, direction?]
  cases m.faces[f]? <;> rfl

/-- Whether an edge is sharp can be told from the faces along it. -/
theorem isSharp_alongside_iff :
    isSharp angle m.direction? (m.alongside e) = true ↔ m.Sharp angle e := by
  unfold isSharp
  constructor
  · intro h
    split at h
    · next f g husers =>
      split at h
      · next u w hu hw =>
        rw [Bool.and_eq_true, bne_iff_ne, decide_eq_true_eq] at h
        exact ⟨f, g, husers, h.1, u, w, hu, hw, h.2⟩
      · exact absurd h (by simp)
    · exact absurd h (by simp)
  · rintro ⟨f, g, husers, hne, u, w, hu, hw, hangle⟩
    rw [husers]
    simp only [hu, hw, Bool.and_eq_true, bne_iff_ne, decide_eq_true_eq]
    exact ⟨hne, hangle⟩

instance : Decidable (m.Sharp angle e) :=
  decidable_of_iff _ isSharp_alongside_iff

/-- Only edges of faces are sharp. -/
theorem exists_sharp_iff :
    (∃ e, m.Sharp angle e) ↔ ∃ use ∈ sideUses m.faces, m.Sharp angle use.1 := by
  constructor
  · rintro ⟨e, f, g, hcrease⟩
    -- One of the uses of the edge is that of `f`.
    have hf : f ∈ m.alongside e := hcrease.alongside_eq ▸ List.mem_cons_self
    obtain ⟨use, huse, -⟩ := List.mem_map.mp hf
    obtain ⟨hmem, he⟩ := List.mem_filter.mp huse
    refine ⟨use, hmem, ?_⟩
    rw [eq_of_beq he, sharp_congr (side_side e)]
    exact ⟨f, g, hcrease⟩
  · rintro ⟨use, -, hsharp⟩
    exact ⟨use.1, hsharp⟩

instance : Decidable (∃ e, m.Sharp angle e) :=
  decidable_of_iff _ exists_sharp_iff.symm

/-- The faces that share an edge with a face at a vertex that is not sharp, edge by edge. -/
def hinges (angle : α) (m : Mesh α) (v f : Nat) : List Nat :=
  ((loopEdges (m.faces.toArray.getD f [])).filter fun d =>
    (d.1 == v || d.2 == v) && !isSharp angle m.direction? (m.alongside d)).flatMap m.alongside

/-- These are the faces that are hinged to it. -/
theorem mem_hinges_iff : g ∈ m.hinges angle v f ↔ m.Hinged angle v f g := by
  simp only [hinges, List.mem_flatMap, List.mem_filter, Bool.and_eq_true, Bool.or_eq_true,
    beq_iff_eq, Bool.not_eq_true', ← Bool.not_eq_true, isSharp_alongside_iff]
  constructor
  · rintro ⟨d, ⟨hd, hv, hsharp⟩, hg⟩
    exact ⟨d, hv, mem_alongside.mpr ⟨d, hd, .inl rfl⟩, hg, hsharp⟩
  · rintro ⟨e, hv, hf, hg, hsharp⟩
    obtain ⟨d, hd, hde⟩ := mem_alongside.mp hf
    have hside : side d = side e := side_eq_side_iff.mpr hde
    refine ⟨d, ⟨hd, ?_, by rwa [sharp_congr hside]⟩, by rwa [alongside_congr hside]⟩
    rcases hde with rfl | rfl
    · exact hv
    · exact hv.symm

/-- A fan stays among faces that are hinged to each other only. -/
theorem SameFan.mem_of_hinges_subset {faces : List Nat}
    (h : ∀ f ∈ faces, m.hinges angle v f ⊆ faces) (hf : f ∈ faces) (hfan : m.SameFan angle v f g) :
    g ∈ faces := by
  induction hfan with
  | refl => exact hf
  | tail _ hstep ih => exact h _ ih (mem_hinges_iff.mpr hstep)

/-- The test for sharp edges finds the sharp ones. -/
theorem sharp_creases_iff : (m.creases angle).sharp (side e) = true ↔ m.Sharp angle e := by
  have htest : (m.creases angle).sharp (side e) = isSharp angle m.direction? (m.alongside e) := by
    simp only [creases, EdgeTable.users_ofUses, getD_normals, alongside]
  rw [htest, isSharp_alongside_iff]

/-- The test for links finds the hinged faces. -/
theorem linked_creases_iff : (m.creases angle).linked v f g = true ↔ m.Hinged angle v f g := by
  have husers : ∀ d, (m.creases angle).users (side d) = m.alongside d := by
    intro d
    simp only [creases, EdgeTable.users_ofUses, alongside]
  have hfaces : (m.creases angle).faces = m.faces.toArray := rfl
  rw [← mem_hinges_iff, Creases.linked, List.any_eq_true, hfaces]
  simp only [hinges, List.mem_flatMap, List.mem_filter, Bool.and_eq_true, Bool.not_eq_true',
    ← Bool.not_eq_true, isSharp_alongside_iff, sharp_creases_iff, husers, List.contains_iff_mem,
    and_assoc]

/-- The test whether there is anything to split. -/
theorem any_sharp_iff :
    (sideUses m.faces).any (fun use => (m.creases angle).sharp use.1) = true
      ↔ ∃ e, m.Sharp angle e := by
  rw [List.any_eq_true, exists_sharp_iff]
  refine exists_congr fun use => and_congr_right fun huse => ?_
  obtain ⟨⟨d, f⟩, -, rfl⟩ := List.mem_map.mp huse
  rw [sharp_creases_iff, sharp_congr (side_side d)]

end

end Mesh

end CollisionMesh
