import CollisionMesh.Proofs.Passes
import Mathlib.Algebra.BigOperators.Group.Finset.Basic
import Mathlib.Algebra.Field.ZMod
import Mathlib.Data.ZMod.Basic
import Mathlib.Tactic.LinearCombination
import Mathlib.Tactic.Ring

namespace CollisionMesh

/-!
# Cutting faces opens no seam

How often faces run along an edge, in either direction, is even or odd before and after they are
cut into triangles alike. A fan runs along every side of its polygon once and along every other edge
twice, and turning a triangle over changes nothing. So what is asked of a clipper is only that its
own answers are like that.

* `timesAlong` — how often faces run along an edge;
* `EdgeWeight`, `EdgeWeight.along` — a function of edges without direction, modulo two, summed
  along a loop; `EdgeWeight.sum_congr` — edges of the same parity have the same sum;
* `EdgeWeight.sum_fan`, `EdgeWeight.along_facing` — fans, and triangles turned over;
* `FairAnswer`, `FairClipper` — clippers that keep the parity of edges; `EdgeWeight.sum_cutPolygon`;
* `IsCut` — the triangles of a face; `isCut_cutFace`;
* `Mesh.apply_triangulate` — what cutting a mesh into triangles does.
-/

/-- How often faces run along an edge, in either direction. -/
def timesAlong (faces : List Face) (e : Nat × Nat) : Nat :=
  ((faces.flatMap loopEdges).map side).count (side e)

/-! ### Sums along loops -/

/-- A function of edges without direction, modulo two, which is zero for an edge from a vertex to
    itself. -/
structure EdgeWeight where
  weight : Nat → Nat → ZMod 2
  self : ∀ a, weight a a = 0
  comm : ∀ a b, weight a b = weight b a

namespace EdgeWeight

variable (w : EdgeWeight)

/-- The weights of some edges together. -/
def sum (edges : List (Nat × Nat)) : ZMod 2 :=
  (edges.map fun e => w.weight e.1 e.2).sum

/-- The weights of the edges of a loop together. -/
def along (loop : Face) : ZMod 2 :=
  w.sum (loopEdges loop)

@[simp] theorem sum_nil : w.sum [] = 0 := rfl

@[simp] theorem sum_cons (e : Nat × Nat) (edges : List (Nat × Nat)) :
    w.sum (e :: edges) = w.weight e.1 e.2 + w.sum edges := by
  rw [sum, sum, List.map_cons, List.sum_cons]

@[simp] theorem sum_append (edges edges' : List (Nat × Nat)) :
    w.sum (edges ++ edges') = w.sum edges + w.sum edges' := by
  rw [sum, sum, sum, List.map_append, List.sum_append]

/-- The weights of the edges of several loops, loop by loop. -/
theorem sum_flatMap_loopEdges (loops : List Face) :
    w.sum (loops.flatMap loopEdges) = (loops.map w.along).sum := by
  induction loops with
  | nil => rfl
  | cons loop rest ih => rw [List.flatMap_cons, sum_append, ih, List.map_cons, List.sum_cons, along]

/-- A weight is the same without direction. -/
theorem weight_side (e : Nat × Nat) : w.weight (side e).1 (side e).2 = w.weight e.1 e.2 := by
  rw [side]
  split
  · rfl
  · exact w.comm _ _

/-- The weight where vertices have other names. -/
def rename (f : Nat → Nat) : EdgeWeight where
  weight a b := w.weight (f a) (f b)
  self a := w.self (f a)
  comm a b := w.comm (f a) (f b)

theorem along_map (f : Nat → Nat) (loop : Face) : w.along (loop.map f) = (w.rename f).along loop := by
  rw [along, along, loopEdges, cyclicPairs_map, sum, sum, List.map_map]
  rfl

/-- **Parity.** Edges that are there an even or odd number of times alike have the same weight. -/
theorem sum_congr {edges edges' : List (Nat × Nat)}
    (h : ∀ a b, a ≠ b → (edges.map side).count (side (a, b)) % 2
      = (edges'.map side).count (side (a, b)) % 2) : w.sum edges = w.sum edges' := by
  -- Both sides are summed edge by edge without direction, each as often as it is there.
  have hsum : ∀ (l : List (Nat × Nat)) (all : Finset (Nat × Nat)), (l.map side).toFinset ⊆ all →
      w.sum l = ∑ e ∈ all, (l.map side).count e • w.weight e.1 e.2 := by
    intro l all hall
    have hside : w.sum l = ((l.map side).map fun e => w.weight e.1 e.2).sum := by
      rw [sum, List.map_map]
      exact congrArg List.sum (List.map_congr_left fun e _ => (w.weight_side e).symm)
    have hcount : ∀ e, @List.count _ instBEqOfDecidableEq e (l.map side) = (l.map side).count e := by
      intro e
      simp only [List.count_eq_countP, Bool.beq_eq_decide_eq]
    rw [hside, Finset.sum_list_map_count]
    simp only [hcount]
    refine Finset.sum_subset hall fun e _ he => ?_
    rw [List.count_eq_zero_of_not_mem fun hmem => he (List.mem_toFinset.mpr hmem), zero_smul]
  rw [hsum edges ((edges.map side).toFinset ∪ (edges'.map side).toFinset) Finset.subset_union_left,
    hsum edges' ((edges.map side).toFinset ∪ (edges'.map side).toFinset) Finset.subset_union_right]
  refine Finset.sum_congr rfl fun e he => ?_
  have hside : side e = e := by
    rcases Finset.mem_union.mp he with he | he <;>
      obtain ⟨d, -, rfl⟩ := List.mem_map.mp (List.mem_toFinset.mp he) <;> exact side_side d
  by_cases hself : e.1 = e.2
  · rw [hself, w.self, smul_zero, smul_zero]
  · have hparity := h e.1 e.2 hself
    rw [show (e.1, e.2) = e from rfl, hside] at hparity
    rw [nsmul_eq_mul, nsmul_eq_mul, (ZMod.natCast_eq_natCast_iff' _ _ 2).mpr hparity]

/-- The weight that counts one edge. -/
def single (u v : Nat) (huv : u ≠ v) : EdgeWeight where
  weight a b := if side (a, b) = side (u, v) then 1 else 0
  self a := if_neg fun h => by
    rcases side_eq_side_iff.mp h with h | h <;> simp only [Prod.swap_prod_mk, Prod.mk.injEq] at h <;>
      omega
  comm a b := by rw [side_eq_side_iff.mpr (.inr rfl : (a, b) = (b, a) ∨ (a, b) = (b, a).swap)]

theorem sum_single {u v : Nat} (huv : u ≠ v) (edges : List (Nat × Nat)) :
    (single u v huv).sum edges = ((edges.map side).count (side (u, v)) : ZMod 2) := by
  induction edges with
  | nil => rfl
  | cons e rest ih =>
    rw [sum_cons, ih, List.map_cons, List.count_cons]
    push_cast
    rw [add_comm]
    simp [single]

/-! ### Short loops and fans -/

@[simp] theorem along_singleton (a : Nat) : w.along [a] = 0 := by
  simp [along, cyclicPairs, w.self]

/-- There and back is nothing. -/
@[simp] theorem along_pair (a b : Nat) : w.along [a, b] = 0 := by
  simp only [along, loopEdges, cyclicPairs, List.cons_append, List.nil_append, List.zip_cons_cons,
    List.zip_nil_right, sum_cons, sum_nil, add_zero]
  rw [w.comm b a, CharTwo.add_self_eq_zero]

theorem along_triple (a b c : Nat) :
    w.along [a, b, c] = w.weight a b + (w.weight b c + w.weight c a) := by
  simp [along, cyclicPairs]

/-- Turning a triangle over changes nothing. -/
theorem along_triple_swap (a b c : Nat) : w.along [a, c, b] = w.along [a, b, c] := by
  rw [along_triple, along_triple, w.comm a c, w.comm c b, w.comm b a]
  ring

/-- The weights along a path of vertices that count up. -/
private theorem sum_zip_range (first n : Nat) (last : Nat) :
    w.sum ((first :: List.range' (first + 1) n).zip (List.range' (first + 1) n ++ [last]))
      = ((List.range n).map fun i => w.weight (first + i) (first + i + 1)).sum
        + w.weight (first + n) last := by
  induction n generalizing first with
  | zero => simp
  | succ n ih =>
    rw [List.range'_succ, List.cons_append, List.zip_cons_cons, sum_cons, ih (first + 1),
      List.range_succ_eq_map, List.map_cons, List.sum_cons, List.map_map, ← add_assoc]
    congr 2
    · refine congrArg _ (List.map_congr_left fun i _ => ?_)
      simp only [Function.comp_apply, Nat.succ_eq_add_one]
      congr 1 <;> omega
    · omega

/-- The sides of a polygon whose corners count up. -/
theorem along_range_succ (n : Nat) :
    w.along (List.range (n + 1))
      = ((List.range n).map fun i => w.weight i (i + 1)).sum + w.weight n 0 := by
  have h := w.sum_zip_range 0 n 0
  rw [List.range_eq_range', List.range'_succ, along, loopEdges, cyclicPairs]
  simpa using h

/-- **Fans.** A fan has the weight of its polygon: it runs along the sides once and along every
    other edge twice. -/
theorem sum_fan (n : Nat) :
    ((fan (n + 3)).map fun t => w.along t.toList).sum = w.along (List.range (n + 3)) := by
  rw [along_range_succ, fan, show n + 3 - 2 = n + 1 by omega]
  induction n with
  | zero =>
    simp only [List.range_succ, List.range_zero, List.nil_append, List.cons_append, List.map_cons,
      List.map_nil, List.sum_cons, List.sum_nil, Triple.toList, along_triple]
    ring
  | succ n ih =>
    -- One triangle more, on the edge that led back: that edge is there twice now.
    have htwice := CharTwo.add_self_eq_zero (w.weight (n + 2) 0)
    rw [List.range_succ, List.map_append, List.map_append, List.sum_append, ih,
      List.range_succ (n := n + 2), List.map_append, List.sum_append]
    simp only [List.map_cons, List.map_nil, List.sum_cons, List.sum_nil, Triple.toList, along_triple,
      add_zero]
    rw [w.comm 0 (n + 1 + 1), show n + 1 + 1 = n + 2 from rfl, show n + 1 + 2 = n + 2 + 1 from rfl]
    linear_combination htwice

end EdgeWeight

/-! ### Clippers -/

/-- An answer with as many triangles as a polygon of `n` corners needs has its corners among those,
    and runs along every edge an even or odd number of times as the polygon does. -/
structure FairAnswer (n : Nat) (triangles : List (Triple Nat)) : Prop where
  lt : ∀ t ∈ triangles, ∀ i ∈ t.toList, i < n
  parity : ∀ i j, i ≠ j → timesAlong (triangles.map Triple.toList) (i, j) % 2
    = timesAlong [List.range n] (i, j) % 2

/-- A clipper whose answers are fair whenever they have the number of triangles that the polygon
    needs. -/
def FairClipper (α : Type) [Clipper α] : Prop :=
  ∀ (polygon : List (Planar α)) (triangles : List (Triple Nat)), 3 < polygon.length →
    Clipper.clip polygon = some triangles → triangles.length = polygon.length - 2 →
      FairAnswer polygon.length triangles

/-- Faces do not run along an edge from or to a vertex beyond their corners. -/
theorem timesAlong_eq_zero {faces : List Face} {n i j : Nat} (h : ∀ face ∈ faces, ∀ k ∈ face, k < n)
    (hij : ¬ (i < n ∧ j < n)) : timesAlong faces (i, j) = 0 := by
  refine List.count_eq_zero_of_not_mem fun hmem => hij ?_
  obtain ⟨⟨a, b⟩, he, hside⟩ := List.mem_map.mp hmem
  obtain ⟨face, hface, he⟩ := List.mem_flatMap.mp he
  obtain ⟨ha, hb⟩ := mem_of_mem_cyclicPairs he
  rcases side_eq_side_iff.mp hside with heq | heq <;> obtain ⟨rfl, rfl⟩ := Prod.mk.inj heq
  · exact ⟨h face hface _ ha, h face hface _ hb⟩
  · exact ⟨h face hface _ hb, h face hface _ ha⟩

/-- Only the edges between corners have to be looked at. -/
theorem fairAnswer_iff {n : Nat} {triangles : List (Triple Nat)} :
    FairAnswer n triangles ↔ (∀ t ∈ triangles, ∀ i ∈ t.toList, i < n) ∧
      ∀ i < n, ∀ j < n, i ≠ j → timesAlong (triangles.map Triple.toList) (i, j) % 2
        = timesAlong [List.range n] (i, j) % 2 := by
  refine ⟨fun h => ⟨h.lt, fun i _ j _ => h.parity i j⟩, fun ⟨hlt, hparity⟩ => ⟨hlt, ?_⟩⟩
  intro i j hne
  by_cases hij : i < n ∧ j < n
  · exact hparity i hij.1 j hij.2 hne
  · rw [timesAlong_eq_zero (n := n) (by simpa using hlt) hij, timesAlong_eq_zero (n := n) (by simp) hij]

instance (n : Nat) (triangles : List (Triple Nat)) : Decidable (FairAnswer n triangles) :=
  decidable_of_iff' _ fairAnswer_iff

namespace EdgeWeight

variable (w : EdgeWeight)

/-- Fair answers have the weight of the polygon. -/
theorem sum_of_fairAnswer {n : Nat} {triangles : List (Triple Nat)} (h : FairAnswer n triangles) :
    (triangles.map fun t => w.along t.toList).sum = w.along (List.range n) := by
  have hsum := w.sum_congr h.parity
  rw [List.flatMap_singleton, sum_flatMap_loopEdges, List.map_map] at hsum
  exact hsum

variable {α : Type} [Scalar α]

theorem along_facing (points : Array (Point α)) (normal : Vec α) (t : Triple Nat) :
    w.along (facing points normal t).toList = w.along t.toList := by
  unfold facing
  dsimp only
  split
  · exact w.along_triple_swap t.a t.b t.c
  · rfl

/-- **Polygons.** The triangles that a polygon is cut into have its weight, however it is cut. -/
theorem sum_cutPolygon [Clipper α] (hclip : FairClipper α) {points : List (Point α)}
    (hlen : 3 ≤ points.length) :
    ((cutPolygon points).map fun t => w.along t.toList).sum = w.along (List.range points.length) := by
  have hfan : ∀ n, 3 ≤ n → ((fan n).map fun t => w.along t.toList).sum = w.along (List.range n) := by
    intro n hn
    obtain ⟨k, rfl⟩ := Nat.exists_eq_add_of_le' hn
    exact w.sum_fan k
  unfold cutPolygon
  split
  · exact absurd hlen (by simp)
  · exact absurd hlen (by simp)
  · exact absurd hlen (by simp)
  · exact add_zero _
  · next first rest _ _ _ =>
    have hfour : 3 < (first :: rest).length := by
      rcases rest with _ | ⟨b, _ | ⟨c, _ | ⟨d, later⟩⟩⟩ <;> simp_all
    dsimp only
    split
    · exact hfan _ hlen
    · next normal _ =>
      rw [List.map_map, Function.comp_def]
      simp only [along_facing]
      -- Either the answer is taken, and then it is fair, or there is a fan.
      cases hanswer : (Clipper.clip ((first :: rest).map fun p =>
          (PlaneBasis.ofNormal normal).flatten (p - first))).filter (covers (first :: rest).length) with
      | none => exact hfan _ hlen
      | some triangles =>
        obtain ⟨hclipped, hcovers⟩ := Option.filter_eq_some_iff.mp hanswer
        have hfair := hclip _ triangles (by simpa using hfour) hclipped
          (by simpa using (covers_iff.mp hcovers).1)
        rw [List.length_map] at hfair
        exact w.sum_of_fairAnswer hfair

end EdgeWeight

/-! ### Faces -/

/-- What a face is cut into: nothing below three corners, the face itself with three, and with more
    two triangles fewer than corners, over them. -/
structure IsCut (face : Face) (pieces : List Face) : Prop where
  nothing : face.length ≤ 2 → pieces = []
  whole : face.length = 3 → pieces = [face]
  triangles : 3 < face.length → pieces.length = face.length - 2 ∧
    ∀ piece ∈ pieces, piece.length = 3 ∧ piece ⊆ face

section Faces

variable {cut : Face → List (Triple Nat)}

theorem isCut_cutFace (hcut : ∀ face, covers face.length (cut face) = true) (face : Face) :
    IsCut face (cutFace cut face) := by
  refine ⟨fun hlen => ?_, fun hlen => ?_, fun _ => ⟨length_cutFace hcut face, fun piece =>
    mem_cutFace hcut⟩⟩
  · have := length_cutFace hcut face
    exact List.eq_nil_of_length_eq_zero (by omega)
  · obtain ⟨a, b, c, rfl⟩ := List.length_eq_three.mp hlen
    rfl

/-- Faces of three corners are not cut. -/
theorem triangulate_eq_self {faces : List Face} (h : ∀ face ∈ faces, face.length = 3) :
    triangulate cut faces = faces := by
  rw [triangulate, List.flatMap_congr (g := fun face => [face]), List.flatMap_singleton']
  intro face hface
  obtain ⟨a, b, c, rfl⟩ := List.length_eq_three.mp (h face hface)
  rfl

/-- A face has the weight of the triangles that it is cut into. -/
theorem sum_cutFace (w : EdgeWeight) {face : Face}
    (hcut : 3 ≤ face.length → ∀ w : EdgeWeight,
      ((cut face).map fun t => w.along t.toList).sum = w.along (List.range face.length)) :
    ((cutFace cut face).map w.along).sum = w.along face := by
  unfold cutFace
  split
  · rfl
  · exact (w.along_singleton _).symm
  · exact (w.along_pair _ _).symm
  · simp
  · next h₀ h₁ h₂ h₃ =>
    have hlen : 3 ≤ face.length := by
      rcases face with _ | ⟨a, _ | ⟨b, _ | ⟨c, later⟩⟩⟩ <;> simp_all
    -- Numbers of corners stand for the corners on both sides.
    have hface : face = (List.range face.length).map fun i => face.toArray.getD i 0 := by
      apply List.ext_getElem (by simp)
      intro i hi _
      simp [hi]
    have hsum := hcut hlen (w.rename fun i => face.toArray.getD i 0)
    rw [← EdgeWeight.along_map, ← hface] at hsum
    rw [List.map_map, ← hsum]
    exact congrArg List.sum (List.map_congr_left fun t _ =>
      w.along_map (fun i => face.toArray.getD i 0) t.toList)

end Faces

namespace Mesh

variable {α : Type} [Scalar α] [Clipper α]

/-- **Cutting opens no seam.** How often the faces run along an edge between different vertices is
    even or odd as before. -/
theorem timesAlong_triangulate (hclip : FairClipper α) (m : Mesh α) {u v : Nat} (huv : u ≠ v) :
    timesAlong m.triangulate.faces (u, v) % 2 = timesAlong m.faces (u, v) % 2 := by
  have hface : ∀ face : Face, ((cutFace (fun face => cutPolygon (m.positions face)) face).map
      (EdgeWeight.single u v huv).along).sum = (EdgeWeight.single u v huv).along face := by
    intro face
    refine sum_cutFace _ fun hlen w => ?_
    have hpositions : (m.positions face).length = face.length := List.length_map _
    rw [w.sum_cutPolygon hclip (hpositions.symm ▸ hlen), hpositions]
  have hsum : (EdgeWeight.single u v huv).sum (m.triangulate.faces.flatMap loopEdges)
      = (EdgeWeight.single u v huv).sum (m.faces.flatMap loopEdges) := by
    rw [EdgeWeight.sum_flatMap_loopEdges, EdgeWeight.sum_flatMap_loopEdges]
    show ((m.faces.flatMap _).map _).sum = _
    rw [List.map_flatMap, List.flatMap_def, List.sum_flatten, List.map_map]
    exact congrArg List.sum (List.map_congr_left fun face _ => hface face)
  rw [EdgeWeight.sum_single, EdgeWeight.sum_single] at hsum
  exact (ZMod.natCast_eq_natCast_iff' _ _ 2).mp hsum

/-- **Cutting into triangles.** On any mesh with faces it succeeds and leaves the vertices alone. Face
    by face, in order, there are the triangles that the face is cut into, and cutting again changes
    nothing if there is any. If the clipper is fair, every edge between different vertices is run
    along an even or odd number of times as before. -/
theorem apply_triangulate (hclip : FairClipper α) {m : Mesh α} (hne : m.faces ≠ []) :
    ∃ m', m.apply .triangulate = .ok m' ∧ m'.vertices = m.vertices ∧
      (∃ pieces, List.Forall₂ IsCut m.faces pieces ∧ m'.faces = pieces.flatten) ∧
      m'.isTriangulated = true ∧
      (m'.faces ≠ [] → m'.apply .triangulate = .ok m') ∧
      ∀ u v, u ≠ v → timesAlong m'.faces (u, v) % 2 = timesAlong m.faces (u, v) % 2 := by
  have hthree : ∀ face ∈ m.triangulate.faces, face.length = 3 :=
    fun face hface => (mem_triangulate m.covers_cutPolygon_positions hface).1
  have hagain : m.triangulate.triangulate = m.triangulate :=
    congrArg (Mesh.mk m.vertices) (triangulate_eq_self hthree)
  refine ⟨m.triangulate, apply_of_ne_nil hne _, rfl,
    ⟨m.faces.map (cutFace fun face => cutPolygon (m.positions face)), ?_, List.flatMap_def⟩, ?_, ?_,
    fun u v huv => m.timesAlong_triangulate hclip huv⟩
  · exact List.forall₂_map_right_iff.mpr (List.forall₂_same.mpr fun face _ =>
      isCut_cutFace m.covers_cutPolygon_positions face)
  · rw [isTriangulated, List.all_eq_true]
    exact fun face hface => beq_iff_eq.mpr (hthree face hface)
  · intro hfaces
    rw [apply_of_ne_nil hfaces]
    exact congrArg _ hagain

/-- The clipper of ears, with its answers checked. -/
@[reducible] def checkedClipper : Clipper Float where
  clip polygon := (earClip polygon).filter fun triangles => FairAnswer polygon.length triangles

/-- A polygon with a notch, one that comes back to its first corner, and a triangle. -/
def notched : Mesh Float where
  vertices := #[⟨5, 0, 0⟩, ⟨5, 0, 20⟩, ⟨5, 10, 20⟩, ⟨5, 10, 10⟩, ⟨5, 20, 10⟩, ⟨5, 20, 0⟩]
  faces := [[0, 1, 2, 3, 4, 5], [0, 5], [5, 4, 3], [0, 1, 2, 0, 4, 5]]

/-- The first polygon is cut by its ears and the third face becomes a fan. -/
theorem apply_triangulate_notched :
    @FairClipper Float checkedClipper ∧ notched.faces ≠ [] ∧
      ∃ m', @apply Float _ checkedClipper .triangulate notched = .ok m' ∧
        m'.faces = [[4, 5, 0], [0, 1, 2], [3, 4, 0], [0, 2, 3], [5, 4, 3], [0, 1, 2], [0, 2, 0],
          [0, 0, 4], [0, 4, 5]] ∧
        @apply Float _ checkedClipper .triangulate m' = .ok m' ∧
        ∀ u v, u ≠ v → timesAlong m'.faces (u, v) % 2 = timesAlong notched.faces (u, v) % 2 := by
  have hfair : @FairClipper Float checkedClipper := by
    intro polygon triangles _ hclip _
    exact of_decide_eq_true (Option.filter_eq_some_iff.mp hclip).2
  have hne : notched.faces ≠ [] := List.cons_ne_nil _ _
  obtain ⟨m', happly, -, -, -, hagain, hparity⟩ := @apply_triangulate Float _ checkedClipper hfair _ hne
  obtain rfl : @triangulate Float _ checkedClipper notched = m' :=
    @edit_eq_of_apply_eq_ok Float _ checkedClipper _ _ _ happly
  have hfaces : (@triangulate Float _ checkedClipper notched).faces = [[4, 5, 0], [0, 1, 2], [3, 4, 0],
      [0, 2, 3], [5, 4, 3], [0, 1, 2], [0, 2, 0], [0, 0, 4], [0, 4, 5]] := by decide +kernel
  exact ⟨hfair, hne, _, happly, hfaces, hagain (hfaces ▸ List.cons_ne_nil _ _), hparity⟩

end Mesh

end CollisionMesh
