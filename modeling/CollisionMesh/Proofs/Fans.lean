import CollisionMesh.Proofs.Crease
import CollisionMesh.Proofs.LeastForest
import CollisionMesh.Proofs.Sharpness
import Mathlib.Data.List.Pairwise
import Mathlib.Order.Bounds.Basic

namespace CollisionMesh

/-!
# Fans and the vertices that they take

The faces around a vertex fall into fans, and each fan is named by its first face. The fan of
the very first face keeps the vertex, and every other one is listed once among the copies. So
the corners of two faces are the same vertex afterwards just if they were before and the faces
are in one fan.

* `Creases.leader` — the first face of the fan of a face; `Creases.fans_eq`, `leader_mem`,
  `leader_le`, `leader_leader` — the fans by their leaders;
* `Mesh.leader_eq_iff` — two faces have the same leader iff a chain of hinged faces links them;
* `Creases.mem_laterFans_iff`, `Creases.mem_copies_iff`, `Creases.nodup_copies` — the copies;
* `Creases.corner_eq_self_iff`, `Creases.corner_eq_corner_iff`, `Creases.exists_corner_eq` — the
  vertices that fans take.
-/

namespace Creases

variable {c : Creases} {v f g : Nat}

/-! ### The faces around a vertex -/

/-- The faces around a vertex are those that have it as a corner. -/
theorem mem_incident : f ∈ c.incident v ↔ v ∈ c.faces.getD f [] := by
  rw [incident, List.mem_filter, List.mem_range, List.contains_iff_mem, and_iff_right_iff_imp]
  intro hv
  by_contra hf
  rw [Array.getD_eq_getD_getElem?, Array.getElem?_eq_none (Nat.le_of_not_lt hf)] at hv
  exact absurd hv List.not_mem_nil

/-- They are in face order. -/
theorem pairwise_incident (c : Creases) (v : Nat) : (c.incident v).Pairwise (· < ·) :=
  List.pairwise_lt_range.filter _

/-- So they start with the least one. -/
theorem head?_incident_of_isLeast (h : IsLeast {f | v ∈ c.faces.getD f []} g) :
    (c.incident v).head? = some g := by
  have hg : g ∈ c.incident v := mem_incident.mpr h.1
  have hsorted := c.pairwise_incident v
  cases haround : c.incident v with
  | nil =>
    rw [haround] at hg
    exact absurd hg List.not_mem_nil
  | cons first rest =>
    have hfirst : first ∈ c.incident v := haround ▸ List.mem_cons_self
    have hle : g ≤ first := h.2 (mem_incident.mp hfirst)
    rw [haround] at hg hsorted
    rcases List.mem_cons.mp hg with rfl | hrest
    · rfl
    · exact absurd ((List.pairwise_cons.mp hsorted).1 g hrest) (Nat.not_lt.mpr hle)

theorem nodup_incident (c : Creases) (v : Nat) : (c.incident v).Nodup :=
  List.nodup_range.filter _

/-- The fans around a vertex as classes of places in the list of faces around it. -/
def forest (c : Creases) (v : Nat) : LeastForest (c.incident v).length :=
  LeastForest.ofRelation _ fun i j =>
    c.linked v ((c.incident v).getD i 0) ((c.incident v).getD j 0)

/-- The first face of the fan around a vertex that a face is in. -/
def leader (c : Creases) (v f : Nat) : Nat :=
  (c.incident v).getD ((c.forest v).least ((c.incident v).idxOf f)) 0

/-- The place of a face around a vertex, and the face in it. -/
theorem getD_idxOf (h : f ∈ c.incident v) : (c.incident v).getD ((c.incident v).idxOf f) 0 = f := by
  rw [List.getD_eq_getElem?_getD, List.getElem?_eq_getElem (List.idxOf_lt_length_of_mem h),
    List.getElem_idxOf, Option.getD_some]

/-- Faces in different places differ. -/
theorem idxOf_getD {i : Nat} (h : i < (c.incident v).length) :
    (c.incident v).idxOf ((c.incident v).getD i 0) = i := by
  rw [List.getD_eq_getElem?_getD, List.getElem?_eq_getElem h, Option.getD_some]
  exact (c.nodup_incident v).idxOf_getElem i h

/-- A leader stands in the least place of its fan. -/
theorem idxOf_leader (h : f ∈ c.incident v) :
    (c.incident v).idxOf (c.leader v f) = (c.forest v).least ((c.incident v).idxOf f) :=
  idxOf_getD (LeastForest.least_lt _ (List.idxOf_lt_length_of_mem h))

theorem leader_mem (h : f ∈ c.incident v) : c.leader v f ∈ c.incident v := by
  have hlt := LeastForest.least_lt (c.forest v) (List.idxOf_lt_length_of_mem h)
  rw [leader, List.getD_eq_getElem?_getD, List.getElem?_eq_getElem hlt, Option.getD_some]
  exact List.getElem_mem hlt

/-- No face of a fan comes before its leader. -/
theorem leader_le (h : f ∈ c.incident v) : c.leader v f ≤ f := by
  have hle := (c.forest v).least_le ((c.incident v).idxOf f)
  have hlt := List.idxOf_lt_length_of_mem h
  conv_rhs => rw [← getD_idxOf h]
  rw [leader]
  rcases Nat.eq_or_lt_of_le hle with heq | hless
  · rw [heq]
  · refine Nat.le_of_lt ?_
    rw [List.getD_eq_getElem?_getD, List.getD_eq_getElem?_getD,
      List.getElem?_eq_getElem (Nat.lt_trans hless hlt), List.getElem?_eq_getElem hlt]
    exact List.pairwise_iff_getElem.mp (c.pairwise_incident v) _ _ _ _ hless

/-- A leader leads itself. -/
theorem leader_leader (h : f ∈ c.incident v) : c.leader v (c.leader v f) = c.leader v f := by
  conv_lhs => rw [leader, idxOf_leader h, LeastForest.least_least]
  rfl

/-- The fans around a vertex: its faces with their leaders. -/
theorem fans_eq (c : Creases) (v : Nat) :
    c.fans v = (c.incident v).map fun f => (f, c.leader v f) := by
  apply List.ext_getElem
  · simp [fans]
  · intro i hi _
    have hlt : i < (c.incident v).length := by simpa [fans] using hi
    have hplace := (c.nodup_incident v).idxOf_getElem i hlt
    simp only [fans, List.getElem_map, List.getElem_zipIdx, Nat.zero_add, leader, hplace]
    rfl

/-- Looking up a face around a vertex finds its leader. -/
theorem lookup_fans (h : f ∈ c.incident v) : (c.fans v).lookup f = some (c.leader v f) := by
  rw [fans_eq]
  generalize c.incident v = around at h
  induction around with
  | nil => exact absurd h List.not_mem_nil
  | cons g rest ih =>
    rw [List.map_cons, List.lookup_cons]
    by_cases hfg : f = g
    · rw [hfg, beq_self_eq_true]
    · rw [beq_false_of_ne hfg]
      exact ih ((List.mem_cons.mp h).resolve_left hfg)

/-! ### Copies -/

/-- The later fans are those of the leaders but the very first face. -/
theorem laterFans_fans (c : Creases) (v : Nat) :
    FanTable.laterFans (c.fans v) = ((c.incident v).filter fun f => f == c.leader v f).drop 1 := by
  rw [FanTable.laterFans, fans_eq, List.filter_map, ← List.map_drop, List.map_map]
  exact List.map_id _

theorem mem_laterFans_iff :
    f ∈ FanTable.laterFans (c.fans v) ↔
      f ∈ c.incident v ∧ c.leader v f = f ∧ (c.incident v).head? ≠ some f := by
  rw [laterFans_fans]
  cases haround : c.incident v with
  | nil => simp
  | cons first rest =>
    have hnodup := c.nodup_incident v
    rw [haround, List.nodup_cons] at hnodup
    -- The first face leads its own fan, as no face comes before it.
    have hfirst : c.leader v first = first := by
      have hmem : first ∈ c.incident v := haround ▸ List.mem_cons_self
      refine Nat.le_antisymm (leader_le hmem) ?_
      have hsorted := c.pairwise_incident v
      have hleader := leader_mem hmem
      rw [haround] at hsorted hleader
      rcases List.mem_cons.mp hleader with heq | hrest
      · exact Nat.le_of_eq heq.symm
      · exact Nat.le_of_lt ((List.pairwise_cons.mp hsorted).1 _ hrest)
    rw [List.filter_cons_of_pos (by rw [hfirst, beq_self_eq_true]), List.drop_one, List.tail_cons,
      List.mem_filter, beq_iff_eq, List.mem_cons, List.head?_cons, Ne, Option.some.injEq]
    constructor
    · rintro ⟨hrest, hlead⟩
      exact ⟨.inr hrest, hlead.symm, fun heq => hnodup.1 (heq ▸ hrest)⟩
    · rintro ⟨hmem, hlead, hne⟩
      exact ⟨hmem.resolve_left (Ne.symm hne), hlead.symm⟩

@[simp] theorem size_table (c : Creases) (n : Nat) : (c.table n).size = n := by
  rw [table, List.size_toArray, List.length_map, List.length_range]

theorem getD_table {n : Nat} (h : v < n) : (c.table n).getD v [] = c.fans v := by
  rw [table, Array.getD_eq_getD_getElem?, List.getElem?_toArray, List.getElem?_map,
    List.getElem?_range h]
  rfl

/-- The copies, vertex by vertex. -/
theorem copies_table (c : Creases) (n : Nat) :
    (c.table n).copies = (List.range n).flatMap fun v =>
      (FanTable.laterFans (c.fans v)).map fun f => (v, f) := by
  have hplaces : ((List.range n).map c.fans).zipIdx
      = (List.range n).map fun v => (c.fans v, v) := by
    apply List.ext_getElem (by simp)
    intro v hv _
    simp
  rw [FanTable.copies, table, List.toList_toArray, hplaces, List.flatMap_map]

theorem mem_copies_iff {n : Nat} :
    (v, f) ∈ (c.table n).copies ↔ v < n ∧ f ∈ FanTable.laterFans (c.fans v) := by
  rw [copies_table, List.mem_flatMap]
  constructor
  · rintro ⟨w, hw, hmem⟩
    obtain ⟨g, hg, heq⟩ := List.mem_map.mp hmem
    obtain ⟨rfl, rfl⟩ := Prod.mk.inj heq
    exact ⟨List.mem_range.mp hw, hg⟩
  · rintro ⟨hv, hf⟩
    exact ⟨v, List.mem_range.mpr hv, List.mem_map.mpr ⟨f, hf, rfl⟩⟩

/-- No fan is listed twice. -/
theorem nodup_copies (c : Creases) (n : Nat) : (c.table n).copies.Nodup := by
  rw [copies_table, List.nodup_flatMap]
  constructor
  · intro v _
    rw [laterFans_fans]
    exact (((c.nodup_incident v).filter _).sublist (List.drop_sublist 1 _)).map
      fun f g h => (Prod.mk.inj h).2
  · -- Copies of different vertices differ in the vertex.
    refine List.nodup_range.imp fun hne => ?_
    intro copy hv hw
    obtain ⟨f, -, rfl⟩ := List.mem_map.mp hv
    obtain ⟨g, -, heq⟩ := List.mem_map.mp hw
    exact hne (Prod.mk.inj heq).1.symm

/-! ### The vertices that fans take -/

section Corners

variable {n w : Nat}

/-- The fan of a face is among the copies just if it is not the first fan. -/
theorem mem_copies_leader_iff (hv : v < n) (hf : f ∈ c.incident v) :
    (v, c.leader v f) ∈ (c.table n).copies ↔ (c.incident v).head? ≠ some (c.leader v f) := by
  rw [mem_copies_iff, mem_laterFans_iff]
  exact ⟨fun h => h.2.2.2, fun h => ⟨hv, leader_mem hf, leader_leader hf, h⟩⟩

/-- A fan takes its copy, numbered from the old vertices on, or the vertex itself. -/
theorem corner_table (hv : v < n) (hf : f ∈ c.incident v) :
    (c.table n).corner (c.table n).copies f v =
      if (c.incident v).head? = some (c.leader v f) then v
      else n + (c.table n).copies.idxOf (v, c.leader v f) := by
  have hmem := mem_copies_leader_iff hv hf
  rw [FanTable.corner, getD_table hv, lookup_fans hf, size_table, List.idxOf_eq_getD_idxOf?]
  dsimp only
  cases hk : (c.table n).copies.idxOf? (v, c.leader v f) with
  | none =>
    have hnot := List.idxOf?_eq_none_iff.mp hk
    rw [if_pos (Classical.not_not.mp (mt hmem.mpr hnot))]
  | some k =>
    have hin : (v, c.leader v f) ∈ (c.table n).copies := by
      by_contra hnot
      rw [List.idxOf?_eq_none_iff.mpr hnot] at hk
      exact absurd hk (by simp)
    rw [if_neg (hmem.mp hin), Option.getD_some]

/-- The first fan keeps the vertex. -/
theorem corner_eq_self_iff (hv : v < n) (hf : f ∈ c.incident v) :
    (c.table n).corner (c.table n).copies f v = v ↔
      (c.incident v).head? = some (c.leader v f) := by
  rw [corner_table hv hf]
  split
  · next h => exact iff_of_true rfl h
  · next h => exact iff_of_false (by omega) h

/-- **Fans and vertices.** Two faces take the same vertex for their corners iff these were the
    same vertex, and the faces are in the same fan around it. -/
theorem corner_eq_corner_iff (hv : v < n) (hw : w < n) (hf : f ∈ c.incident v)
    (hg : g ∈ c.incident w) :
    (c.table n).corner (c.table n).copies f v = (c.table n).corner (c.table n).copies g w ↔
      v = w ∧ c.leader v f = c.leader w g := by
  rw [corner_table hv hf, corner_table hw hg]
  have hf' := mem_copies_leader_iff hv hf
  have hg' := mem_copies_leader_iff hw hg
  -- Old vertices come before all copies, so one fan keeps its vertex iff the other does.
  constructor
  · split <;> split
    · next h h' =>
      rintro rfl
      exact ⟨rfl, Option.some.inj (h.symm.trans h')⟩
    · omega
    · omega
    · next h h' =>
      intro heq
      have hidx := Nat.add_left_cancel heq
      exact Prod.mk.inj ((List.idxOf_inj (hf'.mpr h)).mp hidx)
  · rintro ⟨rfl, hlead⟩
    rw [hlead]

/-- Every copy is taken. -/
theorem exists_corner_eq {k : Nat} (hk : k < (c.table n).copies.length) :
    ∃ v f, f ∈ c.incident v ∧ (c.table n).corner (c.table n).copies f v = n + k := by
  obtain ⟨⟨v, f⟩, hcopy⟩ : ∃ copy, (c.table n).copies[k] = copy := ⟨_, rfl⟩
  obtain ⟨hv, hlater⟩ := mem_copies_iff.mp (hcopy ▸ List.getElem_mem hk)
  obtain ⟨hf, hlead, hne⟩ := mem_laterFans_iff.mp hlater
  refine ⟨v, f, hf, ?_⟩
  rw [corner_table hv hf, hlead, if_neg hne, ← hcopy, (c.nodup_copies n).idxOf_getElem k hk]

end Corners

end Creases

/-! ### Fans of a mesh -/

namespace Mesh

variable {α : Type} [Scalar α] {angle : α} {m : Mesh α} {v f g : Nat}

theorem mem_incident_creases :
    f ∈ (m.creases angle).incident v ↔ v ∈ m.faces.toArray.getD f [] :=
  Creases.mem_incident

/-- Linked places around a vertex are linked faces. -/
private theorem sameFan_of_eqvGen {i j : Fin ((m.creases angle).incident v).length}
    (h : Relation.EqvGen (LeastForest.Linked fun i j => (m.creases angle).linked v
      (((m.creases angle).incident v).getD i 0) (((m.creases angle).incident v).getD j 0)) i j) :
    m.SameFan angle v (((m.creases angle).incident v).getD i 0)
      (((m.creases angle).incident v).getD j 0) := by
  induction h with
  | rel i j hij => exact .single (linked_creases_iff.mp hij)
  | refl i => exact .refl
  | symm i j _ ih => exact ih.symm
  | trans i j k _ _ ihij ihjk => exact ihij.trans ihjk

/-- Linked faces stand in linked places around the vertex. -/
private theorem eqvGen_of_sameFan (hf : f ∈ (m.creases angle).incident v)
    (h : m.SameFan angle v f g) :
    ∃ hg : ((m.creases angle).incident v).idxOf g < ((m.creases angle).incident v).length,
      Relation.EqvGen (LeastForest.Linked fun i j => (m.creases angle).linked v
        (((m.creases angle).incident v).getD i 0) (((m.creases angle).incident v).getD j 0))
        ⟨((m.creases angle).incident v).idxOf f, List.idxOf_lt_length_of_mem hf⟩
        ⟨((m.creases angle).incident v).idxOf g, hg⟩ := by
  induction h with
  | refl => exact ⟨List.idxOf_lt_length_of_mem hf, .refl _⟩
  | tail _ hstep ih =>
    obtain ⟨hk, ih⟩ := ih
    -- One step more is an edge between two faces that both have the vertex.
    have hmem := hstep.mem
    have hk' : _ ∈ (m.creases angle).incident v := mem_incident_creases.mpr hmem.1
    have hg' : _ ∈ (m.creases angle).incident v := mem_incident_creases.mpr hmem.2
    refine ⟨List.idxOf_lt_length_of_mem hg', ih.trans _ _ _ (.rel _ _ ?_)⟩
    show (m.creases angle).linked v _ _ = true
    rw [Creases.getD_idxOf hk', Creases.getD_idxOf hg']
    exact linked_creases_iff.mpr hstep

/-- **Leaders tell fans apart.** Two faces around a vertex have the same leader iff a chain of
    hinged faces links them. -/
theorem leader_eq_iff (hf : v ∈ m.faces.toArray.getD f []) (hg : v ∈ m.faces.toArray.getD g []) :
    (m.creases angle).leader v f = (m.creases angle).leader v g ↔ m.SameFan angle v f g := by
  have hf : f ∈ (m.creases angle).incident v := mem_incident_creases.mpr hf
  have hg : g ∈ (m.creases angle).incident v := mem_incident_creases.mpr hg
  have hplaces : (m.creases angle).leader v f = (m.creases angle).leader v g ↔
      ((m.creases angle).forest v).least (((m.creases angle).incident v).idxOf f)
        = ((m.creases angle).forest v).least (((m.creases angle).incident v).idxOf g) := by
    rw [← Creases.idxOf_leader hf, ← Creases.idxOf_leader hg]
    exact (List.idxOf_inj (Creases.leader_mem hf)).symm
  rw [hplaces, Creases.forest, LeastForest.least_ofRelation_iff _ (List.idxOf_lt_length_of_mem hf)
    (List.idxOf_lt_length_of_mem hg)]
  constructor
  · intro h
    have := sameFan_of_eqvGen h
    rwa [Creases.getD_idxOf hf, Creases.getD_idxOf hg] at this
  · intro h
    obtain ⟨_, h⟩ := eqvGen_of_sameFan hf h
    exact h

end Mesh

end CollisionMesh
