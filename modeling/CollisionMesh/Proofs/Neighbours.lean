import CollisionMesh.Proofs.Straighten

namespace CollisionMesh

/-!
# Neighbours kept up to date

While corners are removed the neighbours of the vertices are not looked up but kept in a table, and
so are the faces that use a vertex. The table is exact at every step, so that the removal comes to
that by the faces alone.

* `NeighbourTable.Exact` — a table lists the neighbours in some faces;
* `exact_ofFaces`, `Removable.exact_bypass` — so does the table of some faces, and after a removal
  the changed one for the faces that are left;
* `mem_usersByVertex_iff` — which faces use a vertex;
* `Straightening.Matches`, `Straightening.Matches.tryVertex` — a state of the removal by the faces;
* `straightenFaces_eq` — both removals are the same.
-/

/-! ### The table of some faces -/

namespace NeighbourTable

variable {t : NeighbourTable} {faces : List Face} {v w b : Nat}

/-- A table lists the neighbours of every vertex in some faces. -/
def Exact (t : NeighbourTable) (faces : List Face) : Prop :=
  ∀ v b, b ∈ t.of v ↔ b ∈ neighbours faces v

theorem of_change (v : Nat) (f : Std.TreeSet Nat → Std.TreeSet Nat) (t : NeighbourTable) (w : Nat) :
    (t.change v f).of w = if v = w then f (t.of v) else t.of w := by
  rw [of, change, Std.HashMap.getD_insert]
  simp only [beq_iff_eq]
  rfl

@[simp] theorem of_change_self (v : Nat) (f : Std.TreeSet Nat → Std.TreeSet Nat) (t : NeighbourTable) :
    (t.change v f).of v = f (t.of v) := by
  rw [of_change, if_pos rfl]

theorem of_change_of_ne (h : v ≠ w) (f : Std.TreeSet Nat → Std.TreeSet Nat) :
    (t.change v f).of w = t.of w := by
  rw [of_change, if_neg h]

/-- An edge more makes its ends neighbours. -/
theorem mem_addEdge {edge : Nat × Nat} :
    b ∈ (t.addEdge edge).of v ↔ b ∈ t.of v ∨ b ≠ v ∧ (edge = (v, b) ∨ edge = (b, v)) := by
  obtain ⟨x, y⟩ := edge
  unfold addEdge
  by_cases hxy : x = y
  · subst hxy
    rw [if_pos rfl]
    grind
  · rw [if_neg hxy]
    by_cases hy : y = v
    · subst hy
      rw [of_change_self, of_change_of_ne hxy, Std.TreeSet.mem_insert,
        Std.LawfulEqCmp.compare_eq_iff_eq]
      grind
    · rw [of_change_of_ne hy, of_change]
      split
      · next hx =>
        subst hx
        rw [Std.TreeSet.mem_insert, Std.LawfulEqCmp.compare_eq_iff_eq]
        grind
      · grind

/-- Edges more make their ends neighbours. -/
theorem mem_foldl_addEdge {edges : List (Nat × Nat)} :
    b ∈ (edges.foldl addEdge t).of v ↔
      b ∈ t.of v ∨ b ≠ v ∧ ((v, b) ∈ edges ∨ (b, v) ∈ edges) := by
  induction edges generalizing t with
  | nil => simp
  | cons edge rest ih =>
    rw [List.foldl_cons, ih, mem_addEdge, List.mem_cons, List.mem_cons]
    grind

/-- The table of some faces lists the neighbours in them. -/
theorem exact_ofFaces (faces : List Face) : (ofFaces faces).Exact faces := by
  intro v b
  have hnone : b ∉ (⟨∅⟩ : NeighbourTable).of v := by simp [of]
  rw [ofFaces, mem_foldl_addEdge, or_iff_right hnone, mem_neighbours, List.mem_flatMap,
    List.mem_flatMap, ← exists_or]
  simp only [← and_or_left]

/-- A table that lists the neighbours in some faces lists them in index order. -/
theorem Exact.toList_of (h : t.Exact faces) (v : Nat) : (t.of v).toList = neighbours faces v := by
  have hordered : (t.of v).toList.Pairwise (· < ·) :=
    Std.TreeSet.ordered_toList.imp Nat.compare_eq_lt.mp
  refine hordered.eq_of_mem_iff (pairwise_neighbours faces v) ?_
  intro b
  rw [Std.TreeSet.mem_toList]
  exact h v b

/-- A vertex that is bypassed has no neighbour, and its two neighbours have each other instead. -/
theorem mem_bypass {x v a b w : Nat} (hav : a ≠ v) (hbv : b ≠ v) (hab : a ≠ b) :
    x ∈ (t.bypass v a b).of w ↔ w ≠ v ∧ (x ∈ t.of w ∧ (x = v → w ≠ a ∧ w ≠ b) ∨
      w = a ∧ x = b ∨ w = b ∧ x = a) := by
  have hinsert : ∀ (s : Std.TreeSet Nat) y, x ∈ (s.erase v).insert y ↔ x = y ∨ x ≠ v ∧ x ∈ s := by
    intro s y
    rw [Std.TreeSet.mem_insert, Std.TreeSet.mem_erase, Std.LawfulEqCmp.compare_eq_iff_eq, ne_eq,
      Std.LawfulEqCmp.compare_eq_iff_eq, eq_comm (a := y), eq_comm (a := v)]
  unfold bypass
  by_cases hb : w = b
  · subst hb
    rw [of_change_self, of_change_of_ne hab, of_change_of_ne hbv.symm, hinsert]
    grind
  by_cases ha : w = a
  · subst ha
    rw [of_change_of_ne (Ne.symm hb), of_change_self, of_change_of_ne hav.symm, hinsert]
    grind
  rw [of_change_of_ne (Ne.symm hb), of_change_of_ne (Ne.symm ha)]
  by_cases hv : w = v
  · subst hv
    rw [of_change_self]
    simp
  · rw [of_change_of_ne (Ne.symm hv)]
    grind

end NeighbourTable

/-! ### The table after a removal -/

namespace Removable

variable {straight : Nat → Nat → Nat → Bool} {faces : List Face} {v a b w x : Nat}

/-- There is a face that leads over the vertex. -/
theorem exists_passage (h : Removable straight faces v a b) :
    ∃ face ∈ faces, ∃ p q, (p, v) ∈ loopEdges face ∧ (v, q) ∈ loopEdges face := by
  obtain ⟨-, face, hface, he⟩ := mem_neighbours.mp (h.mem_neighbours_iff.mpr (.inl rfl))
  have hmem : v ∈ face :=
    he.elim (fun he => (mem_of_mem_cyclicPairs he).1) fun he => (mem_of_mem_cyclicPairs he).2
  obtain ⟨p, q, hto, hfrom, -⟩ := exists_passage_of_canSpare (h.spare face hface hmem)
  exact ⟨face, hface, p, q, hto, hfrom⟩

/-- Neighbours in the faces that are left after a removal: those of before without the vertex that
    went, and its two neighbours of each other. -/
theorem mem_neighbours_map (h : Removable straight faces v a b) :
    x ∈ neighbours (faces.map fun face => face.filter (· != v)) w ↔
      w ≠ v ∧ (x ∈ neighbours faces w ∧ x ≠ v ∨ w = a ∧ x = b ∨ w = b ∧ x = a) := by
  have hedge : ∀ {face}, face ∈ faces → ∀ {e}, e ∈ loopEdges (face.filter (· != v)) ↔
      e.1 ≠ v ∧ e.2 ≠ v ∧
        (e ∈ loopEdges face ∨ (e.1, v) ∈ loopEdges face ∧ (v, e.2) ∈ loopEdges face) :=
    fun hface => mem_edges_filter_iff (h.spare _ hface)
  obtain ⟨hav, hbv, hab⟩ := h.ne
  simp only [@mem_neighbours (faces.map fun face => face.filter (· != v)), List.mem_map,
    exists_exists_and_eq_and]
  constructor
  · rintro ⟨hne, face, hface, he | he⟩
    · obtain ⟨hw, hx, hold | ⟨hto, hfrom⟩⟩ := (hedge hface).mp he
      · exact ⟨hw, .inl ⟨mem_neighbours.mpr ⟨hne, face, hface, .inl hold⟩, hx⟩⟩
      · exact ⟨hw, .inr (h.eq_or_eq_of_edges hface hto hfrom)⟩
    · obtain ⟨hx, hw, hold | ⟨hto, hfrom⟩⟩ := (hedge hface).mp he
      · exact ⟨hw, .inl ⟨mem_neighbours.mpr ⟨hne, face, hface, .inr hold⟩, hx⟩⟩
      · refine ⟨hw, .inr ?_⟩
        exact (h.eq_or_eq_of_edges hface hto hfrom).symm.imp And.symm And.symm
  · rintro ⟨hw, ⟨hold, hx⟩ | hnew⟩
    · obtain ⟨hne, face, hface, he⟩ := mem_neighbours.mp hold
      exact ⟨hne, face, hface, he.imp (fun he => (hedge hface).mpr ⟨hw, hx, .inl he⟩)
        fun he => (hedge hface).mpr ⟨hx, hw, .inl he⟩⟩
    -- One face leads over the vertex, in the one or the other direction.
    · obtain ⟨face, hface, p, q, hto, hfrom⟩ := h.exists_passage
      have hpassage : ∀ {e : Nat × Nat}, e = (p, q) → e.1 ≠ v → e.2 ≠ v →
          e ∈ loopEdges (face.filter (· != v)) :=
        fun heq h₁ h₂ => (hedge hface).mpr ⟨h₁, h₂, .inr (heq ▸ ⟨hto, hfrom⟩)⟩
      rcases h.eq_or_eq_of_edges hface hto hfrom with ⟨rfl, rfl⟩ | ⟨rfl, rfl⟩ <;>
        rcases hnew with ⟨rfl, rfl⟩ | ⟨rfl, rfl⟩
      · exact ⟨hab.symm, face, hface, .inl (hpassage rfl hav hbv)⟩
      · exact ⟨hab, face, hface, .inr (hpassage rfl hav hbv)⟩
      · exact ⟨hab.symm, face, hface, .inr (hpassage rfl hbv hav)⟩
      · exact ⟨hab, face, hface, .inl (hpassage rfl hbv hav)⟩

/-- **Removals.** A table that was exact is exact for the faces that are left. -/
theorem exact_bypass (h : Removable straight faces v a b) {t : NeighbourTable} (ht : t.Exact faces) :
    (t.bypass v a b).Exact (faces.map fun face => face.filter (· != v)) := by
  intro w x
  obtain ⟨hav, hbv, hab⟩ := h.ne
  rw [NeighbourTable.mem_bypass hav hbv hab, h.mem_neighbours_map, ht]
  -- The vertex was a neighbour of its two neighbours only.
  have hback : x ∈ neighbours faces w → x = v → w = a ∨ w = b := by
    rintro hx rfl
    exact h.mem_neighbours_iff.mp (mem_neighbours_comm.mp hx)
  grind

end Removable

/-! ### The faces that use a vertex -/

/-- One face more uses its corners. -/
theorem mem_foldl_users {f g v : Nat} {face : Face} {t : Std.HashMap Nat (Array Nat)} :
    g ∈ (face.foldl (fun t v =>
        let users := t.getD v #[]
        if users.back? = some f then t else t.insert v (users.push f)) t).getD v #[] ↔
      g ∈ t.getD v #[] ∨ g = f ∧ v ∈ face := by
  induction face generalizing t with
  | nil => simp
  | cons w rest ih =>
    rw [List.foldl_cons, ih]
    dsimp only
    split
    · next hback =>
      have hmem := Array.mem_of_back? hback
      grind
    · rw [Std.HashMap.getD_insert]
      grind

/-- A face is listed for a vertex iff it uses it. -/
theorem mem_usersByVertex_iff {faces : List Face} {f v : Nat} :
    f ∈ (usersByVertex faces).getD v #[] ↔ ∃ face, faces[f]? = some face ∧ v ∈ face := by
  have hfold : ∀ (entries : List (Face × Nat)) (t : Std.HashMap Nat (Array Nat)),
      f ∈ (entries.foldl (fun t entry => entry.1.foldl (fun t v =>
        let users := t.getD v #[]
        if users.back? = some entry.2 then t else t.insert v (users.push entry.2)) t) t).getD v #[] ↔
      f ∈ t.getD v #[] ∨ ∃ entry ∈ entries, f = entry.2 ∧ v ∈ entry.1 := by
    intro entries
    induction entries with
    | nil => simp
    | cons entry rest ih =>
      intro t
      rw [List.foldl_cons, ih, mem_foldl_users]
      simp only [List.exists_mem_cons_iff, or_assoc]
  refine (hfold faces.zipIdx ∅).trans ?_
  rw [or_iff_right (by simp)]
  constructor
  · rintro ⟨⟨face, f'⟩, hentry, rfl, hv⟩
    exact ⟨face, List.mem_zipIdx_iff_getElem?.mp hentry, hv⟩
  · rintro ⟨face, hface, hv⟩
    exact ⟨(face, f), List.mem_zipIdx_iff_getElem?.mpr hface, rfl, hv⟩

/-! ### The removal -/

/-- Faces that lose a vertex one by one, some of them perhaps again. -/
theorem getElem?_foldl_modify (users : List Nat) (v : Nat) (faces : Array Face) (f : Nat) :
    (users.foldl (fun faces f => faces.modify f fun face => face.filter (· != v)) faces)[f]?
      = faces[f]?.map fun face => if f ∈ users then face.filter (· != v) else face := by
  induction users generalizing faces with
  | nil => simp
  | cons g rest ih =>
    rw [List.foldl_cons, ih, Array.getElem?_modify]
    by_cases hg : g = f
    · subst hg
      rw [if_pos rfl, Option.map_map]
      congr 1
      funext face
      by_cases hrest : g ∈ rest <;> simp [hrest, List.filter_filter]
    · rw [if_neg hg]
      simp only [List.mem_cons, Ne.symm hg, false_or]

/-- All faces have lost a vertex if those that had it did. -/
theorem toList_foldl_modify {users : Array Nat} {v : Nat} {faces : Array Face}
    (h : ∀ f, v ∈ faces.getD f [] → f ∈ users) :
    (users.foldl (fun faces f => faces.modify f fun face => face.filter (· != v)) faces).toList
      = faces.toList.map fun face => face.filter (· != v) := by
  rw [← Array.foldl_toList]
  apply List.ext_getElem?
  intro f
  rw [Array.getElem?_toList, getElem?_foldl_modify, List.getElem?_map, Array.getElem?_toList]
  cases hface : faces[f]? with
  | none => rfl
  | some face =>
    by_cases hf : f ∈ users
    · simp [hf]
    -- A face that is not listed has not the vertex.
    · have hv : v ∉ face := by
        intro hv
        refine hf (h f ?_)
        rwa [Array.getD_eq_getD_getElem?, hface]
      simp [hf, filter_ne_of_not_mem hv]

namespace Straightening

/-- A state of the removal has some faces and lists their neighbours, after the vertices below `k`
    were tried: the other ones are still in the faces that they were in. -/
structure Matches (old : List Face) (k : Nat) (faces : List Face) (s : Straightening) : Prop where
  faces_eq : s.faces = faces.toArray
  exact : s.table.Exact faces
  later : ∀ v, k ≤ v → ∀ f, v ∈ faces.toArray.getD f [] ↔ v ∈ old.toArray.getD f []

variable {straight : Nat → Nat → Nat → Bool} {old faces : List Face} {users : Nat → Array Nat}
  {k : Nat} {s : Straightening}

/-- What is tested of a vertex in the tables is what is tested of it in the faces. -/
theorem Matches.goes_iff (h : s.Matches old k faces)
    (husers : ∀ v f, f ∈ users v ↔ v ∈ old.toArray.getD f []) {a b : Nat}
    (hneighbours : (s.table.of k).toList = [a, b]) :
    (!(s.table.of a).contains b && straight a k b
        && (users k).all fun f => canSpare (s.faces.getD f []) k) = true ↔
      Removable straight faces k a b := by
  have hapart : (s.table.of a).contains b = true ↔ b ∈ neighbours faces a := by
    rw [← Std.TreeSet.mem_iff_contains]
    exact h.exact a b
  have hspare : ((users k).all fun f => canSpare (s.faces.getD f []) k) = true ↔
      ∀ face ∈ faces, k ∈ face → canSpare face k = true := by
    rw [Array.all_eq_true_iff_forall_mem, h.faces_eq]
    simp only [husers, ← h.later k (Nat.le_refl k)]
    constructor
    · intro hall face hface hk
      obtain ⟨f, hf⟩ := List.getElem?_of_mem hface
      have hget : faces.toArray.getD f [] = face := by
        rw [Array.getD_eq_getD_getElem?, List.getElem?_toArray, hf, Option.getD_some]
      rw [← hget] at hk ⊢
      exact hall f hk
    · intro hall f hk
      obtain ⟨face, hf, -⟩ := mem_getD_iff.mp hk
      refine hall _ ?_ hk
      rw [Array.getD_eq_getD_getElem?, List.getElem?_toArray, hf]
      exact List.mem_of_getElem? hf
  rw [Bool.and_eq_true, Bool.and_eq_true, hspare, Bool.not_eq_true', ← Bool.not_eq_true, hapart]
  constructor
  · rintro ⟨⟨hb, hstraight⟩, hspare⟩
    exact ⟨(h.exact.toList_of k).symm.trans hneighbours, hb, hstraight, hspare⟩
  · intro h
    exact ⟨⟨h.apart, h.straight_eq⟩, h.spare⟩

/-- **Steps.** Trying a vertex in the tables comes to trying it in the faces. -/
theorem Matches.tryVertex (h : s.Matches old k faces)
    (husers : ∀ v f, f ∈ users v ↔ v ∈ old.toArray.getD f []) :
    (s.tryVertex straight users k).Matches old (k + 1) (straightenAt straight faces k) := by
  have hstays : s.Matches old (k + 1) faces :=
    ⟨h.faces_eq, h.exact, fun v hv => h.later v (Nat.le_of_succ_le hv)⟩
  unfold Straightening.tryVertex straightenAt
  by_cases hgoes : ∃ a b, Removable straight faces k a b
  · rw [if_pos (removable_iff.mpr hgoes)]
    obtain ⟨a, b, hab⟩ := hgoes
    have hneighbours := (h.exact.toList_of k).trans hab.neighbours_eq
    rw [hneighbours]
    dsimp only
    rw [if_pos ((h.goes_iff husers hneighbours).mpr hab)]
    refine ⟨?_, hab.exact_bypass h.exact, ?_⟩
    · have hlisted : ∀ f, k ∈ s.faces.getD f [] → f ∈ users k := by
        intro f hk
        rw [h.faces_eq, h.later k (Nat.le_refl k)] at hk
        exact (husers k f).mpr hk
      rw [← Array.toList_inj, remove, toList_foldl_modify hlisted, h.faces_eq]
    -- Later vertices are not the one that went.
    · intro v hv f
      have hvk : v ≠ k := Nat.ne_of_gt hv
      rw [← h.later v (Nat.le_of_succ_le hv), mem_getD_iff, mem_getD_iff]
      simp [hvk]
  · rw [if_neg (mt removable_iff.mp hgoes)]
    split
    · next a b hneighbours =>
      rw [if_neg fun hcond => hgoes ⟨a, b, (h.goes_iff husers hneighbours).mp hcond⟩]
      exact hstays
    · exact hstays

end Straightening

/-- **Straightening.** With the neighbours kept in a table the faces are those that come of looking
    them up. -/
theorem straightenFaces_eq (straight : Nat → Nat → Nat → Bool) (n : Nat) (faces : List Face) :
    straightenFaces straight n faces = straighten straight n faces := by
  have husers : ∀ v f, f ∈ (usersByVertex faces).getD v #[] ↔ v ∈ faces.toArray.getD f [] := by
    intro v f
    rw [mem_usersByVertex_iff, mem_getD_iff]
  -- By induction on the vertices that were tried.
  have hrun : ((List.range n).foldl
      (Straightening.tryVertex straight fun v => (usersByVertex faces).getD v #[])
      ⟨faces.toArray, .ofFaces faces⟩).Matches faces n (straighten straight n faces) := by
    induction n with
    | zero => exact ⟨rfl, NeighbourTable.exact_ofFaces faces, fun _ _ _ => Iff.rfl⟩
    | succ n ih =>
      rw [straighten_succ, List.range_succ, List.foldl_concat]
      exact ih.tryVertex husers
  rw [straightenFaces, hrun.faces_eq]

-- A vertex between two others on a common side leaves both faces.
example : straightenFaces (fun _ v _ => v == 1) 7 [[0, 1, 2, 3, 4], [2, 1, 0, 5, 6]]
    = [[0, 2, 3, 4], [2, 0, 5, 6]] := by
  cbv

/-- The straight corners of a mesh are removed by its faces. -/
theorem Mesh.straightenCorners_eq {α : Type} [Scalar α] (angle : α) (m : Mesh α) :
    m.straightenCorners angle
      = { m with faces := straighten (m.isStraight angle) m.vertices.size m.faces } := by
  rw [straightenCorners, straightenFaces_eq]

end CollisionMesh
