import CollisionMesh.Proofs.Splitting
import Mathlib.Data.Finset.Card

namespace CollisionMesh

/-!
# The vertices in use under new numbers

Compacting takes corners to new numbers one by one, so it could lose track of which corners share a
vertex, or where they lie. It does neither, and its result is the only mesh of which this is true and
whose vertices are all in use and numbered by first use.

* `Mesh.place?` — where a corner lies;
* `Mesh.Renumbers` — the same corners over vertices by first use; `Mesh.renumbers_compact`;
* `Mesh.Renumbers.exists_rename`, `Mesh.Renumbers.compact_eq` — there is no other such mesh;
* `Mesh.renumbered`, `Mesh.renumbered_eq_compact` — the same by a table, corner by corner;
* `Mesh.compact_keeps_geometry` — what compacting does to any mesh.
-/

namespace Mesh

variable {α : Type} [Scalar α] {m m' : Mesh α} {f k i : Nat}

/-! ### Corners after compacting -/

omit [Scalar α] in
/-- Where a corner lies, if there is one and it is a vertex of the list. -/
def place? (m : Mesh α) (f k : Nat) : Option (Point α) :=
  (m.corner? f k).bind (m.vertices[·]?)

omit [Scalar α] in
theorem exists_corner?_of_mem_flatten (h : i ∈ m.faces.flatten) : ∃ f k, m.corner? f k = some i := by
  obtain ⟨face, hface, hi⟩ := List.mem_flatten.mp h
  obtain ⟨f, hf⟩ := List.getElem?_of_mem hface
  obtain ⟨k, hk⟩ := List.getElem?_of_mem hi
  exact ⟨f, k, by rw [corner?, hf, Option.bind_some, hk]⟩

omit [Scalar α] in
theorem mem_flatten_of_corner? (h : m.corner? f k = some i) : i ∈ m.faces.flatten := by
  obtain ⟨face, hface, hi⟩ := Option.bind_eq_some_iff.mp h
  exact List.mem_flatten_of_mem (List.mem_of_getElem? hface) (List.mem_of_getElem? hi)

/-- A corner of a well-indexed mesh lies at its vertex. -/
theorem WellIndexed.place?_eq (hm : m.WellIndexed) (h : m.corner? f k = some i) :
    m.place? f k = some (m.position i) := by
  rw [place?, h]
  exact m.getElem?_vertices (hm.lt_of_mem_getD (mem_of_corner?_eq_some h))

/-- A corner is taken to the place of its vertex among those in use. -/
theorem corner?_compact (m : Mesh α) (f k : Nat) :
    m.compact.corner? f k = (m.corner? f k).map fun i => m.used.idxOf i := by
  simp only [corner?, compact, List.getElem?_map]
  cases m.faces[f]? with
  | none => rfl
  | some face => simp

/-! ### Meshes over vertices by first use -/

/-- The mesh `m'` has the corners of `m` where they were, over vertices that are numbered by first
    use. -/
structure Renumbers (m m' : Mesh α) : Prop where
  /-- Each face has as many corners as before. -/
  lengths : m'.faces.map List.length = m.faces.map List.length
  /-- Each corner is where it was. -/
  place : ∀ f k, m'.place? f k = m.place? f k
  /-- Two corners share a vertex iff they did before. -/
  shared_iff : ∀ f k g l, m'.corner? f k = m'.corner? g l ↔ m.corner? f k = m.corner? g l
  /-- Every vertex is in use. -/
  inUse : ∀ i < m'.vertices.size, ∃ face ∈ m'.faces, i ∈ face
  /-- A vertex is first used before those that come after it. -/
  firstUse : ∀ i j, i < j → j < m'.vertices.size →
    m'.faces.flatten.idxOf i < m'.faces.flatten.idxOf j

/-- **Compacting** renumbers a mesh. -/
theorem renumbers_compact (hm : m.WellIndexed) : m.Renumbers m.compact := by
  have hused : m.compact.faces.flatten.eraseDups = List.range m.compact.vertices.size := by
    rw [size_vertices_compact]
    exact used_compact m
  obtain ⟨hmem, horder⟩ := eraseDups_eq_range_iff.mp hused
  refine ⟨?_, ?_, ?_, fun i hi => List.mem_flatten.mp ((hmem i).mpr hi), horder⟩
  · simp [compact]
  · intro f k
    cases h : m.corner? f k with
    | none =>
      rw [place?, place?, corner?_compact, h]
      rfl
    | some i =>
      have hi : i ∈ m.used := List.mem_eraseDups.mpr (mem_flatten_of_corner? h)
      have hplace : m.compact.vertices[m.used.idxOf i]? = some (m.position i) := by
        show (m.used.map m.position).toArray[m.used.idxOf i]? = _
        rw [List.getElem?_toArray, List.getElem?_map, List.getElem?_idxOf hi, Option.map_some]
      rw [hm.place?_eq h, place?, corner?_compact, h]
      exact hplace
  · intro f k g l
    rw [corner?_compact, corner?_compact]
    cases h : m.corner? f k with
    | none => cases m.corner? g l <;> simp
    | some i =>
      cases h' : m.corner? g l with
      | none => simp
      | some j =>
        simp only [Option.map_some, Option.some.injEq]
        constructor
        · exact idxOf_used_inj i (mem_flatten_of_corner? h) j (mem_flatten_of_corner? h')
        · rintro rfl
          rfl

omit [Scalar α] in
/-- Faces of the same lengths are the same if they have the same corners. -/
theorem faces_eq_of_corner?_eq (hlengths : m'.faces.map List.length = m.faces.map List.length)
    (h : ∀ f k, m'.corner? f k = m.corner? f k) : m'.faces = m.faces := by
  have hlen : m'.faces.length = m.faces.length := by
    simpa only [List.length_map] using congrArg List.length hlengths
  refine List.ext_getElem hlen fun f hf hf' => List.ext_getElem? fun k => ?_
  have hcorner := h f k
  rwa [corner?, corner?, List.getElem?_eq_getElem hf, List.getElem?_eq_getElem hf'] at hcorner

namespace Renumbers

omit [Scalar α] in
/-- Corners of the one mesh are corners of the other. -/
theorem corner?_eq_none_iff (h : m.Renumbers m') : m'.corner? f k = none ↔ m.corner? f k = none := by
  have hlen := congrArg (·[f]?) h.lengths
  simp only [List.getElem?_map] at hlen
  rw [corner?, corner?]
  cases hf : m.faces[f]? <;> cases hf' : m'.faces[f]? <;> rw [hf, hf'] at hlen <;> simp_all

omit [Scalar α] in
/-- The vertices in use get new names, different ones different names. -/
theorem exists_rename (h : m.Renumbers m') : ∃ rename : Nat → Nat,
    (∀ f k, m'.corner? f k = (m.corner? f k).map rename) ∧
      ∀ i ∈ m.faces.flatten, ∀ j ∈ m.faces.flatten, rename i = rename j → i = j := by
  -- All corners at one vertex get the same number, that of any of them.
  have hnumber : ∀ i, ∃ j, ∀ f k, m.corner? f k = some i → m'.corner? f k = some j := by
    intro i
    by_cases hi : i ∈ m.faces.flatten
    · obtain ⟨f, k, hfk⟩ := exists_corner?_of_mem_flatten hi
      obtain ⟨j, hj⟩ : ∃ j, m'.corner? f k = some j := by
        rw [← Option.ne_none_iff_exists', ne_eq, h.corner?_eq_none_iff, hfk]
        simp
      exact ⟨j, fun g l hgl => ((h.shared_iff g l f k).mpr (hgl.trans hfk.symm)).trans hj⟩
    · exact ⟨0, fun f k hfk => absurd (mem_flatten_of_corner? hfk) hi⟩
  choose rename hrename using hnumber
  refine ⟨rename, fun f k => ?_, fun i hi j hj heq => ?_⟩
  · cases hfk : m.corner? f k with
    | none => exact h.corner?_eq_none_iff.mpr hfk
    | some i => exact hrename i f k hfk
  · obtain ⟨f, k, hfk⟩ := exists_corner?_of_mem_flatten hi
    obtain ⟨g, l, hgl⟩ := exists_corner?_of_mem_flatten hj
    have hsame := (h.shared_iff f k g l).mp (by rw [hrename i f k hfk, hrename j g l hgl, heq])
    exact Option.some.inj (hfk.symm.trans (hsame.trans hgl))

/-- **No other mesh** renumbers a mesh. -/
theorem compact_eq (h : m.Renumbers m') (hm : m.WellIndexed) : m.compact = m' := by
  obtain ⟨rename, hcorners, hinj⟩ := h.exists_rename
  have hfaces : m'.faces = m.faces.map fun face => face.map rename := by
    refine faces_eq_of_corner?_eq (m := ⟨m.vertices, m.faces.map fun face => face.map rename⟩)
      (h.lengths.trans (by simp)) fun f k => (hcorners f k).trans ?_
    simp only [corner?, List.getElem?_map]
    cases m.faces[f]? <;> simp
  have hvertex : ∀ i ∈ m.faces.flatten, m'.vertices[rename i]? = some (m.position i) := by
    intro i hi
    obtain ⟨f, k, hfk⟩ := exists_corner?_of_mem_flatten hi
    have hplace := h.place f k
    rwa [hm.place?_eq hfk, place?, hcorners, hfk] at hplace
  -- The names count up by first use, just as the places among the vertices in use do.
  have hcount : m.used.map rename = List.range m'.vertices.size := by
    rw [used, ← eraseDups_map hinj, List.map_flatten, ← hfaces, eraseDups_eq_range_iff]
    refine ⟨fun i => ⟨fun hi => ?_, fun hi => List.mem_flatten.mpr (h.inUse i hi)⟩, h.firstUse⟩
    rw [hfaces, ← List.map_flatten] at hi
    obtain ⟨j, hj, rfl⟩ := List.mem_map.mp hi
    exact (Array.getElem?_eq_some_iff.mp (hvertex j hj)).1
  have hsize : m'.vertices.size = m.used.length := by
    simpa using (congrArg List.length hcount).symm
  have hrename : ∀ i ∈ m.used, rename i = m.used.idxOf i := by
    refine List.map_inj_left.mp (hcount.trans ?_)
    rw [hsize]
    exact (map_idxOf_eq_range m.nodup_used).symm
  have hvertices : m'.vertices = (m.used.map m.position).toArray := by
    refine Array.ext (by simp [hsize]) fun i hi _ => ?_
    have hlt : i < m.used.length := hsize ▸ hi
    have hmem : m.used[i] ∈ m.used := List.getElem_mem hlt
    have hget := hvertex m.used[i] (List.mem_eraseDups.mp hmem)
    rw [hrename _ hmem, m.nodup_used.idxOf_getElem i hlt, Array.getElem?_eq_getElem hi] at hget
    simpa using hget
  have hloops : m'.faces = m.faces.map fun face => face.map fun i => m.used.idxOf i := by
    rw [hfaces]
    refine List.map_congr_left fun face hface => List.map_congr_left fun i hi => hrename i ?_
    exact mem_used.mpr ⟨face, hface, hi⟩
  obtain ⟨vertices, faces⟩ := m'
  subst hvertices hloops
  rfl

end Renumbers

/-! ### Corner by corner -/

/-- Vertices seen so far: the number of each, and where they lie in the order of their numbers. -/
structure Numbering (α : Type) where
  number? : Nat → Option Nat
  vertices : Array (Point α)

/-- The number of a vertex at the next corner. One that was not seen before gets the next number. -/
def number (m : Mesh α) (i : Nat) : StateM (Numbering α) Nat := fun s =>
  match s.number? i with
  | some j => (j, s)
  | none => (s.vertices.size, ⟨Function.update s.number? i (some s.vertices.size),
      s.vertices.push (m.position i)⟩)

/-- The mesh with its corners renumbered one after the other. -/
def renumbered (m : Mesh α) : Mesh α :=
  let out := (m.faces.mapM fun face : List Nat => face.mapM m.number).run ⟨fun _ => none, #[]⟩
  { vertices := out.2.vertices, faces := out.1 }

/-- After some corners just their vertices have numbers, those that they have after all corners. -/
structure Numbering.Holds (m : Mesh α) (seen : List Nat) (s : Numbering α) : Prop where
  number?_eq : ∀ i, s.number? i = if i ∈ seen then some (m.used.idxOf i) else none
  vertices_eq : s.vertices = (seen.eraseDups.map m.position).toArray

omit [Scalar α] in
/-- The next vertex in use has as its place how many there were before it. -/
theorem idxOf_used_of_not_mem {seen : List Nat} (hi : i ∉ seen)
    (hseen : seen ++ [i] <+: m.faces.flatten) : m.used.idxOf i = seen.eraseDups.length := by
  obtain ⟨later, hlater⟩ := hseen
  rw [used, ← hlater, List.eraseDups_append, eraseDups_concat, if_neg hi, List.append_assoc,
    List.idxOf_append_of_notMem (by rwa [List.mem_eraseDups])]
  simp

/-- **A corner** gets the number that its vertex has among those in use. -/
theorem run_number (m : Mesh α) (i : Nat) (seen : List Nat) (s : Numbering α) (hs : s.Holds m seen)
    (hseen : seen ++ [i] <+: m.faces.flatten) :
    ∃ s', (m.number i).run s = (m.used.idxOf i, s') ∧ s'.Holds m (seen ++ [i]) := by
  have hnumber := hs.number?_eq i
  have hunseen := eraseDups_concat seen i
  by_cases hi : i ∈ seen
  · rw [if_pos hi] at hnumber hunseen
    refine ⟨s, ?_, ?_, by rw [hunseen, hs.vertices_eq]⟩
    · show number m i s = _
      rw [number, hnumber]
    · intro j
      rw [hs.number?_eq]
      by_cases hj : j = i <;> simp [hj, hi]
  · rw [if_neg hi] at hnumber hunseen
    have hnext : s.vertices.size = m.used.idxOf i := by
      rw [idxOf_used_of_not_mem hi hseen, hs.vertices_eq, List.size_toArray, List.length_map]
    refine ⟨⟨Function.update s.number? i (some (m.used.idxOf i)), s.vertices.push (m.position i)⟩,
      ?_, ?_, ?_⟩
    · show number m i s = _
      rw [number, hnumber, hnext]
    · intro j
      show Function.update s.number? i _ j = _
      by_cases hj : j = i
      · simp [hj]
      · rw [Function.update_of_ne hj, hs.number?_eq]
        simp [hj]
    · show s.vertices.push (m.position i) = _
      rw [hunseen, hs.vertices_eq]
      simp

/-- What runs along a list keeps what each step keeps of the corners so far. -/
theorem run_mapM {σ β γ : Type} {f : β → StateM σ γ} {g : β → γ} {corners : β → List Nat}
    {all : List Nat} {holds : List Nat → σ → Prop}
    (hstep : ∀ b seen s, holds seen s → seen ++ corners b <+: all →
      ∃ s', (f b).run s = (g b, s') ∧ holds (seen ++ corners b) s')
    (l : List β) (seen : List Nat) (s : σ) (hs : holds seen s)
    (hseen : seen ++ l.flatMap corners <+: all) :
    ∃ s', (l.mapM f).run s = (l.map g, s') ∧ holds (seen ++ l.flatMap corners) s' := by
  induction l generalizing seen s with
  | nil => exact ⟨s, rfl, by simpa using hs⟩
  | cons b rest ih =>
    rw [List.flatMap_cons, ← List.append_assoc] at hseen ⊢
    obtain ⟨s', hb, hs'⟩ := hstep b seen s hs ((List.prefix_append _ _).trans hseen)
    obtain ⟨s'', hrest, hs''⟩ := ih _ s' hs' hseen
    refine ⟨s'', ?_, hs''⟩
    rw [List.mapM_cons, StateT.run_bind, hb]
    show (rest.mapM f >>= fun answers => pure (g b :: answers)).run s' = _
    rw [StateT.run_bind, hrest]
    rfl

/-- **Renumbering corner by corner** compacts a mesh. -/
theorem renumbered_eq_compact (m : Mesh α) : m.renumbered = m.compact := by
  have hface : ∀ (face : List Nat) seen s, Numbering.Holds m seen s →
      seen ++ face <+: m.faces.flatten →
      ∃ s', (face.mapM m.number).run s = (face.map fun i => m.used.idxOf i, s') ∧
        s'.Holds m (seen ++ face) := by
    have hcorners := run_mapM m.run_number
    simpa only [List.flatMap_singleton'] using hcorners
  have hstart : Numbering.Holds m [] ⟨fun _ => none, #[]⟩ := by
    refine ⟨fun i => ?_, ?_⟩
    · rw [if_neg List.not_mem_nil]
    · rw [List.eraseDups_nil]
      rfl
  obtain ⟨s, hrun, -, hvertices⟩ := run_mapM hface m.faces [] _ hstart (by simp)
  rw [List.nil_append, List.flatMap_id'] at hvertices
  rw [renumbered, hrun]
  exact congrArg (Mesh.mk · _) hvertices

/-! ### The result -/

/-- The vertices after compacting are as many as there are different indices in use. -/
theorem size_vertices_compact_eq_card (m : Mesh α) :
    m.compact.vertices.size = m.faces.flatten.toFinset.card := by
  have hsame : m.used.toFinset = m.faces.flatten.toFinset := by
    ext i
    simp [used]
  rw [size_vertices_compact, ← hsame, List.toFinset_card_of_nodup m.nodup_used]

/-- **Compacting keeps the geometry.** The compact mesh is the one mesh with the same corners in the
    same places, shared as before, over vertices that are all in use and numbered by first use. These
    are as many as there are different indices in use. The box around the faces stays the same, and
    compacting again changes nothing. -/
theorem compact_keeps_geometry (hm : m.WellIndexed) :
    (∀ m', m.Renumbers m' ↔ m.compact = m') ∧
      m.compact.vertices.size = m.faces.flatten.toFinset.card ∧
      m.compact.bounds = m.bounds ∧
      m.compact.compact = m.compact := by
  refine ⟨fun m' => ⟨fun h => h.compact_eq hm, ?_⟩, size_vertices_compact_eq_card m, ?_,
    compact_compact m⟩
  · rintro rfl
    exact renumbers_compact hm
  · rw [bounds, bounds, List.flatMap_def, List.flatMap_def]
    exact congrArg (fun shape => Box.around shape.flatten) (shape_compact m)

/-- A loop that comes to one of its vertices twice, a triangle beside it, and a vertex of no face. -/
def tucked : Mesh Float where
  vertices := #[⟨0, 0, 0⟩, ⟨9, 9, 9⟩, ⟨4, 0, 0⟩, ⟨0, 4, 0⟩]
  faces := [[3, 0, 3, 2], [2, 0, 3]]

/-- The first corner gets the first number, and the vertex of no face goes. -/
theorem compact_keeps_geometry_tucked :
    tucked.WellIndexed ∧ tucked.Renumbers tucked.compact ∧
      tucked.compact.faces = [[0, 1, 0, 2], [2, 1, 0]] ∧
      tucked.compact.vertices = #[⟨0, 4, 0⟩, ⟨0, 0, 0⟩, ⟨4, 0, 0⟩] ∧
      tucked.compact.vertices.size = tucked.faces.flatten.toFinset.card ∧
      tucked.compact.bounds = tucked.bounds ∧ tucked.compact.compact = tucked.compact := by
  have hwell : tucked.WellIndexed := by decide
  obtain ⟨hunique, hcard, hbounds, hagain⟩ := compact_keeps_geometry hwell
  exact ⟨hwell, (hunique _).mpr rfl, by decide, by decide +kernel, hcard, hbounds, hagain⟩

end Mesh

end CollisionMesh
