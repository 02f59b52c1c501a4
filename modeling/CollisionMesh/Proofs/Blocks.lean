import CollisionMesh.Proofs.Rewriting
import CollisionMesh.Proofs.Writers

namespace CollisionMesh

/-!
# What is written in a gap

A document is rewritten gap by gap. What is written in a gap are lines that were there or
lines of records that carry a key iff the run does. So it can be read as a run again, with
the same keys in the same order, perhaps fewer, and no more triangles.

* `blocks` — what is written in a gap; `gaps_rewritten`, `controls_rewritten` — a document
  gap by gap;
* `Group.isBlock_block` — a group is written as groups can be;
* `thins_blocks`, `readable_blocks` — what is written in a gap that can be read lost triangles
  or keys at most, and can be read.
-/

variable [Clipper Float]

/-- The lines that are written for the run of a stretch, group by group. -/
def blocks (s : Settings) (stretch : List String) : List String :=
  (Run.ofStretch stretch).groups.flatMap (Group.block s)

/-! ### The lines that are written -/

/-- The records that a group becomes carry its key if the run carries keys. -/
theorem Group.key_of_simplified {t : Tolerances Float} {g : Group} {rs : List Record}
    (h : g.simplified t = .ok rs) {r : Record} (hr : r ∈ rs) : r.key = g.written := by
  obtain ⟨faces, hfaces⟩ := Group.exists_faces_of_simplified h
  obtain ⟨triangles, -, hok⟩ := Group.simplified_of_ok hfaces
  obtain rfl := Except.ok.inj (hok.symm.trans h)
  obtain ⟨triangle, -, rfl⟩ := List.mem_map.mp hr
  rfl

/-- What is written for a group can be written for it. -/
theorem Group.isBlock_block (s : Settings) (g : Group) : g.IsBlock (g.block s) := by
  unfold Group.block
  split
  · next rs hrs => exact .records fun r hr => Group.key_of_simplified hrs hr
  · split
    · exact .sources
    · exact .nothing

/-- What is written for a group has no more lines than the group has triangles. -/
theorem Group.length_block_le (s : Settings) (g : Group) : (g.block s).length ≤ g.size := by
  unfold Group.block
  split
  · next rs hrs =>
    rw [List.length_map]
    exact (Group.length_simplified hrs).2
  · split
    · exact g.length_sources.le
    · exact Nat.zero_le _

/-- What is written in a gap are triangle lines. -/
theorem isTriangle_of_mem_blocks {s : Settings} {stretch : List String}
    (h : ∀ line ∈ stretch, isTriangle line = true) :
    ∀ line ∈ blocks s stretch, isTriangle line = true :=
  isTriangle_of_mem_blocksBy (Group.isBlock_block s) h

/-! ### Thinner gaps -/

/-- What is written in a gap has no more lines than were there. -/
theorem length_blocks_le (s : Settings) (stretch : List String) :
    (blocks s stretch).length ≤ stretch.length := by
  have hsize : (Run.ofStretch stretch).size ≤ stretch.length := by
    rw [Run.ofStretch, Run.size_groupsOf]
    exact List.length_filterMap_le _ _
  refine Nat.le_trans ?_ hsize
  rw [blocks, Run.size]
  induction (Run.ofStretch stretch).groups with
  | nil => exact Nat.le_refl 0
  | cons g rest ih =>
    rw [List.flatMap_cons, List.length_append, List.foldr_cons]
    exact Nat.add_le_add (Group.length_block_le s g) ih

/-- **Thinning.** What is written in a gap that can be read lost triangles or keys at most. -/
theorem thins_blocks (s : Settings) {policy : KeyPolicy} {stretch : List String}
    (h : Readable policy stretch) : Thins stretch (blocks s stretch) := by
  have hkeyed : blocks s stretch ≠ [] →
      (Run.ofStretch (blocks s stretch)).keyed = (Run.ofStretch stretch).keyed :=
    keyed_blocksBy (Group.isBlock_block s) h
  refine ⟨?_, hkeyed, length_blocks_le s stretch⟩
  by_cases hne : blocks s stretch = []
  · rw [hne]
    exact List.nil_sublist _
  -- What is written for a group is read with its key, so the keys stand in the order of the
  -- groups.
  rw [Run.map_key_groups_ofStretch, hkeyed hne, blocks, List.filterMap_flatMap, List.map_flatMap]
  apply eraseDups_flatMap_sublist
  · exact Run.nodup_keys_ofStretch stretch
  · intro g hg k hk
    obtain ⟨m, hm, rfl⟩ := List.mem_map.mp hk
    obtain ⟨line, hline, hof⟩ := List.mem_filterMap.mp hm
    obtain ⟨m', hof', -, hkey⟩ := (Group.isBlock_block s g).exists_member hg hline
    rw [(Run.mem_members_ofStretch hg).1] at hof'
    obtain rfl : m = m' := Option.some.inj (hof.symm.trans hof')
    exact hkey

/-- **Reading again.** What is written in a gap that can be read can be read as well. -/
theorem readable_blocks (s : Settings) {policy : KeyPolicy} {stretch : List String}
    (h : Readable policy stretch) : Readable policy (blocks s stretch) :=
  readable_blocksBy (Group.isBlock_block s) h

/-! ### Documents gap by gap -/

theorem rewritten_of_forall (s : Settings) {stretch : List String}
    (h : ∀ line ∈ stretch, isTriangle line = true) : rewritten s stretch = blocks s stretch :=
  rewrittenBy_of_forall (Group.block s) h

theorem rewritten_append_cons (s : Settings) {stretch : List String}
    (h : ∀ line ∈ stretch, isTriangle line = true) {line : String}
    (hline : isTriangle line = false) (rest : List String) :
    rewritten s (stretch ++ line :: rest) = blocks s stretch ++ line :: rewritten s rest :=
  rewrittenBy_append_cons (Group.block s) h hline rest

/-- **Gaps.** A document is rewritten gap by gap. -/
theorem gaps_rewritten (s : Settings) (lines : List String) :
    gaps (rewritten s lines) = (gaps lines).map (blocks s) :=
  gaps_rewrittenBy (Group.isBlock_block s) lines

/-- **Control lines.** They stay as they are. -/
theorem controls_rewritten (s : Settings) (lines : List String) :
    controls (rewritten s lines) = controls lines :=
  controls_rewrittenBy (Group.isBlock_block s) lines

end CollisionMesh
