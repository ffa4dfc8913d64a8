import BlockDiagram.Proofs.Document.Performing
import BlockDiagram.Proofs.Document.Tree

/-!
# Walks

The walk over a document whose blocks form a tree comes to every block below the root once, in the
order of the tree (`map_id_walk`).
-/

namespace BlockDiagram.Document

variable {d : Document} {listing : List Mention} {levels : Nat} {t : Tree}

/-- The blocks of the given names. -/
def blocksOf (d : Document) (ids : List BlockId) : List Block :=
  ids.filterMap d.block?

private theorem blocksOf_append (ids others : List BlockId) :
    d.blocksOf (ids ++ others) = d.blocksOf ids ++ d.blocksOf others :=
  List.filterMap_append

private theorem blocksOf_cons {id : BlockId} {b : Block} (h : d.block? id = some b)
    (ids : List BlockId) : d.blocksOf (id :: ids) = b :: d.blocksOf ids :=
  List.filterMap_cons_some h

/-- Blocks that are all known are listed by their names. -/
theorem map_id_blocksOf (hd : d.Sound) {ids : List BlockId}
    (h : ∀ id ∈ ids, d.contains id = true) : (d.blocksOf ids).map Block.id = ids := by
  induction ids with
  | nil => rfl
  | cons id ids ih =>
    obtain ⟨hid, hids⟩ := List.forall_mem_cons.1 h
    obtain ⟨b, hb⟩ := exists_block?_of_contains hid
    rw [blocksOf_cons hb, List.map_cons, ih hids, (hd.block id b hb).id]

/-- At the lowest level the walk does not go into a block. -/
theorem walkFrom_zero {id : BlockId} {b : Block} (h : d.block? id = some b) (pending : Pending) :
    d.walkFrom ((0, id) :: pending) = b :: d.walkFrom pending := by
  rw [walkFrom]
  split
  · next heq =>
    rw [h] at heq
    cases heq
  · next heq =>
    rw [h] at heq
    rw [Option.some.inj heq]

/-- The walk goes on with what the block holds, in front of what is pending. -/
theorem walkFrom_succ {id : BlockId} {b : Block} (h : d.block? id = some b) (bound : Nat)
    (pending : Pending) :
    d.walkFrom ((bound + 1, id) :: pending) =
      b :: d.walkFrom (b.children.map (fun child ↦ (bound, child)) ++ pending) := by
  rw [walkFrom]
  split
  · next heq =>
    rw [h] at heq
    cases heq
  · next heq =>
    rw [h] at heq
    rw [Option.some.inj heq]

/-- The walk over several trees, one after the other. -/
theorem walkFrom_trees {bound : Nat} {trees : List Tree}
    (h : ∀ t ∈ trees, ∀ pending, d.walkFrom ((bound, t.id) :: pending) =
      d.blocksOf t.ids ++ d.walkFrom pending) (pending : Pending) :
    d.walkFrom ((trees.map Tree.id).map (fun id ↦ (bound, id)) ++ pending) =
      d.blocksOf (trees.flatMap Tree.ids) ++ d.walkFrom pending := by
  induction trees with
  | nil => rfl
  | cons t trees ih =>
    obtain ⟨ht, htrees⟩ := List.forall_mem_cons.1 h
    rw [List.map_cons, List.map_cons, List.cons_append, ht, ih htrees, List.flatMap_cons,
      blocksOf_append, List.append_assoc]

namespace Shows

/-- The walk over a tree, with all its levels, is followed by that over what is pending. -/
theorem walkFrom_eq (h : d.Shows levels t) (hcontains : ∀ id ∈ t.ids, d.contains id = true)
    {bound : Nat} (hbound : levels ≤ bound) (pending : Pending) :
    d.walkFrom ((bound, t.id) :: pending) = d.blocksOf t.ids ++ d.walkFrom pending := by
  induction h generalizing bound pending with
  | @leaf id h =>
    obtain ⟨b, hb⟩ := exists_block?_of_contains (hcontains id List.mem_cons_self)
    have hchildren : b.children = [] := by rw [← children_of_block? hb, h]
    have hblocks : d.blocksOf (Tree.node id []).ids = [b] := blocksOf_cons hb []
    rw [hblocks, Tree.id]
    cases bound with
    | zero => exact walkFrom_zero hb pending
    | succ bound =>
      rw [walkFrom_succ hb, hchildren]
      rfl
  | @node levels id children h hchildren ih =>
    rw [Tree.ids_node] at hcontains ⊢
    obtain ⟨hid, hbelow⟩ := List.forall_mem_cons.1 hcontains
    obtain ⟨b, hb⟩ := exists_block?_of_contains hid
    obtain ⟨bound, rfl⟩ : ∃ n, bound = n + 1 := ⟨bound - 1, by omega⟩
    have htrees : ∀ child ∈ children, ∀ pending, d.walkFrom ((bound, child.id) :: pending) =
        d.blocksOf child.ids ++ d.walkFrom pending := fun child hchild pending ↦
      ih child hchild (fun id hid ↦ hbelow id (List.mem_flatMap.2 ⟨child, hchild, hid⟩))
        (Nat.le_of_succ_le_succ hbound) pending
    rw [Tree.id, walkFrom_succ hb, ← children_of_block? hb, h, walkFrom_trees htrees,
      blocksOf_cons hb, List.cons_append]

end Shows

/-- There are at least as many blocks as have different names. -/
theorem length_le_size_of_nodup {ids : List BlockId} (hnodup : ids.Nodup)
    (h : ∀ id ∈ ids, d.contains id = true) : ids.length ≤ d.size := by
  have hsubset : ids ⊆ d.blocks.keys.toList := fun id hid ↦
    Array.mem_toList_iff.2 ((OrderedMap.contains_iff_mem_keys _ _).1 (h id hid))
  have hlength := (List.subperm_of_subset hnodup hsubset).length_le
  rwa [Array.length_toList] at hlength

/-- A tree that shows no block twice has no more levels than there are blocks. -/
theorem Shows.exists_levels_le_size (h : d.Shows levels t) (hnodup : t.ids.Nodup) :
    ∃ levels' ≤ d.size, d.Shows levels' t := by
  refine ⟨_, ?_, h.shows_countP⟩
  rw [List.countP_eq_length_filter]
  refine length_le_size_of_nodup (hnodup.filter _) fun id hid ↦ ?_
  have hne : d.children id ≠ [] := of_decide_eq_true (List.mem_filter.1 hid).2
  cases hb : d.block? id with
  | none => exact absurd (children_eq_nil hb) hne
  | some b => exact contains_of_block? hb

namespace ListedBy

/-- There are at least as many blocks as are listed. -/
theorem length_le_size (h : d.ListedBy listing) : listing.length ≤ d.size := by
  have hlength := length_le_size_of_nodup h.nodup fun id hid ↦
    h.contains id (List.mem_cons_of_mem _ hid)
  rwa [idsOf, List.length_map] at hlength

/-- The walk comes to the blocks of the tree, in order. -/
theorem walk_eq (h : d.ListedBy listing) (ht : d.Shows levels t) (hroot : t.id = BlockId.root)
    (hlevels : levels ≤ d.size + 1) : d.walk = d.blocksOf t.ids.tail := by
  have hcontains : ∀ id ∈ t.ids, d.contains id = true := fun id hid ↦
    h.contains id ((ht.mem_ids_iff h hroot).1 hid)
  have hbelow : ∀ child ∈ t.children, ∀ id ∈ child.ids, d.contains id = true := by
    intro child hchild id hid
    refine hcontains id ?_
    rw [t.ids_eq_cons]
    exact List.mem_cons_of_mem _ (List.mem_flatMap.2 ⟨child, hchild, hid⟩)
  have htrees : ∀ child ∈ t.children, ∀ pending, d.walkFrom ((d.size, child.id) :: pending) =
      d.blocksOf child.ids ++ d.walkFrom pending := fun child hchild pending ↦
    (ht.child child hchild).walkFrom_eq (hbelow child hchild) (Nat.sub_le_of_le_add hlevels) pending
  have hwalk := walkFrom_trees htrees []
  rw [List.append_nil, walkFrom, List.append_nil] at hwalk
  rw [walk, ← hroot, ht.children_eq, t.ids_eq_cons, List.tail_cons]
  exact hwalk

/-- The walk lists the blocks of the tree by their names. -/
theorem map_id_walk_eq (h : d.ListedBy listing) (hd : d.Sound) (ht : d.Shows levels t)
    (hroot : t.id = BlockId.root) (hlevels : levels ≤ d.size + 1) :
    d.walk.map Block.id = t.ids.tail := by
  rw [h.walk_eq ht hroot hlevels, map_id_blocksOf hd]
  intro id hid
  exact h.contains id (List.mem_cons_of_mem _ (ht.mem_idsOf_of_mem_tail h hid))

/-- The walk comes to every block below the root once. -/
theorem map_id_walk (h : d.ListedBy listing) (hd : d.Sound) :
    (d.walk.map Block.id).Nodup ∧
      ∀ id, id ∈ d.walk.map Block.id ↔ id ∈ idsOf listing := by
  obtain ⟨t, hroot, ht⟩ := h.exists_shows
  have hnodup := ht.nodup_ids h hroot
  rw [h.map_id_walk_eq hd ht hroot (Nat.le_succ_of_le h.length_le_size)]
  refine ⟨hnodup.tail, fun id ↦ ⟨ht.mem_idsOf_of_mem_tail h, fun hid ↦ ?_⟩⟩
  have hmem := (ht.mem_ids_iff h hroot).2 (List.mem_cons_of_mem _ hid)
  rw [t.ids_eq_cons, hroot] at hmem
  rw [t.ids_eq_cons, List.tail_cons]
  refine (List.mem_cons.1 hmem).resolve_left ?_
  rintro rfl
  exact h.root hid

/-- Every block that the walk comes to is the one of its name. -/
theorem block?_of_mem_walk (h : d.ListedBy listing) (hd : d.Sound) {b : Block} (hb : b ∈ d.walk) :
    d.block? b.id = some b := by
  obtain ⟨t, hroot, ht⟩ := h.exists_shows
  rw [h.walk_eq ht hroot (Nat.le_succ_of_le h.length_le_size), blocksOf] at hb
  obtain ⟨id, -, hid⟩ := List.mem_filterMap.1 hb
  rwa [(hd.block id b hid).id]

/-- The walk comes to no block behind one inside of it. -/
theorem pairwise_walk (h : d.ListedBy listing) (hd : d.Sound) :
    (d.walk.map Block.id).Pairwise fun first second ↦ ¬ d.Encloses second first := by
  obtain ⟨t, hroot, ht⟩ := h.exists_shows
  rw [h.map_id_walk_eq hd ht hroot (Nat.le_succ_of_le h.length_le_size)]
  exact (ht.pairwise_ids (ht.nodup_ids h hroot)).sublist (List.tail_sublist _)

end ListedBy

end BlockDiagram.Document
