import BlockDiagram.Proofs.Document.Acyclic

/-!
# Walks in preorder

The walk keeps a list of pending blocks and puts the children of a visited block in front of it.
In a document without cycles that is the order of the recursion over the tree
(`walk_eq_preorder`): each block, and behind it what is below its children, one child after the
other. Shared blocks are visited every time and unknown ones never, so what ends the recursion is
neither the number of pending blocks nor that of blocks left to visit: a known child encloses less
than the block it is in (`rank_lt`).
-/

namespace BlockDiagram.Document

variable {d : Document}

/-- The number of blocks that a known block encloses, itself counted. -/
noncomputable def rank (d : Document) (id : BlockId) : Nat :=
  if d.contains id then (d.enclosed id).card + 1 else 0

namespace IsAcyclic

/-- Children rank below the block they are in, be they known or not. -/
theorem rank_lt (hd : d.IsAcyclic) {id child : BlockId} {b : Block}
    (hid : d.Encloses BlockId.root id) (hb : d.block? id = some b) (hchild : child ∈ b.children) :
    d.rank child < d.rank id := by
  rw [← children_of_block? hb] at hchild
  simp only [rank, contains_of_block? hb, if_true]
  split
  · next hknown =>
    obtain ⟨b', hb'⟩ := exists_block?_of_contains hknown
    have hlt := hd.card_enclosed_lt (hid.tail hchild) hchild hb'
    omega
  · omega

open Classical in
/-- A block below the root with all that it encloses: first the block, then its children in order,
each with all that it encloses. Nothing for unknown names. -/
noncomputable def preorder (hd : d.IsAcyclic) (id : BlockId) : List Block :=
  if _ : d.Encloses BlockId.root id then
    match _ : d.block? id with
    | none => []
    | some b => b :: b.children.attach.flatMap fun child ↦ preorder hd child.val
  else []
termination_by d.rank id
decreasing_by exact hd.rank_lt ‹_› ‹_› child.property

/-- The recursion over the tree. -/
theorem preorder_eq (hd : d.IsAcyclic) {id : BlockId} (hid : d.Encloses BlockId.root id) :
    hd.preorder id = (d.block? id).elim [] fun b ↦ b :: b.children.flatMap hd.preorder := by
  rw [preorder, dif_pos hid]
  split
  · next hb => rw [hb, Option.elim_none]
  · next b hb =>
    rw [hb, Option.elim_some]
    conv_rhs => rw [← b.children.attach_map_subtype_val, List.flatMap_map]

private theorem preorder_unknown (hd : d.IsAcyclic) {id : BlockId}
    (hid : d.Encloses BlockId.root id) (h : d.block? id = none) : hd.preorder id = [] := by
  rw [hd.preorder_eq hid, h, Option.elim_none]

private theorem preorder_known (hd : d.IsAcyclic) {id : BlockId} (hid : d.Encloses BlockId.root id)
    {b : Block} (h : d.block? id = some b) :
    hd.preorder id = b :: b.children.flatMap hd.preorder := by
  rw [hd.preorder_eq hid, h, Option.elim_some]

end IsAcyclic

/-! ### Runs of the walk -/

/-- Behind a visit to a block below the root, only such blocks are pending. -/
theorem encloses_of_mem_pending {id : BlockId} {pending : List BlockId} {b : Block}
    (h : ∀ other ∈ id :: pending, d.Encloses BlockId.root other) (hb : d.block? id = some b) :
    ∀ other ∈ b.children ++ pending, d.Encloses BlockId.root other := by
  obtain ⟨hid, hpending⟩ := List.forall_mem_cons.1 h
  refine List.forall_mem_append.2 ⟨fun child hchild ↦ hid.tail ?_, hpending⟩
  rwa [children_of_block? hb]

namespace Visits

variable {pending : List BlockId} {blocks : List Block}

/-- From pending blocks on, what is below one of them is visited in front of the next one. -/
theorem eq_preorder (h : d.Visits pending blocks) (hd : d.IsAcyclic)
    (hpending : ∀ id ∈ pending, d.Encloses BlockId.root id) :
    blocks = pending.flatMap hd.preorder := by
  induction h with
  | done => rfl
  | unknown htop hrest ih =>
    obtain ⟨hid, hpending⟩ := List.forall_mem_cons.1 hpending
    rw [List.flatMap_cons, hd.preorder_unknown hid htop, List.nil_append]
    exact ih hpending
  | visit htop hrest ih =>
    have hinner := ih (encloses_of_mem_pending hpending htop)
    obtain ⟨hid, -⟩ := List.forall_mem_cons.1 hpending
    rw [List.flatMap_cons, hd.preorder_known hid htop, hinner, List.flatMap_append,
      List.cons_append]

/-- Directly behind a block come those that it encloses. -/
theorem exists_rest (h : d.Visits pending blocks) (hd : d.IsAcyclic)
    (hpending : ∀ id ∈ pending, d.Encloses BlockId.root id) {front behind : List Block} {b : Block}
    (hblocks : blocks = front ++ b :: behind) :
    ∃ rest, behind = b.children.flatMap hd.preorder ++ rest := by
  induction h generalizing front with
  | done => exact absurd hblocks.symm (List.append_ne_nil_of_right_ne_nil _ (List.cons_ne_nil _ _))
  | unknown htop hrest ih => exact ih (List.forall_mem_cons.1 hpending).2 hblocks
  | visit htop hrest ih =>
    have hbelow := encloses_of_mem_pending hpending htop
    rcases List.cons_eq_append_iff.1 hblocks with ⟨-, hfirst⟩ | ⟨front', -, hlater⟩
    · obtain ⟨rfl, rfl⟩ := List.cons.inj hfirst
      refine ⟨_, (hrest.eq_preorder hd hbelow).trans List.flatMap_append⟩
    · exact ih hbelow hlater

end Visits

/-- In a document without cycles below the root, in which children may be unknown or shared, the
walk ends, and visits the blocks in the order of the recursion over the tree: those of the root's
children in order, where a known block is followed by those of its own children and an unknown one
is passed over. So behind every visit to a block comes all that it encloses. -/
theorem walk_eq_preorder (hd : d.IsAcyclic) :
    (∀ blocks, d.Visits (d.children BlockId.root) blocks ↔ blocks = d.walk) ∧
      d.walk = (d.children BlockId.root).flatMap hd.preorder ∧
      (∀ id, d.Encloses BlockId.root id →
        hd.preorder id = (d.block? id).elim [] fun b ↦ b :: b.children.flatMap hd.preorder) ∧
      ∀ front b behind, d.walk = front ++ b :: behind →
        ∃ rest, behind = b.children.flatMap hd.preorder ++ rest := by
  have hchildren : ∀ id ∈ d.children BlockId.root, d.Encloses BlockId.root id :=
    fun id hid ↦ .single hid
  have hwalk := hd.visits_walk.eq_preorder hd hchildren
  refine ⟨fun blocks ↦ ⟨fun h ↦ ?_, ?_⟩, hwalk, fun id ↦ hd.preorder_eq, fun front b behind h ↦ ?_⟩
  · exact (h.eq_preorder hd hchildren).trans hwalk.symm
  · rintro rfl
    exact hd.visits_walk
  · exact hd.visits_walk.exists_rest hd hchildren h

/-! ### A document that is no tree -/

/-- Where known blocks stand above all of their children there is no cycle. -/
theorem isAcyclic_of_heights (height : BlockId → Nat)
    (h : ∀ id ∈ d.blocks.keys.toList, ∀ child ∈ d.children id, height child < height id) :
    d.IsAcyclic := by
  have hchild : ∀ id, ∀ child ∈ d.children id, height child < height id := by
    intro id child hmem
    cases hb : d.block? id with
    | none =>
      rw [children_eq_nil hb] at hmem
      cases hmem
    | some b =>
      have hid := (OrderedMap.contains_iff_mem_keys _ _).1 (contains_of_block? hb)
      exact h id (Array.mem_toList_iff.2 hid) child hmem
  have hlt : ∀ id other, d.Encloses id other → height other < height id := by
    intro id other hencloses
    induction hencloses with
    | single hmem => exact hchild _ _ hmem
    | tail _ hmem ih => exact Nat.lt_trans (hchild _ _ hmem) ih
  exact fun id _ hself ↦ Nat.lt_irrefl _ (hlt id id hself)

/-- A document with a block that two others hold and a name that is unknown. -/
def shared : Document :=
  let d := ["g", "h", "a", "b"].foldl (fun d id ↦ d.insertBlock (Block.ofShape id .square)) empty
  ((d.setChildren BlockId.root ["g", "x", "h"]).setChildren "g" ["a"]).setChildren "h" ["a", "b"]

private theorem isAcyclic_shared : shared.IsAcyclic :=
  isAcyclic_of_heights (fun id ↦ ["x", "b", "a", "h", "g", BlockId.root].idxOf id)
    (by decide +kernel)

/-- The shared block is visited behind both of the blocks that hold it. -/
theorem preorder_shared :
    ((shared.children BlockId.root).flatMap isAcyclic_shared.preorder).map Block.id =
      ["g", "a", "h", "a", "b"] := by
  rw [← (walk_eq_preorder isAcyclic_shared).2.1]
  decide +kernel

end BlockDiagram.Document
