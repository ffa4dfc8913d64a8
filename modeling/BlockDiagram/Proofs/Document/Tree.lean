import BlockDiagram.Proofs.Document.Mentions
import Mathlib.Algebra.Ring.Nat
import Mathlib.Data.List.Flatten
import Mathlib.Data.List.Perm.Basic
import Mathlib.Logic.Relation

/-!
# The tree of a document

The blocks of a document form a tree below the root when they are `ListedBy` first mentions: every
block stands behind the composite that holds it, so no block holds itself, not even by way of others
(`not_transGen_self`), and the tree is finite. `Shows` is the tree as data; its blocks are listed
without repetition (`nodup_ids`) and are those of the listing (`mem_ids_iff`).
-/

namespace BlockDiagram

/-- A tree of blocks. -/
inductive Tree where
  | node (id : BlockId) (children : List Tree)

namespace Tree

/-- The block at the top. -/
def id : Tree → BlockId
  | node id _ => id

/-- The trees below the top. -/
def children : Tree → List Tree
  | node _ children => children

mutual

/-- The blocks of a tree, each in front of those below it. -/
def ids : Tree → List BlockId
  | node id children => id :: idsOfAll children

/-- The blocks of several trees. -/
def idsOfAll : List Tree → List BlockId
  | [] => []
  | tree :: trees => tree.ids ++ idsOfAll trees

end

private theorem idsOfAll_eq_flatMap (trees : List Tree) : idsOfAll trees = trees.flatMap ids := by
  induction trees with
  | nil => rfl
  | cons tree trees ih => rw [idsOfAll, ih, List.flatMap_cons]

/-- The names in a tree start with its own. -/
theorem ids_node (id : BlockId) (children : List Tree) :
    (node id children).ids = id :: children.flatMap ids := by
  rw [ids, idsOfAll_eq_flatMap]

/-- The names in a tree are its own and those in the trees below it. -/
theorem ids_eq_cons (t : Tree) : t.ids = t.id :: t.children.flatMap ids := by
  cases t with
  | node id children => exact ids_node id children

/-- The name of a tree is in it. -/
theorem id_mem_ids (t : Tree) : t.id ∈ t.ids := by
  rw [ids_eq_cons]
  exact List.mem_cons_self

/-- The name of a tree is among those in any trees that it is one of. -/
theorem id_mem_flatMap {t : Tree} {trees : List Tree} (h : t ∈ trees) : t.id ∈ trees.flatMap ids :=
  List.mem_flatMap.2 ⟨t, h, t.id_mem_ids⟩

end Tree

/-! ### Listings -/

/-- Where a block stands in a listing; the root stands in front of all others. -/
def rank (listing : List Mention) (id : BlockId) : Nat :=
  if id ∈ idsOf listing then (idsOf listing).idxOf id + 1 else 0

private theorem Rooted.rank_lt {above : List BlockId} {listing : List Mention}
    (h : Rooted above listing)
    (habove : ∀ id ∈ above, id ∉ idsOf listing) (hnodup : (idsOf listing).Nodup) :
    ∀ mention ∈ listing, rank listing mention.composite < rank listing mention.id := by
  suffices hindex : ∀ mention ∈ listing, mention.composite ∈ above ∨
      (idsOf listing).idxOf mention.composite < (idsOf listing).idxOf mention.id by
    intro mention hmention
    have hid : mention.id ∈ idsOf listing := List.mem_map_of_mem hmention
    rw [rank, rank, if_pos hid]
    split
    · next hmem =>
      rcases hindex mention hmention with hcomposite | hlt
      · exact absurd hmem (habove _ hcomposite)
      · omega
    · omega
  clear habove
  induction listing generalizing above with
  | nil => exact List.forall_mem_nil _
  | cons first listing ih =>
    obtain ⟨hfirst, hnodup⟩ := List.nodup_cons.1 hnodup
    refine List.forall_mem_cons.2 ⟨.inl h.1, fun mention hmention ↦ ?_⟩
    have hne : first.id ≠ mention.id := by
      rintro heq
      exact hfirst (heq ▸ List.mem_map_of_mem hmention)
    rw [idsOf_cons, List.idxOf_cons_ne _ hne]
    by_cases hcomposite : first.id = mention.composite
    · rw [hcomposite, List.idxOf_cons_self]
      exact .inr (Nat.succ_pos _)
    · rw [List.idxOf_cons_ne _ hcomposite]
      rcases ih h.2 hnodup mention hmention with hmem | hlt
      · exact .inl ((List.mem_cons.1 hmem).resolve_left (Ne.symm hcomposite))
      · exact .inr (Nat.succ_lt_succ hlt)

namespace Document

variable {d : Document} {listing : List Mention}

/-- Holds when the blocks below the root are those of a listing, each held by the composite that it
is listed with. -/
structure ListedBy (d : Document) (listing : List Mention) : Prop where
  children : ∀ id, d.children id = heldBy id listing
  rooted : Rooted [BlockId.root] listing
  nodup : (idsOf listing).Nodup
  root : BlockId.root ∉ idsOf listing
  contains : ∀ id ∈ BlockId.root :: idsOf listing, d.contains id = true

namespace ListedBy

/-- A block is in another one exactly if it is listed there. -/
theorem mem_children_iff (h : d.ListedBy listing) {id child : BlockId} :
    child ∈ d.children id ↔ ⟨id, child⟩ ∈ listing := by
  rw [h.children, mem_heldBy_iff]

/-- Whatever holds a block is listed in front of it. -/
theorem rank_lt (h : d.ListedBy listing) {id child : BlockId} (hchild : child ∈ d.children id) :
    rank listing id < rank listing child :=
  h.rooted.rank_lt (List.forall_mem_singleton.2 h.root) h.nodup _ (h.mem_children_iff.1 hchild)

/-- No block is below itself. -/
theorem not_transGen_self (h : d.ListedBy listing) (id : BlockId) :
    ¬ Relation.TransGen (fun id child ↦ child ∈ d.children id) id id := by
  have hlt : ∀ {a b}, Relation.TransGen (fun id child ↦ child ∈ d.children id) a b →
      rank listing a < rank listing b := by
    intro a b hab
    induction hab with
    | single hchild => exact h.rank_lt hchild
    | tail hab hchild ih => exact Nat.lt_trans ih (h.rank_lt hchild)
  exact fun hself ↦ Nat.lt_irrefl _ (hlt hself)

/-- A block of the listing is held by one composite, and once. -/
theorem exists_count_eq_one (h : d.ListedBy listing) {id : BlockId} (hid : id ∈ idsOf listing) :
    ∃ composite, (d.children composite).count id = 1 ∧
      ∀ other, other ≠ composite → id ∉ d.children other := by
  obtain ⟨⟨composite, _⟩, hmention, rfl⟩ := List.mem_map.1 hid
  refine ⟨composite, List.count_eq_one_of_mem ?_ (h.mem_children_iff.2 hmention), ?_⟩
  · rw [h.children]
    exact h.nodup.sublist (List.filter_sublist.map _)
  · intro other hother hmem
    rw [h.mem_children_iff] at hmem
    have := List.inj_on_of_nodup_map h.nodup hmem hmention rfl
    exact hother (congrArg Mention.composite this)

/-- Whatever is inside of some block is listed. -/
theorem mem_idsOf_of_mem_children (h : d.ListedBy listing) {id child : BlockId}
    (hchild : child ∈ d.children id) : child ∈ idsOf listing :=
  List.mem_map_of_mem (h.mem_children_iff.1 hchild)

private theorem rank_le (listing : List Mention) (id : BlockId) :
    rank listing id ≤ listing.length := by
  rw [rank]
  split
  · next hmem =>
    have := List.idxOf_lt_length_of_mem hmem
    rw [idsOf, List.length_map] at this
    exact this
  · exact Nat.zero_le _

end ListedBy

/-! ### Trees -/

/-- Holds when the first block holds the second one, maybe by way of others. -/
def Encloses (d : Document) : BlockId → BlockId → Prop :=
  Relation.TransGen fun id child ↦ child ∈ d.children id

/-- Holds for the tree below a block of the document, with at most the given number of levels below
its top. -/
inductive Shows (d : Document) : Nat → Tree → Prop where
  | leaf {id : BlockId} (h : d.children id = []) : Shows d 0 (.node id [])
  | node {levels : Nat} {id : BlockId} {children : List Tree}
      (h : d.children id = children.map Tree.id)
      (hchildren : ∀ child ∈ children, Shows d levels child) :
      Shows d (levels + 1) (.node id children)

/-- The tree below a block, cut off below the given number of levels. -/
def treeFrom (d : Document) : Nat → BlockId → Tree
  | 0, id => .node id []
  | levels + 1, id => .node id ((d.children id).map (d.treeFrom levels))

@[simp] private theorem id_treeFrom (d : Document) (levels : Nat) (id : BlockId) :
    (d.treeFrom levels id).id = id := by
  cases levels with
  | zero => rfl
  | succ levels => rfl

namespace ListedBy

/-- The tree below a block has no more levels than there are blocks listed behind it. -/
theorem shows_treeFrom (h : d.ListedBy listing) {levels : Nat} {id : BlockId}
    (hlevels : listing.length ≤ rank listing id + levels) :
    d.Shows levels (d.treeFrom levels id) := by
  induction levels generalizing id with
  | zero =>
    refine .leaf (List.eq_nil_iff_forall_not_mem.2 fun child hchild ↦ ?_)
    have hlt := h.rank_lt hchild
    have hle := rank_le listing child
    omega
  | succ levels ih =>
    refine .node ?_ ?_
    · rw [List.map_map]
      exact (List.map_id'' (d.id_treeFrom levels) _).symm
    · intro child hchild
      obtain ⟨id', hid', rfl⟩ := List.mem_map.1 hchild
      have hlt := h.rank_lt hid'
      exact ih (by omega)

/-- The tree below the root. -/
theorem exists_shows (h : d.ListedBy listing) :
    ∃ t : Tree, t.id = BlockId.root ∧ d.Shows listing.length t :=
  ⟨d.treeFrom listing.length BlockId.root, d.id_treeFrom _ _, h.shows_treeFrom (Nat.le_add_left _ _)⟩

end ListedBy

private theorem sum_map_indicator (ids : List BlockId) (id : BlockId) :
    (ids.map fun other ↦ if other = id then 1 else 0).sum = ids.count id := by
  induction ids with
  | nil => rfl
  | cons other ids ih =>
    rw [List.map_cons, List.sum_cons, ih, List.count_cons, Nat.add_comm]
    simp only [beq_iff_eq]

namespace Shows

variable {levels : Nat} {t : Tree}

/-- A tree that shows a document has the children of its block below it, in their order. -/
theorem children_eq (h : d.Shows levels t) : d.children t.id = t.children.map Tree.id := by
  cases h with
  | leaf h => exact h
  | node h hchildren => exact h

/-- The trees below show the document with one level less. -/
theorem child (h : d.Shows levels t) : ∀ child ∈ t.children, d.Shows (levels - 1) child := by
  cases h with
  | leaf h => exact List.forall_mem_nil _
  | node h hchildren => exact hchildren

private theorem mono (h : d.Shows levels t) {levels' : Nat} (hle : levels ≤ levels') :
    d.Shows levels' t := by
  induction h generalizing levels' with
  | leaf h =>
    cases levels' with
    | zero => exact .leaf h
    | succ levels' => exact .node h (List.forall_mem_nil _)
  | node h hchildren ih =>
    cases levels' with
    | zero => exact absurd hle (Nat.not_succ_le_zero _)
    | succ levels' => exact .node h fun child hchild ↦ ih child hchild (Nat.le_of_succ_le_succ hle)

/-- A tree has no more levels than blocks that hold others. -/
theorem shows_countP (h : d.Shows levels t) :
    d.Shows (t.ids.countP fun id ↦ d.children id ≠ []) t := by
  induction h with
  | leaf h => exact (Shows.leaf h).mono (Nat.zero_le _)
  | @node levels id children h hchildren ih =>
    cases children with
    | nil => exact (Shows.leaf h).mono (Nat.zero_le _)
    | cons first rest =>
      have hne : d.children id ≠ [] := by
        rw [h]
        exact List.cons_ne_nil _ _
      rw [Tree.ids_node, List.countP_cons_of_pos (by simpa using hne)]
      refine .node h fun child hchild ↦ (ih child hchild).mono ?_
      have hbelow := (List.singleton_sublist.2 hchild).flatMap Tree.ids
      rw [List.flatMap_singleton] at hbelow
      exact hbelow.countP_le

/-- What the blocks of a tree hold are the blocks of the tree, its top apart. -/
theorem flatMap_children_perm (h : d.Shows levels t) :
    (t.ids.flatMap d.children).Perm t.ids.tail := by
  induction h with
  | leaf h => simp [Tree.ids_node, h]
  | @node levels id children h hchildren ih =>
    rw [Tree.ids_node, List.tail_cons, List.flatMap_cons, h, List.flatMap_assoc]
    have hbelow := List.Perm.flatMap_left children ih
    have htops := List.map_append_flatMap_perm children Tree.id fun child ↦ child.ids.tail
    have hids : (children.flatMap fun child ↦ child.id :: child.ids.tail) =
        children.flatMap Tree.ids := by
      congr 1
      funext child
      rw [child.ids_eq_cons, List.tail_cons]
    rw [← hids]
    exact (hbelow.append_left _).trans htops

/-- What a block of a tree holds is in the tree, and is not its top. -/
theorem mem_tail_of_mem_children (h : d.Shows levels t) {id child : BlockId} (hid : id ∈ t.ids)
    (hchild : child ∈ d.children id) : child ∈ t.ids.tail :=
  h.flatMap_children_perm.mem_iff.1 (List.mem_flatMap.2 ⟨id, hid, hchild⟩)

/-- All blocks of a tree but its top are held by something. -/
theorem mem_idsOf_of_mem_tail (h : d.Shows levels t) (hlisting : d.ListedBy listing) {id : BlockId}
    (hid : id ∈ t.ids.tail) : id ∈ idsOf listing := by
  obtain ⟨composite, -, hchild⟩ := List.mem_flatMap.1 (h.flatMap_children_perm.mem_iff.2 hid)
  exact hlisting.mem_idsOf_of_mem_children hchild

/-- The top of a tree encloses all other blocks of it. -/
theorem encloses (h : d.Shows levels t) : ∀ id ∈ t.ids.tail, d.Encloses t.id id := by
  induction h with
  | leaf h => exact List.forall_mem_nil _
  | @node levels id children h hchildren ih =>
    rw [Tree.ids_node]
    intro other hother
    obtain ⟨child, hchild, hmem⟩ := List.mem_flatMap.1 hother
    have hheld : child.id ∈ d.children id := by
      rw [h]
      exact List.mem_map_of_mem hchild
    rw [child.ids_eq_cons] at hmem
    rcases List.mem_cons.1 hmem with rfl | hbelow
    · exact .single hheld
    · exact .head hheld (ih child hchild other (by rwa [child.ids_eq_cons]))

/-- What a block of a tree encloses is in the tree. -/
theorem mem_ids_of_encloses (h : d.Shows levels t) {id other : BlockId} (hid : id ∈ t.ids)
    (hencloses : d.Encloses id other) : other ∈ t.ids := by
  induction hencloses with
  | single hchild => exact List.mem_of_mem_tail (h.mem_tail_of_mem_children hid hchild)
  | tail _ hchild ih => exact List.mem_of_mem_tail (h.mem_tail_of_mem_children ih hchild)

/-- No block of a tree is listed behind one that it encloses. -/
theorem pairwise_ids (h : d.Shows levels t) (hnodup : t.ids.Nodup) :
    t.ids.Pairwise fun first second ↦ ¬ d.Encloses second first := by
  induction h with
  | leaf h => exact List.pairwise_singleton _ _
  | @node levels id children h hchildren ih =>
    rw [Tree.ids_node] at hnodup ⊢
    obtain ⟨hid, hbelow⟩ := List.nodup_cons.1 hnodup
    obtain ⟨hnodup, hdisjoint⟩ := List.nodup_flatMap.1 hbelow
    refine List.pairwise_cons.2 ⟨fun second hsecond hencloses ↦ ?_, List.pairwise_flatMap.2 ⟨?_, ?_⟩⟩
    · obtain ⟨child, hchild, hmem⟩ := List.mem_flatMap.1 hsecond
      have hself := (hchildren child hchild).mem_ids_of_encloses hmem hencloses
      exact hid (List.mem_flatMap.2 ⟨child, hchild, hself⟩)
    · exact fun child hchild ↦ ih child hchild (hnodup child hchild)
    · -- a block in a later tree encloses only blocks of that tree
      refine hdisjoint.imp_of_mem fun _ hlater hapart first hfirst second hsecond hencloses ↦ ?_
      exact hapart hfirst ((hchildren _ hlater).mem_ids_of_encloses hsecond hencloses)

/-- Every block is once in the tree below the root: a block is there as often as what holds it. -/
theorem count_ids_eq_one (h : d.Shows levels t) (hlisting : d.ListedBy listing)
    (ht : t.id = BlockId.root) {id : BlockId} (hid : id ∈ BlockId.root :: idsOf listing) :
    t.ids.count id = 1 := by
  have hcount : ∀ id, t.ids.count id =
      t.ids.tail.count id + if id = BlockId.root then 1 else 0 := by
    intro id
    rw [t.ids_eq_cons, List.tail_cons, List.count_cons, ht]
    simp only [beq_iff_eq, @eq_comm _ id]
  induction hrank : rank listing id using Nat.strongRecOn generalizing id with
  | _ n ih =>
    subst hrank
    rw [hcount]
    by_cases hroot : id = BlockId.root
    · have htail : id ∉ t.ids.tail := fun hmem ↦
        hlisting.root (hroot ▸ h.mem_idsOf_of_mem_tail hlisting hmem)
      rw [if_pos hroot, List.count_eq_zero.2 htail]
    · obtain ⟨composite, hone, hnone⟩ :=
        hlisting.exists_count_eq_one ((List.mem_cons.1 hid).resolve_left hroot)
      have hchild : id ∈ d.children composite := List.count_pos_iff.1 (by omega)
      have hcomposite : composite ∈ BlockId.root :: idsOf listing :=
        hlisting.rooted.composite_mem _ (hlisting.mem_children_iff.1 hchild)
      have hterms : (fun other ↦ (d.children other).count id) =
          fun other ↦ if other = composite then 1 else 0 := by
        funext other
        split
        · next heq => rw [heq, hone]
        · next hne => exact List.count_eq_zero.2 (hnone other hne)
      rw [if_neg hroot, Nat.add_zero, ← h.flatMap_children_perm.count_eq, List.count_flatMap]
      change (t.ids.map fun other ↦ (d.children other).count id).sum = 1
      rw [hterms, sum_map_indicator]
      exact ih _ (hlisting.rank_lt hchild) hcomposite rfl

/-- A tree that starts at the root shows all that is listed. -/
theorem mem_ids_iff (h : d.Shows levels t) (hlisting : d.ListedBy listing)
    (ht : t.id = BlockId.root) {id : BlockId} :
    id ∈ t.ids ↔ id ∈ BlockId.root :: idsOf listing := by
  constructor
  · intro hid
    rw [t.ids_eq_cons, ht] at hid
    refine (List.mem_cons.1 hid).elim (fun heq ↦ heq ▸ List.mem_cons_self) fun hmem ↦ ?_
    have htail : id ∈ t.ids.tail := by rwa [t.ids_eq_cons]
    exact List.mem_cons_of_mem _ (h.mem_idsOf_of_mem_tail hlisting htail)
  · intro hid
    exact List.count_pos_iff.1 (by rw [h.count_ids_eq_one hlisting ht hid]; exact Nat.one_pos)

/-- The tree below the root has no block twice. -/
theorem nodup_ids (h : d.Shows levels t) (hlisting : d.ListedBy listing)
    (ht : t.id = BlockId.root) : t.ids.Nodup :=
  List.nodup_iff_count_eq_one.2 fun _ hid ↦
    h.count_ids_eq_one hlisting ht ((h.mem_ids_iff hlisting ht).1 hid)

end Shows

end Document

end BlockDiagram
