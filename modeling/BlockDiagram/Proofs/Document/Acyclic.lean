import BlockDiagram.Proofs.Document.Walk
import Mathlib.Data.Finset.Card

/-!
# Documents without cycles

The walk over a document is cut off below as many levels as there are blocks. Where no block that is
reached from the root encloses itself, nothing lies that deep, also if blocks are shared and children
unknown: every step down leaves a block behind, so less is enclosed than before. There the walk ends as
it would without a bound, with the blocks of `Visits` (`IsAcyclic.visits_walk`), and it comes to all
that the root encloses (`IsAcyclic.mem_walk_iff`).
-/

namespace BlockDiagram.Document

variable {d : Document}

/-- Holds when no block that is reached from the root encloses itself. -/
def IsAcyclic (d : Document) : Prop :=
  ∀ id, d.Encloses BlockId.root id → ¬ d.Encloses id id

/-- Where everything is listed behind what it is in, nothing is inside itself. -/
theorem ListedBy.isAcyclic {listing : List Mention} (h : d.ListedBy listing) : d.IsAcyclic :=
  fun id _ ↦ h.not_transGen_self id

/-! ### Levels -/

/-- Holds when known blocks lie at most the given number of levels below a block. -/
def HasLevels (d : Document) : Nat → BlockId → Prop
  | 0, id => ∀ child ∈ d.children id, d.block? child = none
  | levels + 1, id => ∀ child ∈ d.children id, d.HasLevels levels child

private theorem hasLevels_of_unknown {id : BlockId} (h : d.block? id = none) (levels : Nat) :
    d.HasLevels levels id := by
  cases levels <;> simp [HasLevels, children_eq_nil h]

open Classical in
/-- The blocks that a block encloses. -/
noncomputable def enclosed (d : Document) (id : BlockId) : Finset BlockId :=
  d.blocks.keys.toList.toFinset.filter (d.Encloses id)

private theorem mem_enclosed_iff {id other : BlockId} :
    other ∈ d.enclosed id ↔ d.contains other = true ∧ d.Encloses id other := by
  simp [enclosed, contains, OrderedMap.contains_iff_mem_keys]

/-- No block encloses more blocks than there are. -/
theorem card_enclosed_le (d : Document) (id : BlockId) : (d.enclosed id).card ≤ d.size := by
  classical
  calc (d.enclosed id).card
      ≤ d.blocks.keys.toList.toFinset.card := Finset.card_filter_le _ _
    _ ≤ d.blocks.keys.toList.length := List.toFinset_card_le _
    _ = d.size := Array.length_toList

/-- A block that encloses no block has no known children. -/
theorem hasLevels_zero {id : BlockId} (h : (d.enclosed id).card = 0) : d.HasLevels 0 id := by
  intro child hchild
  by_contra hknown
  obtain ⟨b, hb⟩ := Option.ne_none_iff_exists'.1 hknown
  have hmem : child ∈ d.enclosed id := mem_enclosed_iff.2 ⟨contains_of_block? hb, .single hchild⟩
  rw [Finset.card_eq_zero.1 h] at hmem
  exact Finset.notMem_empty child hmem

namespace IsAcyclic

/-- A known child encloses fewer blocks than the block it is in. -/
theorem card_enclosed_lt (hd : d.IsAcyclic) {id child : BlockId} {b : Block}
    (hid : d.Encloses BlockId.root child) (hchild : child ∈ d.children id)
    (hb : d.block? child = some b) : (d.enclosed child).card < (d.enclosed id).card := by
  refine Finset.card_lt_card (Finset.ssubset_iff_of_subset ?_ |>.2 ⟨child, ?_, ?_⟩)
  · intro other hother
    obtain ⟨hknown, hencloses⟩ := mem_enclosed_iff.1 hother
    exact mem_enclosed_iff.2 ⟨hknown, .head hchild hencloses⟩
  · exact mem_enclosed_iff.2 ⟨contains_of_block? hb, .single hchild⟩
  · exact fun hself ↦ hd child hid (mem_enclosed_iff.1 hself).2

/-- Below a block there are no more levels than blocks that it encloses. -/
theorem hasLevels (hd : d.IsAcyclic) {id : BlockId} (hid : d.Encloses BlockId.root id) {levels : Nat}
    (hlevels : (d.enclosed id).card ≤ levels) : d.HasLevels levels id := by
  induction levels generalizing id with
  | zero => exact hasLevels_zero (Nat.le_zero.1 hlevels)
  | succ levels ih =>
    intro child hchild
    cases hb : d.block? child with
    | none => exact hasLevels_of_unknown hb levels
    | some b =>
      have hreached : d.Encloses BlockId.root child := hid.tail hchild
      have hlt := hd.card_enclosed_lt hreached hchild hb
      exact ih hreached (by omega)

end IsAcyclic

/-! ### Walks -/

/-- The blocks that are visited from pending ones on, each followed by those it holds, however deep
they are. Unknown names are passed over. -/
inductive Visits (d : Document) : List BlockId → List Block → Prop where
  | done : Visits d [] []
  | unknown {id : BlockId} {pending : List BlockId} {blocks : List Block}
      (h : d.block? id = none) (hrest : Visits d pending blocks) : Visits d (id :: pending) blocks
  | visit {id : BlockId} {pending : List BlockId} {b : Block} {blocks : List Block}
      (h : d.block? id = some b) (hrest : Visits d (b.children ++ pending) blocks) :
      Visits d (id :: pending) (b :: blocks)

/-- Unknown blocks in front are passed over. -/
theorem Visits.unknowns {ids pending : List BlockId} {blocks : List Block}
    (h : ∀ id ∈ ids, d.block? id = none) (hrest : d.Visits pending blocks) :
    d.Visits (ids ++ pending) blocks := by
  induction ids with
  | nil => exact hrest
  | cons id ids ih =>
    obtain ⟨hid, hids⟩ := List.forall_mem_cons.1 h
    exact .unknown hid (ih hids)

private theorem walkFrom_unknown {id : BlockId} (h : d.block? id = none) (levels : Nat)
    (pending : Pending) : d.walkFrom ((levels, id) :: pending) = d.walkFrom pending := by
  rw [walkFrom]
  split
  · rfl
  · next heq =>
    rw [h] at heq
    cases heq

/-- The walk from blocks with enough levels ends as it would without a bound. -/
theorem visits_walkFrom {pending : Pending} (h : ∀ visit ∈ pending, d.HasLevels visit.1 visit.2) :
    d.Visits (pending.map Prod.snd) (d.walkFrom pending) := by
  induction pending using walkFrom.induct (d := d) with
  | case1 =>
    rw [walkFrom]
    exact .done
  | case2 levels id pending hid ih =>
    rw [walkFrom_unknown hid]
    exact .unknown hid (ih (List.forall_mem_cons.1 h).2)
  | case3 id pending b hid ih =>
    obtain ⟨htop, hpending⟩ := List.forall_mem_cons.1 h
    rw [walkFrom_zero hid]
    refine .visit hid (.unknowns (fun child hchild ↦ htop child ?_) (ih hpending))
    rwa [children_of_block? hid]
  | case4 id pending b hid levels ih =>
    obtain ⟨htop, hpending⟩ := List.forall_mem_cons.1 h
    have hchildren : ∀ visit ∈ b.children.map fun child ↦ (levels, child),
        d.HasLevels visit.1 visit.2 := by
      rw [List.forall_mem_map, ← children_of_block? hid]
      exact htop
    have hvisits := ih (List.forall_mem_append.2 ⟨hchildren, hpending⟩)
    rw [List.map_append, List.map_map] at hvisits
    rw [walkFrom_succ hid]
    refine .visit hid ?_
    simpa [Function.comp_def] using hvisits

/-- Holds for a block and all that it encloses. -/
def Reaches (d : Document) : BlockId → BlockId → Prop :=
  Relation.ReflTransGen fun id child ↦ child ∈ d.children id

private theorem reaches_iff {id other : BlockId} :
    d.Reaches id other ↔ id = other ∨ ∃ child ∈ d.children id, d.Reaches child other :=
  Relation.ReflTransGen.cases_head_iff

private theorem encloses_iff {id other : BlockId} :
    d.Encloses id other ↔ ∃ child ∈ d.children id, d.Reaches child other :=
  Relation.TransGen.head'_iff

/-- What pending blocks reach is the first of them, or reached by what is pending behind a visit to
it. -/
theorem exists_reached_cons {top : BlockId} {pending : List BlockId} {b : Block} :
    (∃ id, (∃ other ∈ top :: pending, d.Reaches other id) ∧ d.block? id = some b) ↔
      d.block? top = some b ∨
        ∃ id, (∃ other ∈ d.children top ++ pending, d.Reaches other id) ∧ d.block? id = some b := by
  have htop : ∀ id, (∃ other ∈ top :: pending, d.Reaches other id) ↔
      top = id ∨ ∃ other ∈ d.children top ++ pending, d.Reaches other id := by
    intro id
    simp only [List.mem_cons, List.mem_append, or_and_right, exists_or, exists_eq_left]
    rw [reaches_iff, or_assoc]
  simp only [htop, or_and_right, exists_or, exists_eq_left']

/-- What is visited are the blocks that the pending ones reach. -/
theorem Visits.mem_iff {pending : List BlockId} {blocks : List Block} (h : d.Visits pending blocks)
    {b : Block} :
    b ∈ blocks ↔ ∃ id, (∃ top ∈ pending, d.Reaches top id) ∧ d.block? id = some b := by
  induction h with
  | done => simp
  | unknown htop _ ih =>
    rw [exists_reached_cons, children_eq_nil htop, List.nil_append, ← ih, htop]
    simp
  | visit htop _ ih =>
    rw [exists_reached_cons, children_of_block? htop, ← ih, htop, List.mem_cons, Option.some.injEq,
      eq_comm]

namespace IsAcyclic

/-- The walk ends where it would without a bound. -/
theorem visits_walk (hd : d.IsAcyclic) : d.Visits (d.children BlockId.root) d.walk := by
  have hlevels : ∀ visit ∈ (d.children BlockId.root).map fun id ↦ (d.size, id),
      d.HasLevels visit.1 visit.2 := by
    rw [List.forall_mem_map]
    exact fun id hid ↦ hd.hasLevels (.single hid) (d.card_enclosed_le id)
  have hvisits := visits_walkFrom hlevels
  rw [List.map_map] at hvisits
  rw [walk]
  simpa [Function.comp_def] using hvisits

/-- The walk comes to the known blocks that the root encloses. -/
theorem mem_walk_iff (hd : d.IsAcyclic) {b : Block} :
    b ∈ d.walk ↔ ∃ id, d.Encloses BlockId.root id ∧ d.block? id = some b := by
  rw [hd.visits_walk.mem_iff]
  simp only [encloses_iff]

end IsAcyclic

/-- The walk visits whatever is inside of the root, each block in front of what it holds. -/
theorem ListedBy.visits_walk {listing : List Mention} (h : d.ListedBy listing) :
    d.Visits (d.children BlockId.root) d.walk :=
  h.isAcyclic.visits_walk

end BlockDiagram.Document
