import BlockDiagram.Layout.Sizing
import BlockDiagram.Proofs.Document.Walk
import BlockDiagram.Proofs.Layout.Grid

/-!
# Sizes of a tree

What the two passes over the blocks of a tree compute. The first one plans every composite by the
natural sizes of its children (`Planned`, `measures_of_naturalSize`). The second one gives every block
the size that follows from what its parent offers and from the size it has before (`Fitted`,
`fitted_of_fit`). Both leave alone whatever is not in the tree.
-/

namespace BlockDiagram.Layout

open Scalar

private theorem getElem?_insert_of_ne {α : Type} {plans : Plans α} {id other : BlockId}
    (h : other ≠ id) (plan : Plan α) : (plans.insert id plan)[other]? = plans[other]? := by
  simp [Std.ExtTreeMap.getElem?_insert, Ne.symm h]

private theorem getElem?_erase_of_ne {α : Type} {plans : Plans α} {id other : BlockId}
    (h : other ≠ id) : (plans.erase id)[other]? = plans[other]? := by
  simp [Std.ExtTreeMap.getElem?_erase, Ne.symm h]

variable {α : Type} [Scalar α] {d : Document} {padding : α} {labels : Sizes α}
  {plans plans₁ plans' : Plans α} {levels bound : Nat} {t : Tree}

/-! ### Grids of composites -/

/-- The layout takes exactly the spacers of a document for spacers. -/
theorem isSpacer_iff {id : BlockId} : isSpacer d id = true ↔ d.IsSpacer id := by
  rw [isSpacer, Option.any_eq_true]
  simp only [Block.isSpace, decide_eq_true_eq, Document.IsSpacer]

/-- A block spans at least one column and no more than can be written. -/
theorem spanOf_bounds (hd : d.Sound) (id : BlockId) :
    1 ≤ spanOf d id ∧ spanOf d id ≤ Grammar.maxWidth := by
  rw [spanOf]
  cases hb : d.block? id with
  | none => exact ⟨le_refl 1, by decide⟩
  | some b => exact ⟨(hd.block id b hb).one_le_width, (hd.block id b hb).width_le⟩

private theorem columns_le (hd : d.Sound) (id : BlockId) :
    (d.block? id).elim (-1) Block.columns ≤ Grammar.maxColumns := by
  cases hb : d.block? id with
  | none => decide
  | some b => exact (hd.block id b hb).columns_le

/-- In a sound document a grid takes up the blocks it is made for. -/
theorem fills_of_gridOf (hd : d.Sound) {id : BlockId} {grid : Grid} (hne : d.children id ≠ [])
    (h : gridOf d id = .ok grid) : grid.Fills (spanOf d) (d.children id) := by
  exact fills_of_ofSpans hne (fun child _ ↦ spanOf_bounds hd child) (columns_le hd id) h

/-- A composite has a grid if its column count is not zero. -/
theorem exists_gridOf (hd : d.Sound) {id : BlockId}
    (hcolumns : ∀ b, d.block? id = some b → b.columns ≠ 0)
    (hlength : (d.children id).length ≤ 2 ^ 29) : ∃ grid, gridOf d id = .ok grid := by
  have hne : (d.block? id).elim (-1) Block.columns ≠ 0 := by
    cases hb : d.block? id with
    | none => decide
    | some b => exact hcolumns b hb
  refine exists_ofSpans hne (columns_le hd id) ?_ (by rwa [List.length_map])
  exact List.forall_mem_map.2 fun child _ ↦ (spanOf_bounds hd child).2

/-! ### Natural sizes -/

/-- The natural size of a block, if the composites have the given plans. -/
def naturalOf (padding : α) (labels : Sizes α) (plans : Plans α) (id : BlockId) : Size α :=
  match plans[id]? with
  | some plan => extent padding plan plan.cell
  | none => (labels.get? id).getD .zero

/-- The smallest cell for blocks with natural sizes that has at least the given size. -/
def naturalCell (d : Document) (natural : BlockId → Size α) (cell : Size α)
    (children : List BlockId) : Size α :=
  children.foldl (fun cell child ↦ widened d cell child (spanOf d child) (natural child)) cell

/-- Holds for the plan of a composite, if those in it have the given plans. -/
structure Planned (d : Document) (padding : α) (labels : Sizes α) (plans : Plans α) (id : BlockId)
    (plan : Plan α) : Prop where
  grid : ∃ grid, gridOf d id = .ok grid ∧
    plan.columns = ofNat grid.columns ∧ plan.rows = ofNat grid.rows
  spans : plan.spans = (d.children id).map (spanOf d)
  cell : plan.cell = naturalCell d (naturalOf padding labels plans) .zero (d.children id)

private theorem naturalOf_congr {id : BlockId} (h : plans'[id]? = plans[id]?) :
    naturalOf padding labels plans' id = naturalOf padding labels plans id := by
  rw [naturalOf, naturalOf, h]

private theorem naturalCell_congr {natural natural' : BlockId → Size α} {children : List BlockId}
    (h : ∀ child ∈ children, natural' child = natural child) (cell : Size α) :
    naturalCell d natural' cell children = naturalCell d natural cell children :=
  List.foldl_ext _ _ _ fun _ child hchild ↦ by rw [h child hchild]

private theorem Planned.congr {id : BlockId} {plan : Plan α}
    (h : Planned d padding labels plans id plan)
    (hplans : ∀ child ∈ d.children id, plans'[child]? = plans[child]?) :
    Planned d padding labels plans' id plan where
  grid := h.grid
  spans := h.spans
  cell := by
    rw [h.cell]
    exact (naturalCell_congr (fun child hchild ↦ naturalOf_congr (hplans child hchild)) _).symm

/-- Holds when the first pass has gone over the given blocks. -/
structure Measures (d : Document) (padding : α) (labels : Sizes α) (ids : List BlockId)
    (plans plans' : Plans α) : Prop where
  other : ∀ id, id ∉ ids → plans'[id]? = plans[id]?
  leaf : ∀ id ∈ ids, d.children id = [] → plans'[id]? = none
  composite : ∀ id ∈ ids, d.children id ≠ [] →
    ∃ plan, plans'[id]? = some plan ∧ Planned d padding labels plans' id plan

/-- The plans of some blocks stay what they are when others are measured. -/
theorem Measures.append {ids others : List BlockId} (h : Measures d padding labels ids plans plans₁)
    (h' : Measures d padding labels others plans₁ plans')
    (hdisjoint : ∀ id ∈ ids, id ∉ others)
    (hclosed : ∀ id ∈ ids, ∀ child ∈ d.children id, child ∈ ids) :
    Measures d padding labels (ids ++ others) plans plans' where
  other id hid := by
    rw [List.mem_append, not_or] at hid
    rw [h'.other id hid.2, h.other id hid.1]
  leaf id hid hleaf := by
    rcases List.mem_append.1 hid with hmem | hmem
    · rw [h'.other id (hdisjoint id hmem), h.leaf id hmem hleaf]
    · exact h'.leaf id hmem hleaf
  composite id hid hne := by
    rcases List.mem_append.1 hid with hmem | hmem
    · obtain ⟨plan, hplan, hplanned⟩ := h.composite id hmem hne
      refine ⟨plan, (h'.other id (hdisjoint id hmem)).trans hplan, hplanned.congr ?_⟩
      exact fun child hchild ↦ h'.other child (hdisjoint child (hclosed id hmem child hchild))
    · exact h'.composite id hmem hne

/-- A composite is planned after the blocks in it. -/
theorem Measures.insert {ids : List BlockId} {id : BlockId} {plan : Plan α}
    (h : Measures d padding labels ids plans plans₁) (hid : id ∉ ids) (hne : d.children id ≠ [])
    (hclosed : ∀ other ∈ id :: ids, ∀ child ∈ d.children other, child ∈ ids)
    (hplan : Planned d padding labels plans₁ id plan) :
    Measures d padding labels (id :: ids) plans (plans₁.insert id plan) := by
  have hkept : ∀ other ∈ ids, (plans₁.insert id plan)[other]? = plans₁[other]? := by
    intro other hother
    refine getElem?_insert_of_ne ?_ plan
    rintro rfl
    exact hid hother
  obtain ⟨hclosedid, hclosed⟩ := List.forall_mem_cons.1 hclosed
  refine ⟨fun other hother ↦ ?_, ?_, ?_⟩
  · rw [List.mem_cons, not_or] at hother
    rw [getElem?_insert_of_ne hother.1, h.other other hother.2]
  · refine List.forall_mem_cons.2 ⟨fun hleaf ↦ absurd hleaf hne, fun other hother hleaf ↦ ?_⟩
    rw [hkept other hother, h.leaf other hother hleaf]
  · refine List.forall_mem_cons.2 ⟨fun _ ↦ ⟨plan, ?_, ?_⟩, fun other hother hne ↦ ?_⟩
    · exact Std.ExtTreeMap.getElem?_insert_self
    · exact hplan.congr fun child hchild ↦ hkept child (hclosedid child hchild)
    · obtain ⟨plan', hplan', hplanned⟩ := h.composite other hother hne
      refine ⟨plan', (hkept other hother).trans hplan', hplanned.congr fun child hchild ↦ ?_⟩
      exact hkept child (hclosed other hother child hchild)

/-- A block without children has the size of its label. -/
theorem measures_leaf {id : BlockId} (h : d.children id = []) (hfresh : plans[id]? = none)
    {size : Size α} (hsize : naturalSize d padding labels bound id plans = .ok (size, plans')) :
    Measures d padding labels [id] plans plans' ∧
      size = naturalOf padding labels plans' id := by
  have hlabel : naturalSize d padding labels bound id plans =
      .ok ((labels.get? id).getD .zero, plans) := by
    cases bound with
    | zero => rfl
    | succ bound =>
      rw [naturalSize, h]
      rfl
  rw [hlabel] at hsize
  cases hsize
  refine ⟨⟨fun _ _ ↦ rfl, ?_, ?_⟩, by rw [naturalOf, hfresh]⟩
  · exact List.forall_mem_singleton.2 fun _ ↦ hfresh
  · exact List.forall_mem_singleton.2 fun hne ↦ absurd h hne

/-- The first pass over the children of a composite. -/
theorem measures_children {trees : List Tree} {cell cell' : Size α}
    (hshows : ∀ child ∈ trees, d.Shows levels child)
    (ih : ∀ child ∈ trees, ∀ (plans plans' : Plans α) (size : Size α),
      (∀ id ∈ child.ids, plans[id]? = none) →
      naturalSize d padding labels bound child.id plans = .ok (size, plans') →
      Measures d padding labels child.ids plans plans' ∧
        size = naturalOf padding labels plans' child.id)
    (hnodup : (trees.flatMap Tree.ids).Nodup)
    (hfresh : ∀ id ∈ trees.flatMap Tree.ids, plans[id]? = none)
    (h : ((trees.map Tree.id).zip ((trees.map Tree.id).map (spanOf d))).foldlM
      (fun (cell, plans) (child, span) ↦ do
        let (size, plans) ← naturalSize d padding labels bound child plans
        return (widened d cell child span size, plans)) (cell, plans) = .ok (cell', plans')) :
    Measures d padding labels (trees.flatMap Tree.ids) plans plans' ∧
      cell' = naturalCell d (naturalOf padding labels plans') cell (trees.map Tree.id) := by
  induction trees generalizing cell plans with
  | nil =>
    cases h
    exact ⟨⟨fun _ _ ↦ rfl, List.forall_mem_nil _, List.forall_mem_nil _⟩, rfl⟩
  | cons child trees iht =>
    obtain ⟨hchild, hshows⟩ := List.forall_mem_cons.1 hshows
    obtain ⟨ihchild, ih⟩ := List.forall_mem_cons.1 ih
    rw [List.flatMap_cons] at hnodup hfresh ⊢
    obtain ⟨-, hrest, hdisjoint⟩ := List.nodup_append.1 hnodup
    obtain ⟨hfreshchild, hfreshrest⟩ := List.forall_mem_append.1 hfresh
    rw [List.map_cons, List.map_cons, List.zip_cons_cons, List.foldlM_cons, bind_eq_ok_iff] at h
    obtain ⟨⟨cell₁, plans₁⟩, hstep, h⟩ := h
    obtain ⟨⟨size, plans₁⟩, hsize, hstep⟩ := bind_eq_ok_iff.1 hstep
    cases hstep
    obtain ⟨hmeasures, rfl⟩ := ihchild plans plans₁ size hfreshchild hsize
    have hdisjoint' : ∀ id ∈ child.ids, id ∉ trees.flatMap Tree.ids := fun id hid hmem ↦
      hdisjoint id hid id hmem rfl
    have hfresh₁ : ∀ id ∈ trees.flatMap Tree.ids, plans₁[id]? = none := by
      intro id hid
      rw [hmeasures.other id fun hmem ↦ hdisjoint' id hmem hid]
      exact hfreshrest id hid
    obtain ⟨hothers, rfl⟩ := iht hshows ih hrest hfresh₁ h
    have hclosed : ∀ id ∈ child.ids, ∀ below ∈ d.children id, below ∈ child.ids :=
      fun id hid _ hbelow ↦
        List.mem_of_mem_tail (hchild.mem_tail_of_mem_children hid hbelow)
    refine ⟨hmeasures.append hothers hdisjoint' hclosed, ?_⟩
    rw [List.map_cons, naturalCell, naturalCell, List.foldl_cons,
      naturalOf_congr (hothers.other child.id (hdisjoint' _ child.id_mem_ids))]

/-- The first pass plans all composites of a tree and finds its natural size. -/
theorem measures_of_naturalSize (h : d.Shows levels t) (hnodup : t.ids.Nodup)
    (hbound : levels ≤ bound) (hfresh : ∀ id ∈ t.ids, plans[id]? = none) {size : Size α}
    (hsize : naturalSize d padding labels bound t.id plans = .ok (size, plans')) :
    Measures d padding labels t.ids plans plans' ∧
      size = naturalOf padding labels plans' t.id := by
  induction h generalizing bound plans plans' size with
  | @leaf id h => exact measures_leaf h (hfresh id (List.mem_singleton_self id)) hsize
  | @node levels id children h hchildren ih =>
    rw [Tree.ids_node] at hnodup hfresh ⊢
    rw [Tree.id] at hsize ⊢
    obtain ⟨hid, hbelow⟩ := List.nodup_cons.1 hnodup
    obtain ⟨hfreshid, hfreshbelow⟩ := List.forall_mem_cons.1 hfresh
    by_cases hempty : children = []
    · subst hempty
      exact measures_leaf h hfreshid hsize
    · obtain ⟨bound, rfl⟩ : ∃ n, bound = n + 1 := ⟨bound - 1, by omega⟩
      have hne : d.children id ≠ [] := by
        rw [h]
        exact mt List.map_eq_nil_iff.1 hempty
      rw [naturalSize, if_neg (mt List.isEmpty_iff.1 hne)] at hsize
      obtain ⟨grid, hgrid, hsize⟩ := bind_eq_ok_iff.1 hsize
      obtain ⟨⟨cell, plans₁⟩, hfold, hsize⟩ := bind_eq_ok_iff.1 hsize
      rw [h] at hfold
      have hstep : ∀ child ∈ children, ∀ (plans plans' : Plans α) (size : Size α),
          (∀ id ∈ child.ids, plans[id]? = none) →
          naturalSize d padding labels bound child.id plans = .ok (size, plans') →
          Measures d padding labels child.ids plans plans' ∧
            size = naturalOf padding labels plans' child.id := fun child hchild _ _ _ hfresh hsize ↦
        ih child hchild ((List.nodup_flatMap.1 hbelow).1 child hchild) (by omega) hfresh hsize
      obtain ⟨hmeasures, hcell⟩ := measures_children hchildren hstep hbelow hfreshbelow hfold
      cases hsize
      have hclosed : ∀ other ∈ id :: children.flatMap Tree.ids, ∀ child ∈ d.children other,
          child ∈ children.flatMap Tree.ids := by
        intro other hother child hchild
        have hmem := (Document.Shows.node h hchildren).mem_tail_of_mem_children
          (by rwa [Tree.ids_node]) hchild
        rwa [Tree.ids_node] at hmem
      have hplan : Planned d padding labels plans₁ id
          { columns := ofNat grid.columns, rows := ofNat grid.rows,
            spans := (d.children id).map (spanOf d), cell } := {
        grid := ⟨grid, hgrid, rfl, rfl⟩
        spans := rfl
        cell := by rw [hcell, h] }
      refine ⟨hmeasures.insert hid hne hclosed hplan, ?_⟩
      rw [naturalOf, Std.ExtTreeMap.getElem?_insert_self]

/-- The first pass succeeds if all composites have grids. -/
theorem exists_naturalSize (hgrids : ∀ id, d.children id ≠ [] → ∃ grid, gridOf d id = .ok grid)
    (bound : Nat) (id : BlockId) (plans : Plans α) :
    ∃ result, naturalSize d padding labels bound id plans = .ok result := by
  induction bound generalizing id plans with
  | zero => exact ⟨_, rfl⟩
  | succ bound ih =>
    rw [naturalSize]
    by_cases hempty : d.children id = []
    · rw [hempty]
      exact ⟨_, rfl⟩
    · rw [if_neg (mt List.isEmpty_iff.1 hempty)]
      refine exists_bind_eq_ok (hgrids id hempty) fun grid ↦ exists_bind_eq_ok ?_ fun _ ↦ ⟨_, rfl⟩
      refine exists_foldlM_eq_ok ?_ _ _
      rintro ⟨cell, plans⟩ ⟨child, span⟩
      exact exists_bind_eq_ok (ih child plans) fun _ ↦ ⟨_, rfl⟩

/-! ### Final sizes -/

/-- The size that a child of a composite has before it is fitted: that of the cells it takes, or of a
single one if they have no width. -/
def stamped (padding : α) (cell : Size α) (span : Nat) : Size α :=
  let size : Size α := ⟨spanWidth padding cell.width span, cell.height⟩
  if size.width != 0 then size else cell

/-- Holds when the blocks of a tree have the sizes that follow from what is offered to its top and
from the size which the top has before. -/
inductive Fitted (d : Document) (padding : α) (plans : Plans α) (sizes : Sizes α) :
    Size α → Size α → Tree → Prop where
  | leaf {offered existing : Size α} {id : BlockId} (h : d.children id = [])
      (hplan : plans[id]? = none) (hsize : sizes.get? id = some existing) :
      Fitted d padding plans sizes offered existing (.node id [])
  | composite {offered existing size cell : Size α} {id : BlockId} {children : List Tree}
      {plan : Plan α} (h : d.children id = children.map Tree.id) (hplan : plans[id]? = some plan)
      (hfit : fitPlan padding plan offered existing = (size, cell))
      (hsize : sizes.get? id = some size)
      (hchildren : ∀ child ∈ children,
        Fitted d padding plans sizes cell (stamped padding cell (spanOf d child.id)) child) :
      Fitted d padding plans sizes offered existing (.node id children)

private theorem Fitted.congr {sizes sizes' : Sizes α} {offered existing : Size α}
    (h : Fitted d padding plans sizes offered existing t)
    (hsizes : ∀ id ∈ t.ids, sizes'.get? id = sizes.get? id) :
    Fitted d padding plans sizes' offered existing t := by
  induction h with
  | leaf h hplan hsize => exact .leaf h hplan ((hsizes _ (List.mem_singleton_self _)).trans hsize)
  | composite h hplan hfit hsize hchildren ih =>
    rw [Tree.ids_node] at hsizes
    obtain ⟨hid, hbelow⟩ := List.forall_mem_cons.1 hsizes
    refine .composite h hplan hfit (hid.trans hsize) fun child hchild ↦ ih child hchild ?_
    exact fun id hmem ↦ hbelow id (List.mem_flatMap.2 ⟨child, hchild, hmem⟩)

private theorem get?_stampCells (cell : Size α) (sizes : Sizes α) (children : List BlockId)
    (id : BlockId) :
    (stampCells padding cell sizes (children.zip (children.map (spanOf d)))).get? id =
      if id ∈ children then some ⟨spanWidth padding cell.width (spanOf d id), cell.height⟩
      else sizes.get? id := by
  induction children generalizing sizes with
  | nil => rfl
  | cons child children ih =>
    have hstep := ih (sizes.insert child ⟨spanWidth padding cell.width (spanOf d child), cell.height⟩)
    rw [OrderedMap.get?_insert] at hstep
    refine hstep.trans ?_
    by_cases hmem : id ∈ children
    · rw [if_pos hmem, if_pos (List.mem_cons_of_mem _ hmem)]
    · rw [if_neg hmem]
      by_cases heq : child = id
      · subst heq
        rw [if_pos rfl, if_pos List.mem_cons_self]
      · rw [if_neg heq, if_neg]
        rw [List.mem_cons, not_or]
        exact ⟨Ne.symm heq, hmem⟩

/-- Holds when the second pass has changed nothing but the given blocks. -/
structure Keeps (ids : List BlockId) (fitting fitting' : Fitting α) : Prop where
  sizes : ∀ id, id ∉ ids → fitting'.sizes.get? id = fitting.sizes.get? id
  plans : ∀ id, id ∉ ids → fitting'.plans[id]? = fitting.plans[id]?

/-- The second pass over the children of a composite. -/
theorem fitted_children {trees : List Tree} {cell : Size α} {fitting : Fitting α}
    (ih : ∀ child ∈ trees, ∀ fitting : Fitting α,
      (∀ id ∈ child.ids, fitting.plans[id]? = plans[id]?) →
      Keeps child.ids fitting (fit d padding bound child.id cell fitting) ∧
        Fitted d padding plans (fit d padding bound child.id cell fitting).sizes cell
          (sizeOrOffer fitting.sizes child.id cell) child)
    (hnodup : (trees.flatMap Tree.ids).Nodup)
    (hplans : ∀ id ∈ trees.flatMap Tree.ids, fitting.plans[id]? = plans[id]?) :
    let fitting' := (trees.map Tree.id).foldl
      (fun fitting child ↦ fit d padding bound child cell fitting) fitting
    Keeps (trees.flatMap Tree.ids) fitting fitting' ∧ ∀ child ∈ trees,
      Fitted d padding plans fitting'.sizes cell (sizeOrOffer fitting.sizes child.id cell) child := by
  induction trees generalizing fitting with
  | nil => exact ⟨⟨fun _ _ ↦ rfl, fun _ _ ↦ rfl⟩, List.forall_mem_nil _⟩
  | cons child trees iht =>
    obtain ⟨ihchild, ih⟩ := List.forall_mem_cons.1 ih
    rw [List.flatMap_cons] at hnodup hplans ⊢
    obtain ⟨-, hrest, hdisjoint⟩ := List.nodup_append.1 hnodup
    obtain ⟨hplanschild, hplansrest⟩ := List.forall_mem_append.1 hplans
    have hapart : ∀ id ∈ child.ids, id ∉ trees.flatMap Tree.ids := fun id hid hmem ↦
      hdisjoint id hid id hmem rfl
    have hapart' : ∀ id ∈ trees.flatMap Tree.ids, id ∉ child.ids := fun id hid hmem ↦
      hdisjoint id hmem id hid rfl
    obtain ⟨hkeeps, hfitted⟩ := ihchild fitting hplanschild
    obtain ⟨hkeepsrest, hfittedrest⟩ := @iht (fit d padding bound child.id cell fitting) ih hrest
      fun id hid ↦ (hkeeps.plans id (hapart' id hid)).trans (hplansrest id hid)
    refine ⟨⟨fun id hid ↦ ?_, fun id hid ↦ ?_⟩, List.forall_mem_cons.2 ⟨?_, ?_⟩⟩
    · rw [List.mem_append, not_or] at hid
      exact (hkeepsrest.sizes id hid.2).trans (hkeeps.sizes id hid.1)
    · rw [List.mem_append, not_or] at hid
      exact (hkeepsrest.plans id hid.2).trans (hkeeps.plans id hid.1)
    · exact hfitted.congr fun id hid ↦ hkeepsrest.sizes id (hapart id hid)
    · intro other hother
      have hsame : sizeOrOffer (fit d padding bound child.id cell fitting).sizes other.id cell =
          sizeOrOffer fitting.sizes other.id cell := by
        rw [sizeOrOffer, sizeOrOffer, hkeeps.sizes _ (hapart' _ (Tree.id_mem_flatMap hother))]
      rw [← hsame]
      exact hfittedrest other hother

/-- The second pass over a block and, if it is a composite, its children. -/
theorem fitted_step {id : BlockId} {children : List Tree} (h : d.children id = children.map Tree.id)
    (hnodup : (id :: children.flatMap Tree.ids).Nodup)
    (hspans : ∀ plan, plans[id]? = some plan → plan.spans = (d.children id).map (spanOf d))
    (hcomposite : d.children id ≠ [] → ∃ plan, plans[id]? = some plan)
    (ih : ∀ child ∈ children, ∀ (offered : Size α) (fitting : Fitting α),
      (∀ id ∈ child.ids, fitting.plans[id]? = plans[id]?) →
      Keeps child.ids fitting (fit d padding bound child.id offered fitting) ∧
        Fitted d padding plans (fit d padding bound child.id offered fitting).sizes offered
          (sizeOrOffer fitting.sizes child.id offered) child)
    {offered : Size α} {fitting : Fitting α}
    (hplans : ∀ other ∈ id :: children.flatMap Tree.ids, fitting.plans[other]? = plans[other]?) :
    Keeps (id :: children.flatMap Tree.ids) fitting (fit d padding (bound + 1) id offered fitting) ∧
      Fitted d padding plans (fit d padding (bound + 1) id offered fitting).sizes offered
        (sizeOrOffer fitting.sizes id offered) (.node id children) := by
  obtain ⟨hid, hbelow⟩ := List.nodup_cons.1 hnodup
  obtain ⟨hplan, hplansbelow⟩ := List.forall_mem_cons.1 hplans
  rw [fit]
  dsimp only
  rw [hplan]
  cases hcase : plans[id]? with
  | none =>
    have hempty : children = [] := by
      by_contra hne
      have hsome := hcomposite (by rw [h]; exact mt List.map_eq_nil_iff.1 hne)
      rw [hcase] at hsome
      obtain ⟨plan, hsome⟩ := hsome
      cases hsome
    subst hempty
    refine ⟨⟨fun other hother ↦ ?_, fun _ _ ↦ rfl⟩, .leaf h hcase ?_⟩
    · rw [OrderedMap.get?_insert, if_neg (Ne.symm (List.ne_of_not_mem_cons hother))]
    · rw [OrderedMap.get?_insert, if_pos rfl]
  | some plan =>
    rcases hfit : fitPlan padding plan offered (sizeOrOffer fitting.sizes id offered) with ⟨size, cell⟩
    dsimp only
    rw [hspans plan hcase, hfit]
    have hstamps := @get?_stampCells _ _ d padding cell
      ((fitting.sizes.insert id (sizeOrOffer fitting.sizes id offered)).insert id size)
      (d.children id)
    generalize hstamped : stampCells padding cell _ _ = sizes at hstamps ⊢
    have hne : ∀ other ∈ children.flatMap Tree.ids, other ≠ id := by
      rintro other hother rfl
      exact hid hother
    have hbelowid : ∀ child ∈ d.children id, child ∈ children.flatMap Tree.ids := by
      rw [h]
      exact List.forall_mem_map.2 fun child hchild ↦ Tree.id_mem_flatMap hchild
    obtain ⟨hkeeps, hfitted⟩ := @fitted_children α _ d padding plans bound children cell
      ⟨sizes, fitting.plans.erase id⟩ (fun child hchild ↦ ih child hchild cell) hbelow
      fun other hother ↦ (getElem?_erase_of_ne (hne other hother)).trans (hplansbelow other hother)
    rw [← h] at hkeeps hfitted
    refine ⟨⟨fun other hother ↦ ?_, fun other hother ↦ ?_⟩, .composite h hcase hfit ?_ ?_⟩
    · rw [List.mem_cons, not_or] at hother
      rw [hkeeps.sizes other hother.2, hstamps, if_neg (mt (hbelowid other) hother.2),
        OrderedMap.get?_insert, if_neg (Ne.symm hother.1), OrderedMap.get?_insert,
        if_neg (Ne.symm hother.1)]
    · rw [List.mem_cons, not_or] at hother
      rw [hkeeps.plans other hother.2, getElem?_erase_of_ne hother.1]
    · rw [hkeeps.sizes id hid, hstamps, if_neg (mt (hbelowid id) hid), OrderedMap.get?_insert,
        if_pos rfl]
    · intro child hchild
      have hexisting : sizeOrOffer sizes child.id cell =
          stamped padding cell (spanOf d child.id) := by
        rw [sizeOrOffer, hstamps, if_pos (h ▸ List.mem_map_of_mem hchild)]
        rfl
      rw [← hexisting]
      exact hfitted child hchild

/-- The second pass fits the blocks of a tree, and no others. -/
theorem fitted_of_fit (h : d.Shows levels t) (hnodup : t.ids.Nodup) (hbound : levels < bound)
    (hspans : ∀ id plan, plans[id]? = some plan → plan.spans = (d.children id).map (spanOf d))
    (hcomposites : ∀ id ∈ t.ids, d.children id ≠ [] → ∃ plan, plans[id]? = some plan)
    {offered : Size α} {fitting : Fitting α}
    (hplans : ∀ id ∈ t.ids, fitting.plans[id]? = plans[id]?) :
    Keeps t.ids fitting (fit d padding bound t.id offered fitting) ∧
      Fitted d padding plans (fit d padding bound t.id offered fitting).sizes offered
        (sizeOrOffer fitting.sizes t.id offered) t := by
  induction h generalizing bound offered fitting with
  | @leaf id h =>
    obtain ⟨bound, rfl⟩ : ∃ n, bound = n + 1 := ⟨bound - 1, by omega⟩
    rw [Tree.ids_node] at hnodup hplans ⊢
    exact fitted_step h hnodup (hspans id) (hcomposites id (List.mem_singleton_self id))
      (List.forall_mem_nil _) hplans
  | @node levels id children h hchildren ih =>
    obtain ⟨bound, rfl⟩ : ∃ n, bound = n + 1 := ⟨bound - 1, by omega⟩
    rw [Tree.ids_node] at hnodup hcomposites hplans ⊢
    obtain ⟨hcomposite, hcomposites⟩ := List.forall_mem_cons.1 hcomposites
    refine fitted_step h hnodup (hspans id) hcomposite
      (fun child hchild offered fitting hplans ↦ ?_) hplans
    refine ih child hchild ?_ (by omega) ?_ hplans
    · exact (List.nodup_flatMap.1 hnodup.tail).1 child hchild
    · exact fun id hid ↦ hcomposites id (List.mem_flatMap.2 ⟨child, hchild, hid⟩)

/-- Every block of a fitted tree has a size. -/
theorem Fitted.exists_size {sizes : Sizes α} {offered existing : Size α}
    (h : Fitted d padding plans sizes offered existing t) :
    ∀ id ∈ t.ids, ∃ size, sizes.get? id = some size := by
  induction h with
  | leaf h hplan hsize => exact List.forall_mem_singleton.2 ⟨_, hsize⟩
  | composite h hplan hfit hsize hchildren ih =>
    rw [Tree.ids_node]
    refine List.forall_mem_cons.2 ⟨⟨_, hsize⟩, fun id hid ↦ ?_⟩
    obtain ⟨child, hchild, hid⟩ := List.mem_flatMap.1 hid
    exact ih child hchild id hid

/-- Only composites have plans. -/
theorem Measures.planned {ids : List BlockId} (h : Measures d padding labels ids ∅ plans)
    {id : BlockId} {plan : Plan α} (hplan : plans[id]? = some plan) :
    d.children id ≠ [] ∧ Planned d padding labels plans id plan := by
  by_cases hid : id ∈ ids
  · by_cases hleaf : d.children id = []
    · rw [h.leaf id hid hleaf] at hplan
      cases hplan
    · obtain ⟨plan', hplan', hplanned⟩ := h.composite id hid hleaf
      rw [hplan] at hplan'
      cases hplan'
      exact ⟨hleaf, hplanned⟩
  · rw [h.other id hid, Std.ExtTreeMap.getElem?_empty] at hplan
    cases hplan

/-- The plans that the first pass over the blocks of a document makes. -/
def plansOf (d : Document) (padding : α) (labels : Sizes α) : Plans α :=
  match naturalSize d padding labels (d.size + 1) BlockId.root ∅ with
  | .ok (_, plans) => plans
  | .error _ => ∅

/-- The sizes of a document whose blocks form a tree are those that follow from its plans. -/
theorem fitted_plansOf (h : d.Shows levels t) (hroot : t.id = BlockId.root) (hnodup : t.ids.Nodup)
    (hlevels : levels ≤ d.size) {sizes : Sizes α} (hsizes : sizesOf d padding labels = .ok sizes) :
    Measures d padding labels t.ids ∅ (plansOf d padding labels) ∧
      Fitted d padding (plansOf d padding labels) sizes .zero
        (sizeOrOffer labels BlockId.root .zero) t := by
  obtain ⟨⟨size, plans⟩, hnatural, hsizes⟩ := bind_eq_ok_iff.1 hsizes
  cases hsizes
  have hplans : plansOf d padding labels = plans := by rw [plansOf, hnatural]
  rw [hplans]
  rw [← hroot] at hnatural ⊢
  obtain ⟨hmeasures, -⟩ := measures_of_naturalSize h hnodup (Nat.le_succ_of_le hlevels)
    (fun id _ ↦ Std.ExtTreeMap.getElem?_empty) hnatural
  have hcomposites : ∀ id ∈ t.ids, d.children id ≠ [] → ∃ plan, plans[id]? = some plan := by
    intro id hid hne
    obtain ⟨plan, hplan, -⟩ := hmeasures.composite id hid hne
    exact ⟨plan, hplan⟩
  exact ⟨hmeasures, (fitted_of_fit h hnodup (Nat.lt_succ_of_le hlevels)
    (fun _ _ hplan ↦ (hmeasures.planned hplan).2.spans) hcomposites fun _ _ ↦ rfl).2⟩

/-- The sizes of a document whose blocks form a tree. -/
theorem fitted_of_sizesOf (h : d.Shows levels t) (hroot : t.id = BlockId.root)
    (hnodup : t.ids.Nodup) (hlevels : levels ≤ d.size) {sizes : Sizes α}
    (hsizes : sizesOf d padding labels = .ok sizes) :
    ∃ plans, Measures d padding labels t.ids ∅ plans ∧
      Fitted d padding plans sizes .zero (sizeOrOffer labels BlockId.root .zero) t :=
  ⟨_, fitted_plansOf h hroot hnodup hlevels hsizes⟩

end BlockDiagram.Layout
