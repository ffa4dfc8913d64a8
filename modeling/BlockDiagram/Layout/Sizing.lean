import BlockDiagram.Document
import BlockDiagram.Geometry
import BlockDiagram.Layout.Grid

/-!
# Sizes

How large blocks are. First, from the leaves up, every composite gets its natural size: its children
share one cell size, the widest width per column and the tallest height among them, and a child over
several columns takes the gaps between them along. Then, from the root down, every composite is fitted
to the cell that its parent offers and stretches its own cells where that is wider.
-/

namespace BlockDiagram.Layout

variable {α : Type} [Scalar α]

open Scalar

/-- The sizes of blocks, in the order in which they were first set. -/
abbrev Sizes (α : Type) := OrderedMap (Size α)

/-- The grid of a composite and the natural size of its cells. -/
structure Plan (α : Type) where
  columns : α
  rows : α
  spans : List Nat
  cell : Size α

/-- The plans of composites. -/
abbrev Plans (α : Type) := Std.ExtTreeMap BlockId (Plan α)

/-- The number of columns that a block spans. -/
def spanOf (document : Document) (id : BlockId) : Nat :=
  (document.block? id).elim 1 Block.width

/-- The grid of a composite. -/
def gridOf (document : Document) (id : BlockId) : Except GridError Grid :=
  Grid.ofSpans ((document.block? id).elim (-1) Block.columns)
    ((document.children id).map (spanOf document))

/-- Holds for the names of spacers. -/
def isSpacer (document : Document) (id : BlockId) : Bool :=
  (document.block? id).any Block.isSpace

/-- The size of a composite whose cells have the given size. -/
def extent (padding : α) (plan : Plan α) (cell : Size α) : Size α where
  width := plan.columns * (cell.width + padding) + padding
  height := plan.rows * (cell.height + padding) + padding

/-- The width of a block over several columns. -/
def spanWidth (padding cellWidth : α) (span : Nat) : α :=
  cellWidth * ofNat span + padding * (ofNat span - 1)

/-- A cell that also has room for a child over several columns. Spacers need no room. -/
def widened (document : Document) (cell : Size α) (child : BlockId) (span : Nat) (size : Size α) :
    Size α :=
  if isSpacer document child then cell
  else cell.larger ⟨size.width / ofNat span, size.height⟩

/-- Finds the natural size of a block and the plans of the composites in it, `levels` deep. A block
without children has the size of its label. -/
def naturalSize (document : Document) (padding : α) (labels : Sizes α) :
    Nat → BlockId → Plans α → Except GridError (Size α × Plans α)
  | 0, id, plans => pure ((labels.get? id).getD .zero, plans)
  | levels + 1, id, plans =>
    let children := document.children id
    if children.isEmpty then pure ((labels.get? id).getD .zero, plans)
    else do
      let spans := children.map (spanOf document)
      let grid ← gridOf document id
      let (cell, plans) ← (children.zip spans).foldlM
        (fun (cell, plans) (child, span) ↦ do
          let (size, plans) ← naturalSize document padding labels levels child plans
          return (widened document cell child span size, plans))
        (Size.zero, plans)
      let plan := { columns := ofNat grid.columns, rows := ofNat grid.rows, spans, cell }
      return (extent padding plan cell, plans.insert id plan)

/-- Sizes under way, and the plans of the composites that have not been fitted yet. -/
structure Fitting (α : Type) where
  sizes : Sizes α
  plans : Plans α

/-- The size of a composite and its cells, which are stretched if its parent offers a wider cell. -/
def stretchPlan (padding : α) (plan : Plan α) (offered : Size α) : Size α × Size α :=
  let natural := extent padding plan plan.cell
  if natural.width < offered.width then
    (offered,
      ⟨(offered.width - plan.columns * padding - padding) / plan.columns,
        (offered.height - plan.rows * padding - padding) / plan.rows⟩)
  else (natural, plan.cell)

/-- The final size of a composite and its cells, next to the cell that its parent offers and the size
it had before. -/
def fitPlan (padding : α) (plan : Plan α) (offered existing : Size α) : Size α × Size α :=
  let (size, cell) := stretchPlan padding plan offered
  if size.width < existing.width then
    (⟨existing.width, size.height⟩,
      ⟨(existing.width - plan.columns * padding - padding) / plan.columns, cell.height⟩)
  else (size, cell)

/-- Gives every child of a composite the size of the cells it takes. -/
def stampCells (padding : α) (cell : Size α) (sizes : Sizes α) (children : List (BlockId × Nat)) :
    Sizes α :=
  children.foldl
    (fun sizes (child, span) ↦ sizes.insert child ⟨spanWidth padding cell.width span, cell.height⟩)
    sizes

/-- The size a block has before it is fitted. One without a width takes what is offered. -/
def sizeOrOffer (sizes : Sizes α) (id : BlockId) (offered : Size α) : Size α :=
  match sizes.get? id with
  | some size => if size.width != 0 then size else offered
  | none => offered

/-- Fits a block and all blocks inside it, `levels` deep. A composite is fitted once. -/
def fit (document : Document) (padding : α) :
    Nat → BlockId → Size α → Fitting α → Fitting α
  | 0, _, _, fitting => fitting
  | levels + 1, id, offered, fitting =>
    let existing := sizeOrOffer fitting.sizes id offered
    let fitting := { fitting with sizes := fitting.sizes.insert id existing }
    match fitting.plans[id]? with
    | none => fitting
    | some plan =>
      let (size, cell) := fitPlan padding plan offered existing
      let children := document.children id
      let sizes := stampCells padding cell (fitting.sizes.insert id size) (children.zip plan.spans)
      children.foldl (fun fitting child ↦ fit document padding levels child cell fitting)
        { sizes, plans := fitting.plans.erase id }

/-- The sizes of all blocks of a document, where the labels and their shapes have the given sizes. -/
def sizesOf (document : Document) (padding : α) (labels : Sizes α) :
    Except GridError (Sizes α) := do
  let levels := document.size + 1
  let (_, plans) ← naturalSize document padding labels levels BlockId.root ∅
  return (fit document padding levels BlockId.root .zero ⟨labels, plans⟩).sizes

end BlockDiagram.Layout
