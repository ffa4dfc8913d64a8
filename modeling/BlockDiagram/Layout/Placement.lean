import BlockDiagram.Layout.Sizing

/-!
# Places

Where blocks are. The root is centered at the origin. The children of a composite stand side by side in
the rows of its grid, from its left side on; all rows have the height of the tallest child, and a
shorter one stands in the middle of its row.
-/

namespace BlockDiagram.Layout

variable {α : Type} [Scalar α]

open Scalar

/-- The centers of blocks, in the order in which they were first set. -/
abbrev Centers (α : Type) := OrderedMap (Point α)

/-- The size of a block; that of nothing if it has none. -/
def sizeOf (sizes : Sizes α) (id : BlockId) : Size α :=
  (sizes.get? id).getD .zero

/-- The height of the rows of a composite: that of the tallest child that is no spacer. -/
def rowHeight (document : Document) (sizes : Sizes α) (children : List BlockId) : α :=
  ((children.filter fun child ↦ !isSpacer document child).map fun child ↦
    (sizeOf sizes child).height).foldl larger 0

/-- Where the next child of a composite goes. -/
structure Cursor (α : Type) where
  x : α
  row : Nat

/-- The center of the next child of a composite, where rows start at `left`, the first one at `top`,
and have the given height. -/
def nextCenter (padding left top height : α) (cursor : Cursor α) (cell : Cell) (width : α) :
    Point α :=
  let start := if cell.row = cursor.row then cursor.x else left
  ⟨start + padding + width / 2, top + ofNat cell.row * (height + padding) + height / 2 + padding⟩

/-- Places the blocks inside a composite, `levels` deep. The composite itself has its place already;
`left` is where its rows start. -/
def placeInside (document : Document) (padding : α) (sizes : Sizes α) :
    Nat → BlockId → α → Centers α → Except GridError (Centers α)
  | 0, _, _, centers => pure centers
  | levels + 1, id, left, centers =>
    let children := document.children id
    if children.isEmpty then pure centers
    else do
      let grid ← gridOf document id
      let center := (centers.get? id).getD .origin
      let top := center.y - (sizeOf sizes id).height / 2
      let height := rowHeight document sizes children
      let (_, centers) ← (children.zip grid.cells).foldlM
        (fun (cursor, centers) (child, cell) ↦ do
          let width := (sizeOf sizes child).width
          let center := nextCenter padding left top height cursor cell width
          let centers := centers.insert child center
          let centers ←
            placeInside document padding sizes levels child (center.x - width / 2) centers
          return ((⟨center.x + width / 2, cell.row⟩ : Cursor α), centers))
        ((⟨left, 0⟩ : Cursor α), centers)
      return centers

/-- The centers of all blocks of a document with the given sizes. -/
def centersOf (document : Document) (padding : α) (sizes : Sizes α) :
    Except GridError (Centers α) :=
  placeInside document padding sizes (document.size + 1) BlockId.root (-padding)
    (OrderedMap.empty.insert BlockId.root .origin)

end BlockDiagram.Layout
