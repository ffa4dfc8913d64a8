/-!
# Grids

Cells in rows of a fixed number of columns. Blocks are put into the cells in reading order; a block
that does not fit into the rest of its row starts the next one.
-/

namespace BlockDiagram.Layout

/-- A column and a row, both counted from zero. -/
structure Cell where
  column : Nat
  row : Nat
  deriving DecidableEq, Repr

/-- Why a position has no cell. -/
inductive GridError where
  | zeroColumns
  | negativePosition (position : Int)
  deriving DecidableEq, Repr

namespace GridError

/-- What is wrong. -/
def message : GridError → String
  | zeroColumns => "column count must be a non-zero integer"
  | negativePosition position => s!"grid position must be non-negative, got {position}"

end GridError

/-- The cell at a position in reading order. With a negative column count there is only one row. -/
def cellAt (columns position : Int) : Except GridError Cell :=
  if columns = 0 then throw .zeroColumns
  else if position < 0 then throw (.negativePosition position)
  else if columns < 0 then pure ⟨position.toNat, 0⟩
  else pure ⟨position.toNat % columns.toNat, position.toNat / columns.toNat⟩

/-- The largest column count of a grid. -/
def maxGridColumns : Nat := 0x7fffffff

/-- A position in 64 bits, where the positions from the middle on count as negative. -/
def inWord (position : Nat) : Int :=
  (position : Int).bmod 0x10000000000000000

/-- The rows and columns of a composite, and the cell in which each block starts. -/
structure Grid where
  columns : Nat
  rows : Nat
  cells : List Cell
  deriving DecidableEq, Repr

namespace Grid

/-- The cells of blocks that span the given numbers of columns, where `position` is the first one
that is free. Rows end after `active` columns; in a grid with one row only, `columns` is negative. -/
def cellsFrom (columns : Int) (active position : Nat) :
    List Nat → Except GridError (List Cell)
  | [] => pure []
  | span :: spans => do
    let cell ← cellAt columns (inWord position)
    if 0 < columns && 0 < cell.column && active < cell.column + span then
      let position := position + (active - cell.column)
      let cell ← cellAt columns (inWord position)
      return cell :: (← cellsFrom columns active (position + span) spans)
    else
      return cell :: (← cellsFrom columns active (position + span) spans)

/-- The grid for blocks that span the given numbers of columns. A column count applies if it is
smaller than all the spans together, and is raised to the widest of them. -/
def ofSpans (columns : Int) (spans : List Nat) : Except GridError Grid :=
  if columns = 0 then throw .zeroColumns
  else do
    let total := spans.foldr (· + ·) 0
    let widest := if spans.isEmpty then 1 else spans.foldl max 0
    let wraps := 0 ≤ columns && columns.toNat < total
    let active := if wraps then max columns.toNat widest else total
    let gridColumns : Int := if wraps then min active maxGridColumns else -1
    let cells ← cellsFrom gridColumns active 0 spans
    return { columns := active, rows := cells.getLast?.elim 0 (·.row + 1), cells }

end Grid

end BlockDiagram.Layout
