import BlockDiagram.Diagram
import BlockDiagram.Shape.Crossing

/-!
# Drawings

What has to be drawn of a diagram, step by step: the blocks, composites before the blocks inside
them, then the edges, cut off at the borders of the blocks they connect.
-/

namespace BlockDiagram

variable {α : Type} [MetricScalar α]

/-- The figures that blocks are drawn with. -/
inductive Figure (α : Type) where
  /-- A box with rounded corners. -/
  | rectangle (radius : α)
  /-- The frame of a composite. -/
  | frame
  | circle
  | doubleCircle
  | stadium
  | subroutine
  | cylinder
  /-- The outline of a shape. -/
  | outline (shape : Shape)
  deriving DecidableEq, Repr

/-- The radius of the corners of round blocks. -/
def cornerRadius : α := 5

/-- The figure of a shape; spacers are not drawn. -/
def Shape.figure? : Shape → Option (Figure α)
  | .space => none
  | .unknown | .square => some (.rectangle 0)
  | .round => some (.rectangle cornerRadius)
  | .composite => some .frame
  | .circle => some .circle
  | .doubleCircle => some .doubleCircle
  | .stadium => some .stadium
  | .subroutine => some .subroutine
  | .cylinder => some .cylinder
  | shape => some (.outline shape)

/-- A step of a drawing. -/
inductive DrawStep (α : Type) where
  | block (block : PlacedBlock α) (figure : Figure α)
  | edge (edge : RoutedEdge α) (points : List (Point α))

namespace PlacedBlock

/-- Where the line from the center of a block to a point crosses the border of the block. -/
def crossing (b : PlacedBlock α) (toward : Point α) : Point α :=
  b.block.shape.crossing b.center b.size b.block.directions toward

end PlacedBlock

/-- A line from the center of one block to that of another, cut off at their borders. -/
def clipped (start target : PlacedBlock α) (points : List (Point α)) : List (Point α) :=
  match points with
  | [] | [_] => points
  | _ :: second :: rest =>
    let points := start.crossing second :: second :: rest
    let before := (points.dropLast.getLast?).getD second
    points.dropLast ++ [target.crossing before]

namespace Diagram

/-- The steps that draw the blocks of a diagram. -/
def blockSteps (d : Diagram α) : List (DrawStep α) :=
  d.blocks.values.filterMap fun b ↦ b.block.shape.figure?.map (.block b)

/-- The steps that draw the edges of a diagram. An edge is drawn if both its ends are. That it has
points need not be asked: all edges of a diagram do (`route`). -/
def edgeSteps (d : Diagram α) : List (DrawStep α) :=
  d.edges.filterMap fun e ↦ do
    let start ← d.blocks.get? e.edge.start
    let target ← d.blocks.get? e.edge.target
    return .edge e (clipped start target e.points)

/-- The steps that draw a diagram. -/
def drawing (d : Diagram α) : List (DrawStep α) :=
  d.blockSteps ++ d.edgeSteps

end Diagram

end BlockDiagram
