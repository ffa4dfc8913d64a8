import BlockDiagram.Layout

/-!
# Diagrams

A document joined with its layout: every block of the tree with its size and place, every edge with
its points, and the box around all of them.
-/

namespace BlockDiagram

/-- A block with its place. -/
structure PlacedBlock (α : Type) where
  block : Block
  center : Point α
  size : Size α

/-- An edge with the points it passes. -/
structure RoutedEdge (α : Type) where
  edge : Edge
  points : List (Point α)

/-- A diagram that can be drawn. -/
structure Diagram (α : Type) where
  /-- The blocks of the tree, parents before their children. -/
  blocks : OrderedMap (PlacedBlock α)
  edges : List (RoutedEdge α)
  classes : OrderedMap StyleClass
  /-- The box around all blocks and the origin. -/
  bounds : Bounds α
  title : Option String
  description : Option String

namespace PlacedBlock

variable {α : Type} [Scalar α]

/-- The box of a block. -/
def bounds (b : PlacedBlock α) : Bounds α :=
  .around b.center b.size

end PlacedBlock

namespace Diagram

variable {α : Type} [Scalar α]

/-- An edge that names a block which does not exist. -/
structure Unresolved where
  edge : BlockId
  block : BlockId
  deriving DecidableEq, Repr

namespace Unresolved

/-- What is wrong. -/
def message (u : Unresolved) : String :=
  s!"edge `{u.edge}` references undeclared block `{u.block}`"

end Unresolved

/-- A block with its place, if it has one. -/
def placed? (layout : Layout α) (b : Block) : Option (PlacedBlock α) := do
  return { block := b, center := ← layout.centers.get? b.id, size := ← layout.sizes.get? b.id }

/-- An edge from center to center, by way of the point between them. -/
def route (e : Edge) (start target : Point α) : RoutedEdge α where
  edge := e
  points := [start, start.midpoint target, target]

/-- The edges whose ends both have a place. An end that is no block at all is an error. -/
def routes (document : Document) (layout : Layout α) :
    List Edge → Except Unresolved (List (RoutedEdge α))
  | [] => pure []
  | e :: edges =>
    match [e.start, e.target].find? fun id ↦ !document.contains id with
    | some id => throw ⟨e.id, id⟩
    | none => do
      let rest ← routes document layout edges
      match layout.centers.get? e.start, layout.centers.get? e.target with
      | some start, some target => pure (route e start target :: rest)
      | _, _ => pure rest

/-- The diagram of a document with a layout. -/
def resolve (document : Document) (layout : Layout α) : Except Unresolved (Diagram α) := do
  let blocks := document.walk.filterMap (placed? layout)
  let edges ← routes document layout document.edges.toList
  return {
    blocks := blocks.foldl (fun blocks b ↦ blocks.insert b.block.id b) .empty
    edges
    classes := document.classes
    bounds := (blocks.map PlacedBlock.bounds).foldl Bounds.merge .zero
    title := document.title
    description := document.description }

end Diagram

end BlockDiagram
