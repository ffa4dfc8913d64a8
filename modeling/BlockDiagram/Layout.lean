import BlockDiagram.Decimal.Single
import BlockDiagram.Layout.Placement
import BlockDiagram.Shape.Outline

/-!
# Layouts

The size and the center of every block of a document.
-/

namespace BlockDiagram.Layout

variable {α : Type} [Scalar α]

open Scalar

/-- What a layout depends on besides the document. -/
structure Settings (α : Type) where
  /-- The distance between blocks, and from the border of a composite to the blocks in it. -/
  padding : α
  /-- The distance from the border of a shape to its label. -/
  nodePadding : α
  /-- The least sizes of shapes; of several for one shape the first counts. -/
  leastSizes : List (Shape × Size α)

/-- Why a document has no layout. -/
inductive Error (α : Type) where
  | grid (error : GridError)
  | nonFinite (id : BlockId)
  | invalidPadding (padding : α)
  deriving DecidableEq, Repr

namespace Error

/-- What is wrong. -/
def message : Error Float32 → String
  | grid error => error.message
  | nonFinite id => s!"block `{id}` has non-finite geometry"
  | invalidPadding padding =>
    s!"padding must be a finite, non-negative number, got {Decimal.showSingle padding}"

end Error

end BlockDiagram.Layout

namespace BlockDiagram

/-- The sizes and centers of blocks. -/
structure Layout (α : Type) where
  sizes : Layout.Sizes α
  centers : Layout.Centers α

namespace Layout

variable {α : Type} [Scalar α]

open Scalar

/-- Holds for distances that a layout can keep. -/
def isValidPadding (padding : α) : Bool :=
  isFinite padding && !decide (padding < 0)

/-- The size of a block with a label, where `measure` is the size of texts. -/
def labelledSize (settings : Settings α) (measure : String → Size α) (b : Block) : Size α :=
  let size := b.shape.contentSize (measure b.label) settings.nodePadding b.directions
  (settings.leastSizes.lookup b.shape).elim size size.larger

/-- The sizes of all blocks of the tree that have a label. -/
def labelSizes (settings : Settings α) (measure : String → Size α) (document : Document) : Sizes α :=
  (document.walk.filter fun b ↦ !b.isComposite && !b.isSpace).foldl
    (fun sizes b ↦ sizes.insert b.id (labelledSize settings measure b)) .empty

/-- The layout of a document whose labels, with the shapes around them, have the given sizes. -/
def arrange (document : Document) (padding : α) (labels : Sizes α) :
    Except GridError (Layout α) := do
  let sizes ← sizesOf document padding labels
  let centers ← centersOf document padding sizes
  return { sizes, centers }

/-- The first block whose size is not finite, or else whose center is not. -/
def nonFinite? (layout : Layout α) : Option BlockId :=
  match layout.sizes.toList.find? fun (_, size) ↦ !size.isFinite with
  | some (id, _) => some id
  | none => (layout.centers.toList.find? fun (_, center) ↦ !center.isFinite).map Prod.fst

/-- The layout of a document. -/
def compute (settings : Settings α) (measure : String → Size α) (document : Document) :
    Except (Error α) (Layout α) :=
  match [settings.padding, settings.nodePadding].find? fun p ↦ !isValidPadding p with
  | some padding => throw (.invalidPadding padding)
  | none =>
    match arrange document settings.padding (labelSizes settings measure document) with
    | .error error => throw (.grid error)
    | .ok layout =>
      match layout.nonFinite? with
      | some id => throw (.nonFinite id)
      | none => pure layout

end BlockDiagram.Layout
