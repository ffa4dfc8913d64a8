import BlockDiagram.Link
import BlockDiagram.Shape
import BlockDiagram.Text.Pieces

/-!
# Blocks, edges and style classes

What a diagram consists of, before anything has a size or a place.
-/

namespace BlockDiagram

/-- The name of a block or an edge. -/
abbrev BlockId := String

namespace BlockId

/-- The name of the composite that holds a whole diagram. -/
def root : BlockId := "root"

/-- The name for the part of a block with the given number. -/
def numbered (id : BlockId) (n : Nat) : BlockId :=
  s!"{id}-{n}"

end BlockId

/-- A block of a diagram. -/
structure Block where
  id : BlockId
  label : String
  /-- Whether the label is written in markdown. -/
  markdown : Bool := false
  shape : Shape
  /-- The number of columns that the block spans. -/
  width : Nat := 1
  directions : List Direction := []
  children : List BlockId := []
  /-- The number of columns that the children are laid out in; negative for as many as needed. -/
  columns : Int := -1
  /-- The style classes of the block, in the order in which they were applied. -/
  classes : List String := []
  /-- The block's own style declarations. -/
  styles : List String := []
  deriving DecidableEq, Repr

namespace Block

/-- A block with its id as its label; a composite has no label of its own. -/
def ofShape (id : BlockId) (shape : Shape) : Block where
  id := id
  label := if shape = .composite then "" else id
  shape := shape

/-- Holds for blocks that hold other blocks. -/
def isComposite (b : Block) : Bool :=
  b.shape = .composite

/-- Holds for empty cells. -/
def isSpace (b : Block) : Bool :=
  b.shape = .space

/-- The block with a width in columns, which is one at least. -/
def withWidth (b : Block) (width : Nat) : Block :=
  { b with width := max width 1 }

/-- The block with a class applied to it, unless it is already. -/
def addClass (b : Block) (name : String) : Block :=
  if b.classes.contains name then b else { b with classes := b.classes ++ [name] }

/-- The block with one more style declaration. -/
def addStyle (b : Block) (declaration : String) : Block :=
  { b with styles := b.styles ++ [declaration] }

end Block

/-- A connection between two blocks. -/
structure Edge where
  id : BlockId
  start : BlockId
  target : BlockId
  label : Option String := none
  startMarker : Marker := .none
  endMarker : Marker := .point
  stroke : Stroke := .normal
  /-- The directions that are written behind the link, with the node at the end. -/
  directions : List Direction := []
  deriving DecidableEq, Repr

/-- A named set of style declarations. -/
structure StyleClass where
  name : String
  styles : List String := []
  /-- The declarations for the text of labels, which follow from the others. -/
  textStyles : List String := []
  deriving DecidableEq, Repr

namespace StyleClass

/-- The declaration for the text of labels that a declaration with a color in it brings along. Its
fill is then about the background, and its color about the fill. -/
def textStyle? (declaration : String) : Option String :=
  let text := declaration.toList
  if Text.occurs "color".toList text then
    let renamed := Text.replaceFirst "fill".toList "bgFill".toList text
    some (String.ofList (Text.replaceFirst "color".toList "fill".toList renamed))
  else none

/-- The class with one more declaration. -/
def push (c : StyleClass) (declaration : String) : StyleClass :=
  { c with
    styles := c.styles ++ [declaration]
    textStyles := c.textStyles ++ (textStyle? declaration).toList }

end StyleClass

end BlockDiagram
