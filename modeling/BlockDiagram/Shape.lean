/-!
# Shapes and directions

The closed set of shapes that a block can take, the brackets that ask for them, and the directions
that an arrow-shaped block can point in.
-/

namespace BlockDiagram

/-- A direction of an arrow-shaped block. -/
inductive Direction where
  | up
  | down
  | left
  | right
  /-- Both ways along the horizontal. -/
  | x
  /-- Both ways along the vertical. -/
  | y
  deriving DecidableEq, Repr

namespace Direction

/-- Every direction. -/
def all : List Direction := [up, down, left, right, x, y]

/-- The word for a direction. -/
def name : Direction → String
  | up => "up"
  | down => "down"
  | left => "left"
  | right => "right"
  | x => "x"
  | y => "y"

/-- The direction that a word stands for. -/
def ofName? (name : String) : Option Direction :=
  all.find? (·.name = name)

/-- Holds for the directions along the horizontal. -/
def isHorizontal : Direction → Bool
  | left | right | x => true
  | up | down | y => false

/-- Holds for the directions along the vertical. -/
def isVertical (d : Direction) : Bool :=
  !d.isHorizontal

end Direction

/-- The shape of a block. -/
inductive Shape where
  /-- No shape is known, because of unmatched brackets or for lack of a declaration. -/
  | unknown
  | square
  | round
  | circle
  | doubleCircle
  | diamond
  | hexagon
  | stadium
  | subroutine
  | cylinder
  | leanLeft
  | leanRight
  | trapezoid
  | invTrapezoid
  | flag
  | blockArrow
  /-- A block that holds other blocks. -/
  | composite
  /-- An empty cell. -/
  | space
  deriving DecidableEq, Repr

namespace Shape

/-- Every shape. -/
def all : List Shape := [
  unknown, square, round, circle, doubleCircle, diamond, hexagon, stadium, subroutine, cylinder,
  leanLeft, leanRight, trapezoid, invTrapezoid, flag, blockArrow, composite, space]

/-- The name of a shape in configurations and output. -/
def name : Shape → String
  | unknown => "unknown"
  | square => "square"
  | round => "round"
  | circle => "circle"
  | doubleCircle => "double_circle"
  | diamond => "diamond"
  | hexagon => "hexagon"
  | stadium => "stadium"
  | subroutine => "subroutine"
  | cylinder => "cylinder"
  | leanLeft => "lean_left"
  | leanRight => "lean_right"
  | trapezoid => "trapezoid"
  | invTrapezoid => "inv_trapezoid"
  | flag => "rect_left_inv_arrow"
  | blockArrow => "block_arrow"
  | composite => "composite"
  | space => "space"

/-- The shape that a name stands for. -/
def ofName? (name : String) : Option Shape :=
  all.find? (·.name = name)

/-- The shape that a pair of brackets asks for. -/
def ofBrackets (opening closing : String) : Shape :=
  match opening, closing with
  | "[", "]" => square
  | "(", ")" => round
  | "((", "))" => circle
  | "(((", ")))" => doubleCircle
  | ">", "]" => flag
  | "\x7b", "\x7d" => diamond
  | "\x7b\x7b", "\x7d\x7d" => hexagon
  | "([", "])" => stadium
  | "[[", "]]" => subroutine
  | "[(", ")]" => cylinder
  | "[/", "/]" => leanRight
  | "[\\", "\\]" => leanLeft
  | "[/", "\\]" => trapezoid
  | "[\\", "/]" => invTrapezoid
  | "<[", "]>" => blockArrow
  | _, _ => unknown

/-- A shape is found under its own name. -/
theorem ofName?_name (shape : Shape) : ofName? shape.name = some shape := by
  cases shape <;> decide

end Shape

end BlockDiagram
