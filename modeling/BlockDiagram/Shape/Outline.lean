import BlockDiagram.Geometry
import BlockDiagram.Shape

/-!
# The room that shapes take and their outlines

How large a shape has to be to hold a label, and the corners of the shapes that are polygons. Corners
are given relative to the center of the block.
-/

namespace BlockDiagram.Shape

variable {α : Type} [Scalar α]

open Scalar

/-- The width of the bars at the sides of a subroutine, taken together. -/
def subroutineBars : α := 16

/-- The distance between the two rings of a double circle. -/
def ringGap : α := 5

/-- The vertical radius of the caps of a cylinder. -/
def cylinderCap (width : α) : α :=
  width / 2 / (2.5 + width / 50)

/-- The size of a shape around a label. Composites and spacers take theirs from the layout. -/
def contentSize (shape : Shape) (label : Size α) (padding : α) (directions : List Direction) :
    Size α :=
  let w := label.width
  let h := label.height
  let paddedHeight := h + padding
  match shape with
  | composite | space => .zero
  | unknown | square | round => ⟨w + padding, paddedHeight⟩
  | flag | hexagon => ⟨w + padding + paddedHeight / 2, paddedHeight⟩
  | circle =>
    let diameter := larger w h + padding
    ⟨diameter, diameter⟩
  | doubleCircle =>
    let diameter := larger w h + padding + ringGap * 2
    ⟨diameter, diameter⟩
  | diamond =>
    let side := w + h + padding * 2
    ⟨side, side⟩
  | stadium => ⟨w + padding + paddedHeight / 4, paddedHeight⟩
  | subroutine => ⟨w + padding + subroutineBars, paddedHeight⟩
  | cylinder =>
    let radius := (w + padding) / 2
    ⟨radius * 2, paddedHeight + cylinderCap (w + padding) * 2⟩
  | leanLeft | leanRight | trapezoid | invTrapezoid =>
    ⟨w + padding + paddedHeight * 2 / 3, paddedHeight⟩
  | blockArrow =>
    if directions.any Direction.isHorizontal || directions.isEmpty then
      let arrowHeight := h + padding * 2
      ⟨w + arrowHeight + padding, arrowHeight⟩
    else
      let arrowWidth := w + padding * 2
      ⟨arrowWidth, h + arrowWidth + padding⟩

/-- The corners of an arrow along the horizontal, with a head at each end that `left` or `right`
asks for. -/
def horizontalArrow (size : Size α) (left right : Bool) : List (Point α) :=
  let hw := size.width / 2
  let hh := size.height / 2
  let head := hh
  let body := hh / 2
  (if left then [⟨-hw, 0⟩, ⟨-hw + head, -hh⟩, ⟨-hw + head, -body⟩] else [⟨-hw, -body⟩]) ++
  (if right then
    [⟨hw - head, -body⟩, ⟨hw - head, -hh⟩, ⟨hw, 0⟩, ⟨hw - head, hh⟩, ⟨hw - head, body⟩]
  else [⟨hw, -body⟩, ⟨hw, body⟩]) ++
  (if left then [⟨-hw + head, body⟩, ⟨-hw + head, hh⟩] else [⟨-hw, body⟩])

/-- The corners of an arrow along the vertical, with a head at each end that `up` or `down` asks
for. -/
def verticalArrow (size : Size α) (up down : Bool) : List (Point α) :=
  let hw := size.width / 2
  let hh := size.height / 2
  let head := hw
  let body := hw / 2
  (if up then [⟨0, -hh⟩, ⟨hw, -hh + head⟩, ⟨body, -hh + head⟩] else [⟨body, -hh⟩]) ++
  (if down then
    [⟨body, hh - head⟩, ⟨hw, hh - head⟩, ⟨0, hh⟩, ⟨-hw, hh - head⟩, ⟨-body, hh - head⟩]
  else [⟨body, hh⟩, ⟨-body, hh⟩]) ++
  (if up then [⟨-body, -hh + head⟩, ⟨-hw, -hh + head⟩] else [⟨-body, -hh⟩])

/-- The corners of an arrow. It lies along the horizontal if any direction does, and is no arrow
without directions. -/
def arrowOutline? (size : Size α) (directions : List Direction) : Option (List (Point α)) :=
  let has := directions.contains
  if directions.any Direction.isHorizontal then
    some (horizontalArrow size (has .left || has .x) (has .right || has .x))
  else if directions.any Direction.isVertical then
    some (verticalArrow size (has .up || has .y) (has .down || has .y))
  else none

/-- The corners of a shape that is a polygon and not just its box. -/
def outline? (shape : Shape) (size : Size α) (directions : List Direction) :
    Option (List (Point α)) :=
  let hw := size.width / 2
  let hh := size.height / 2
  match shape with
  | diamond => some [⟨0, -hh⟩, ⟨hw, 0⟩, ⟨0, hh⟩, ⟨-hw, 0⟩]
  | hexagon =>
    let m := size.height / 4
    some [⟨-hw + m, -hh⟩, ⟨hw - m, -hh⟩, ⟨hw, 0⟩, ⟨hw - m, hh⟩, ⟨-hw + m, hh⟩, ⟨-hw, 0⟩]
  | leanRight =>
    let o := size.height * 2 / 3
    some [⟨-hw + o, -hh⟩, ⟨hw, -hh⟩, ⟨hw - o, hh⟩, ⟨-hw, hh⟩]
  | leanLeft =>
    let o := size.height * 2 / 3
    some [⟨-hw, -hh⟩, ⟨hw - o, -hh⟩, ⟨hw, hh⟩, ⟨-hw + o, hh⟩]
  | trapezoid =>
    let o := size.height / 3
    some [⟨-hw + o, -hh⟩, ⟨hw - o, -hh⟩, ⟨hw, hh⟩, ⟨-hw, hh⟩]
  | invTrapezoid =>
    let o := size.height / 3
    some [⟨-hw, -hh⟩, ⟨hw, -hh⟩, ⟨hw - o, hh⟩, ⟨-hw + o, hh⟩]
  | flag => some [⟨-hw, -hh⟩, ⟨hw, -hh⟩, ⟨hw, hh⟩, ⟨-hw, hh⟩, ⟨-hw + hh, 0⟩]
  | blockArrow => arrowOutline? size directions
  | _ => none

end BlockDiagram.Shape
