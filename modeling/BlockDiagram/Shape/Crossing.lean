import BlockDiagram.Shape.Outline

/-!
# Where lines leave shapes

The point at which a line from the center of a shape crosses its border on the way to another point.
When that point is at the center, or no crossing is found, the other point itself is taken.
-/

namespace BlockDiagram.Shape

variable {α : Type} [MetricScalar α]

open Scalar MetricScalar

/-- The distance below which two points count as one. -/
def samePlace : α := 0.001

/-- The point at distance `t` from `a` in a direction of length one. -/
def along (a direction : Point α) (t : α) : Point α :=
  ⟨mulAdd direction.x t a.x, mulAdd direction.y t a.y⟩

/-- The smaller of two distances along a ray, if the second one is in front and `hits`. -/
def nearer (hits : α → Bool) (best t : α) : α :=
  if isFinite t && 0 < t && t < best && hits t then t else best

/-- Where the line from the center `a` of a box to `b` crosses its border. -/
def rectangleCrossing (a b : Point α) (size : Size α) : Point α :=
  let halfWidth := size.width / 2
  let halfHeight := size.height / 2
  let ray := b - a
  let length := ray.length
  if length < samePlace then b
  else
    let direction : Point α := ⟨ray.x / length, ray.y / length⟩
    let hitsHorizontal (t : α) : Bool :=
      let x := mulAdd direction.x t a.x
      a.x - halfWidth ≤ x && x ≤ a.x + halfWidth
    let hitsVertical (t : α) : Bool :=
      let y := mulAdd direction.y t a.y
      a.y - halfHeight ≤ y && y ≤ a.y + halfHeight
    let t := [-halfHeight / direction.y, halfHeight / direction.y].foldl (nearer hitsHorizontal)
      largest
    let t := [-halfWidth / direction.x, halfWidth / direction.x].foldl (nearer hitsVertical) t
    if t == largest then b else along a direction t

/-- Where the line from the center `a` of an ellipse to `b` crosses its border. -/
def ellipseCrossing (a b : Point α) (size : Size α) : Point α :=
  let halfWidth := size.width / 2
  let halfHeight := size.height / 2
  let ray := b - a
  let length := ray.length
  if length < samePlace then b
  else
    let direction : Point α := ⟨ray.x / length, ray.y / length⟩
    let (cosine, sine) := heading direction.x direction.y
    let radius := halfWidth * halfHeight / hypot (halfHeight * cosine) (halfWidth * sine)
    along a direction radius

/-- The signed area between two vectors. -/
def cross (u v : Point α) : α :=
  u.x * v.y - u.y * v.x

/-- The sides of a closed outline. -/
def sides {β : Type} (outline : List β) : List (β × β) :=
  outline.zip (outline.drop 1 ++ outline.take 1)

/-- The multiple of `ray` at which the ray from `a` crosses a side, in front of `a` and nearer than
`best`; `best` otherwise. -/
def sideCrossing (a ray : Point α) (best : Option α) (side : Point α × Point α) : Option α :=
  let start := a + side.1
  let edge := (a + side.2) - start
  let area := cross ray edge
  if Scalar.abs area < epsilon then best
  else
    let offset := start - a
    let t := cross offset edge / area
    let s := cross offset ray / area
    if 0 < t && 0 ≤ s && s ≤ 1 && best.all (t < ·) then some t else best

/-- Where the line from the center `a` of an outline to `b` first crosses the outline. -/
def outlineCrossing (a b : Point α) (outline : List (Point α)) : Point α :=
  let ray := b - a
  if ray.length < samePlace then b
  else
    match (sides outline).foldl (sideCrossing a ray) none with
    | some t => a + ray.scale t
    | none => b

/-- Where the line from the center of a shape to another point crosses its border. -/
def crossing (shape : Shape) (center : Point α) (size : Size α) (directions : List Direction)
    (toward : Point α) : Point α :=
  match shape with
  | circle | doubleCircle => ellipseCrossing center toward size
  | _ =>
    match shape.outline? size directions with
    | some outline => outlineCrossing center toward outline
    | none => rectangleCrossing center toward size

end BlockDiagram.Shape
