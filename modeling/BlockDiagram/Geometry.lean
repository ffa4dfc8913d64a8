import BlockDiagram.Scalar

/-!
# Points, sizes and boxes

The plane has its second axis pointing down. Boxes are kept as their corners, and blocks are placed
by their centers.
-/

namespace BlockDiagram

/-- A point of the plane. -/
structure Point (α : Type) where
  x : α
  y : α
  deriving DecidableEq, Repr

/-- A width and a height. -/
structure Size (α : Type) where
  width : α
  height : α
  deriving DecidableEq, Repr

/-- An upright box between two corners. -/
structure Bounds (α : Type) where
  minX : α
  minY : α
  maxX : α
  maxY : α
  deriving DecidableEq, Repr

variable {α : Type} [Scalar α]

open Scalar

namespace Point

/-- The point where both axes start. -/
def origin : Point α := ⟨0, 0⟩

instance : Inhabited (Point α) := ⟨origin⟩

/-- Adds coordinate by coordinate. -/
def add (p q : Point α) : Point α := ⟨p.x + q.x, p.y + q.y⟩

/-- Subtracts coordinate by coordinate. -/
def sub (p q : Point α) : Point α := ⟨p.x - q.x, p.y - q.y⟩

instance : Add (Point α) := ⟨add⟩

instance : Sub (Point α) := ⟨sub⟩

/-- The point half way between two points. -/
def midpoint (p q : Point α) : Point α := ⟨(p.x + q.x) / 2, (p.y + q.y) / 2⟩

/-- The distance from the origin. -/
def length {α : Type} [MetricScalar α] (p : Point α) : α := MetricScalar.hypot p.x p.y

/-- The point at a multiple of the distance from the origin. -/
def scale (p : Point α) (factor : α) : Point α := ⟨p.x * factor, p.y * factor⟩

/-- Holds when both coordinates are finite. -/
def isFinite (p : Point α) : Bool := Scalar.isFinite p.x && Scalar.isFinite p.y

/-- Holds for points with the same coordinates. -/
def equals (p q : Point α) : Bool := p.x == q.x && p.y == q.y

end Point

namespace Size

/-- The size of nothing. -/
def zero : Size α := ⟨0, 0⟩

instance : Inhabited (Size α) := ⟨zero⟩

/-- The smallest size that neither of two sizes exceeds. -/
def larger (s t : Size α) : Size α := ⟨Scalar.larger s.width t.width, Scalar.larger s.height t.height⟩

/-- Holds when width and height are zero. -/
def isZero (s : Size α) : Bool := s.width == 0 && s.height == 0

/-- Holds when width and height are finite. -/
def isFinite (s : Size α) : Bool := Scalar.isFinite s.width && Scalar.isFinite s.height

/-- Holds for sizes with the same width and height. -/
def equals (s t : Size α) : Bool := s.width == t.width && s.height == t.height

end Size

namespace Bounds

/-- The box that holds only the origin. -/
def zero : Bounds α := ⟨0, 0, 0, 0⟩

instance : Inhabited (Bounds α) := ⟨zero⟩

/-- The box of a size around a center. -/
def around (center : Point α) (size : Size α) : Bounds α where
  minX := center.x - size.width / 2
  minY := center.y - size.height / 2
  maxX := center.x + size.width / 2
  maxY := center.y + size.height / 2

/-- The point in the middle of a box. -/
def center (b : Bounds α) : Point α := ⟨(b.minX + b.maxX) / 2, (b.minY + b.maxY) / 2⟩

/-- The distance between the left and the right side. -/
def width (b : Bounds α) : α := b.maxX - b.minX

/-- The distance between the upper and the lower side. -/
def height (b : Bounds α) : α := b.maxY - b.minY

/-- The smallest box around two boxes. -/
def merge (a b : Bounds α) : Bounds α where
  minX := smaller a.minX b.minX
  minY := smaller a.minY b.minY
  maxX := larger a.maxX b.maxX
  maxY := larger a.maxY b.maxY

/-- Holds when the second box lies in the first, with or without touching its sides. -/
def contains (a b : Bounds α) : Bool :=
  a.minX ≤ b.minX && a.minY ≤ b.minY && b.maxX ≤ a.maxX && b.maxY ≤ a.maxY

/-- Holds when all corners are finite. -/
def isFinite (b : Bounds α) : Bool :=
  Scalar.isFinite b.minX && Scalar.isFinite b.minY && Scalar.isFinite b.maxX &&
    Scalar.isFinite b.maxY

end Bounds

end BlockDiagram
