import BlockDiagram.Geometry
import BlockDiagram.Text.Pieces

/-!
# The size of labels

An estimate that takes all characters for equally wide.
-/

namespace BlockDiagram.Text

variable {α : Type} [Scalar α]

open Scalar

/-- The number of pixels in a point. -/
def pixelsPerPoint : α := 1.33

/-- The height of a line as a multiple of the font size. -/
def lineHeightFactor : α := 1.15

/-- The width of a character as a multiple of the font size. -/
def advanceFactor : α := 0.55

/-- The estimated size of a text in a font of the given size in points. Only an empty text takes no
room at all. -/
def estimate (fontSize : Nat) (text : String) : Size α :=
  if text.isEmpty then .zero
  else
    let pixels : α := ofNat fontSize * pixelsPerPoint
    let rows := lines text.toList
    let widest := (rows.map List.length).foldl max 0
    ⟨ofNat widest * pixels * advanceFactor, ofNat (max rows.length 1) * pixels * lineHeightFactor⟩

end BlockDiagram.Text
