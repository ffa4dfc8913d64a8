import BlockDiagram.Text.Blank
import BlockDiagram.Text.Pieces

/-!
# Links

How the text of a link says what it looks like: its line by the characters in the middle, the
markers at its ends by the first and the last one.
-/

namespace BlockDiagram

/-- The marker at an end of an edge. -/
inductive Marker where
  | point
  | cross
  | circle
  | none
  deriving DecidableEq, Repr

namespace Marker

/-- Every marker. -/
def all : List Marker := [point, cross, circle, none]

/-- The name of a marker in output. -/
def name : Marker → String
  | point => "point"
  | cross => "cross"
  | circle => "circle"
  | none => "none"

/-- The marker that the last character of a link asks for. -/
def ofEnd (c : Char) : Marker :=
  if c = '>' then point else if c = 'x' then cross else if c = 'o' then circle else none

/-- The marker that the first character of a link asks for. -/
def ofStart (c : Char) : Marker :=
  if c = '<' then point else if c = 'x' then cross else if c = 'o' then circle else none

/-- The marker at the start of a link with the given text. -/
def atStart (link : String) : Marker :=
  (link.toList.head?.map ofStart).getD none

/-- The marker at the end of a link with the given text. -/
def atEnd (link : String) : Marker :=
  (link.toList.getLast?.map ofEnd).getD none

end Marker

/-- The line of an edge. -/
inductive Stroke where
  | normal
  | thick
  | dotted
  | invisible
  deriving DecidableEq, Repr

namespace Stroke

/-- Every line. -/
def all : List Stroke := [normal, thick, dotted, invisible]

/-- The name of a line in output. -/
def name : Stroke → String
  | normal => "normal"
  | thick => "thick"
  | dotted => "dotted"
  | invisible => "invisible"

/-- The line of a link with the given text. -/
def ofLink (link : String) : Stroke :=
  let text := Text.trimBlank link.toList
  if Text.occurs "~~~".toList text then invisible
  else if Text.occurs "==".toList text then thick
  else if text.contains '.' then dotted
  else normal

end Stroke

end BlockDiagram
