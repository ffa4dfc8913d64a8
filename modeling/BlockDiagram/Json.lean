import BlockDiagram.Diagram
import BlockDiagram.Json.Value

/-!
# Diagrams as JSON

Where everything is, for programs that draw diagrams themselves. Blocks and classes are keyed by
name, blocks in the order of the tree.
-/

namespace BlockDiagram.Json

/-- A list of texts. -/
def texts (items : List String) : Json :=
  list (items.map text)

/-- The names of directions. -/
def directions (ds : List Direction) : Json :=
  texts (ds.map Direction.name)

/-- A text that may be missing. -/
def optionalText (s : Option String) : Json :=
  s.elim null text

/-- The coordinates of a point. -/
def ofPoint (p : Point Float32) : Json :=
  object [("x", single p.x), ("y", single p.y)]

/-- Width and height. -/
def ofSize (s : Size Float32) : Json :=
  object [("width", single s.width), ("height", single s.height)]

/-- The upper left corner of a box, its width and its height. -/
def ofBounds (b : Bounds Float32) : Json :=
  object [("x", single b.minX), ("y", single b.minY), ("width", single b.width),
    ("height", single b.height)]

/-- A block with its place. -/
def ofBlock (b : PlacedBlock Float32) : Json :=
  object [("id", text b.block.id), ("kind", text b.block.shape.name), ("label", text b.block.label),
    ("markdown", flag b.block.markdown), ("center", ofPoint b.center), ("size", ofSize b.size),
    ("width_in_columns", integer b.block.width), ("directions", directions b.block.directions),
    ("classes", texts b.block.classes), ("styles", texts b.block.styles)]

/-- An edge with its points. -/
def ofEdge (e : RoutedEdge Float32) : Json :=
  object [("id", text e.edge.id), ("start", text e.edge.start), ("end", text e.edge.target),
    ("label", optionalText e.edge.label), ("arrow_start", text e.edge.startMarker.name),
    ("arrow_end", text e.edge.endMarker.name), ("stroke", text e.edge.stroke.name),
    ("directions", directions e.edge.directions), ("points", list (e.points.map ofPoint))]

/-- A style class. -/
def ofClass (c : StyleClass) : Json :=
  object [("id", text c.name), ("styles", texts c.styles), ("text_styles", texts c.textStyles)]

/-- The values of a map under their keys. -/
def ofMap {α : Type} (f : α → Json) (m : OrderedMap α) : Json :=
  object (m.toList.map fun (key, value) ↦ (key, f value))

/-- A field that is left out when it has no value. -/
def optionalField (name : String) (s : Option String) : List (String × Json) :=
  (s.map fun s ↦ (name, text s)).toList

/-- A diagram. -/
def ofDiagram (d : Diagram Float32) : Json :=
  object
    ([("blocks", ofMap ofBlock d.blocks), ("edges", list (d.edges.map ofEdge)),
      ("classes", ofMap ofClass d.classes), ("bounds", ofBounds d.bounds)] ++
      optionalField "title" d.title ++ optionalField "description" d.description)

end BlockDiagram.Json
