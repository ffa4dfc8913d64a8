import BlockDiagram.Color
import BlockDiagram.Drawing
import BlockDiagram.Svg.Element
import BlockDiagram.Text.Blank

/-!
# Vector graphics

Drawings as trees of elements. Blocks are groups of figures and edges are paths; all labels come last,
so that nothing covers them. The whole drawing is moved so that its box starts at the margin.
-/

namespace BlockDiagram.Svg

open Scalar

/-! ### Measures -/

section Measures

variable {α : Type} [Scalar α]

/-- The space around a drawing. -/
def margin : α := 20

/-- The height of a line of text as a multiple of the font size. -/
def lineHeight : α := 1.5

/-- The distance of the bars of a subroutine from its sides. -/
def barInset : α := 8

/-- The width and the height of the picture of a drawing in a box. -/
def pictureSize (bounds : Bounds α) : Size α :=
  ⟨bounds.width + margin * 2, bounds.height + margin * 2⟩

/-- How far a drawing in a box is moved. -/
def displacement (bounds : Bounds α) : Point α :=
  ⟨margin - bounds.minX, margin - bounds.minY⟩

/-- The radius of the circle in a box. -/
def circleRadius (size : Size α) : α :=
  smaller size.width size.height / 2

/-- The radius of the inner one of two rings in a box. -/
def innerRadius (size : Size α) : α :=
  larger (circleRadius size - Shape.ringGap) 0

/-- The height of a cylinder between its caps. -/
def cylinderBody (size : Size α) : α :=
  size.height - 2 * Shape.cylinderCap size.width

end Measures

/-! ### Colors -/

/-- The color inside of figures. -/
def figureColor : String := "#ECECFF"

/-- The color of the borders of figures. -/
def borderColor : String := "#9370DB"

/-- The color of edges and labels. -/
def edgeColor : String := "#333333"

/-! ### Elements -/

/-- The text of a number. -/
def num (x : Float32) : String :=
  Decimal.showSingle x

/-- A box with rounded corners. -/
def rectangle (bounds : Bounds Float32) (size : Size Float32) (radius : Float32)
    (more : List (String × String)) : Node :=
  .element "rect"
    ([("x", num bounds.minX), ("y", num bounds.minY), ("width", num size.width),
      ("height", num size.height), ("rx", num radius)] ++ more) []

/-- A circle. -/
def circle (center : Point Float32) (radius : Float32) : Node :=
  .element "circle" [("cx", num center.x), ("cy", num center.y), ("r", num radius)] []

/-- An upright line over the height of a box. -/
def bar (bounds : Bounds Float32) (x : Float32) : Node :=
  .element "line" [("x1", num x), ("y1", num bounds.minY), ("x2", num x), ("y2", num bounds.maxY)]
    []

/-- A closed outline around a center. -/
def polygon (center : Point Float32) (outline : List (Point Float32)) : Node :=
  let corners := outline.map fun p ↦ num (center.x + p.x) ++ "," ++ num (center.y + p.y)
  .element "polygon" [("points", " ".intercalate corners)] []

/-- The line around a cylinder. -/
def cylinderPath (bounds : Bounds Float32) (size : Size Float32) : String :=
  let w := num size.width
  let rx := num (size.width / 2)
  let cap := Shape.cylinderCap size.width
  let ry := num cap
  let body := num (cylinderBody size)
  let x := num bounds.minX
  let y := num (bounds.minY + cap)
  s!"M {x},{y} a {rx},{ry} 0,0,0 {w},0 a {rx},{ry} 0,0,0 -{w},0 " ++
    s!"l 0,{body} a {rx},{ry} 0,0,0 {w},0 l 0,-{body}"

/-- The figure of a block. -/
def figure (b : PlacedBlock Float32) : Figure Float32 → Node
  | .rectangle radius => rectangle b.bounds b.size radius []
  | .frame => rectangle b.bounds b.size 0 [("fill-opacity", "0.5")]
  | .stadium => rectangle b.bounds b.size (b.size.height / 2) []
  | .circle => circle b.center (circleRadius b.size)
  | .doubleCircle =>
    .element "g" []
      [circle b.center (circleRadius b.size), circle b.center (innerRadius b.size)]
  | .subroutine =>
    .element "g" []
      [rectangle b.bounds b.size 0 [], bar b.bounds (b.bounds.minX + barInset),
        bar b.bounds (b.bounds.maxX - barInset)]
  | .cylinder => .element "path" [("d", cylinderPath b.bounds b.size)] []
  | .outline shape =>
    match shape.outline? b.size b.block.directions with
    | some outline => polygon b.center outline
    | none => rectangle b.bounds b.size 0 []

/-- How labels are written. -/
structure Font where
  family : String
  /-- The size in points. -/
  size : Nat
  deriving DecidableEq, Repr

/-- The height of a line of text. -/
def Font.lineHeight (font : Font) : Float32 :=
  ofNat font.size * Svg.lineHeight

/-- A line of a label. -/
def labelLine (x y : Float32) (line : List Char) : Node :=
  .element "tspan" [("x", num x), ("y", num y)] [.text "", .text (String.ofList line)]

/-- A label whose lines are centered around a point. -/
def label (font : Font) (content : String) (center : Point Float32)
    (more : List (String × String)) : Node :=
  let lines := Text.lines content.toList
  let first := center.y - font.lineHeight * ofNat (lines.length - 1) / 2
  let line (entry : List Char × Nat) : Node :=
    labelLine center.x (first + font.lineHeight * ofNat entry.2) entry.1
  .element "text"
    ([("x", num center.x), ("y", num first), ("text-anchor", "middle"),
      ("dominant-baseline", "central"), ("font-family", font.family),
      ("font-size", num (ofNat font.size)), ("fill", edgeColor)] ++ more)
    (.text "" :: lines.zipIdx.map line)

/-- The style attribute of an element with declarations; none without any. -/
def styleOf (declarations : List String) : List (String × String) :=
  let style := ";".intercalate declarations
  if style.isEmpty then [] else [("style", style)]

/-- The classes of a block that are defined. -/
def classesOf (classes : OrderedMap StyleClass) (b : Block) : List StyleClass :=
  b.classes.filterMap classes.get?

/-- The group that a block is drawn in. -/
def blockGroup (classes : OrderedMap StyleClass) (b : PlacedBlock Float32)
    (f : Figure Float32) : Node :=
  let declarations := (classesOf classes b.block).flatMap StyleClass.styles ++ b.block.styles
  .element "g"
    ([("id", b.block.id), ("class", " ".intercalate b.block.classes), ("fill", figureColor),
      ("stroke", borderColor)] ++ styleOf declarations)
    [figure b f]

/-- Where the label of a block is: at the top of a frame, in the middle of any other figure. -/
def labelCenter (font : Font) (b : PlacedBlock Float32) : Figure Float32 → Point Float32
  | .frame => ⟨b.center.x, b.bounds.minY + font.lineHeight / 2⟩
  | _ => b.center

/-- The label of a block, if it has one. -/
def blockLabel (font : Font) (classes : OrderedMap StyleClass) (b : PlacedBlock Float32)
    (f : Figure Float32) : List Node :=
  if b.block.label.isEmpty then []
  else
    [label font b.block.label (labelCenter font b f)
      (styleOf ((classesOf classes b.block).flatMap StyleClass.textStyles))]

/-! ### Edges and their markers -/

/-- A marker at one of the two ends of edges. -/
structure EndMarker where
  marker : Marker
  atStart : Bool
  deriving DecidableEq, Repr

namespace EndMarker

/-- The name of a marker. -/
def id (m : EndMarker) : String :=
  let place := if m.atStart then "start" else "end"
  s!"tessera-{m.marker.name}-{place}"

/-- What an edge says to use a marker. -/
def reference (m : EndMarker) : String :=
  s!"url(#{m.id})"

/-- The drawing of a marker. -/
def picture (m : EndMarker) : List Node :=
  match m.marker with
  | .point =>
    let d := if m.atStart then "M 10 0 L 0 5 L 10 10 z" else "M 0 0 L 10 5 L 0 10 z"
    [.element "path" [("d", d), ("fill", edgeColor)] []]
  | .cross =>
    [.element "path"
      [("d", "M 1 1 L 9 9 M 1 9 L 9 1"), ("stroke", edgeColor), ("stroke-width", "2")] []]
  | .circle =>
    [.element "circle" [("cx", "5"), ("cy", "5"), ("r", "4"), ("fill", edgeColor)] []]
  | .none => []

/-- The definition of a marker. -/
def definition (m : EndMarker) : Node :=
  .element "marker"
    [("id", m.id), ("viewBox", "0 0 10 10"), ("refX", if m.atStart then "1" else "9"),
      ("refY", "5"), ("markerWidth", "6"), ("markerHeight", "6"), ("orient", "auto")]
    m.picture

/-- The markers of an edge, each with the attribute that it is used by. An edge that is not drawn has
none. -/
def ofEdge (e : Edge) : List (String × EndMarker) :=
  if e.stroke = .invisible then []
  else
    [("marker-start", ⟨e.startMarker, true⟩), ("marker-end", ⟨e.endMarker, false⟩)].filter
      fun (_, m) ↦ m.marker ≠ .none

end EndMarker

/-- The attributes of a line. -/
def strokeAttributes : Stroke → List (String × String)
  | .normal => [("stroke", edgeColor), ("stroke-width", "2")]
  | .thick => [("stroke", edgeColor), ("stroke-width", "3.5")]
  | .dotted => [("stroke", edgeColor), ("stroke-width", "2"), ("stroke-dasharray", "3")]
  | .invisible => [("stroke", "none")]

/-- A line through points. -/
def pathOf : List (Point Float32) → String
  | [] => ""
  | first :: rest =>
    rest.foldl (fun d p ↦ d ++ " L " ++ num p.x ++ " " ++ num p.y)
      ("M " ++ num first.x ++ " " ++ num first.y)

/-- The path of an edge. One without points would not be drawn at all, but the edges of a drawing
have some (`Diagram.points_ne_nil_of_resolve`). -/
def edgePath (e : Edge) (points : List (Point Float32)) : Node :=
  .element "path"
    ([("id", e.id), ("d", pathOf points), ("fill", "none")] ++ strokeAttributes e.stroke ++
      (EndMarker.ofEdge e).map fun (name, m) ↦ (name, m.reference))
    []

/-- The label of an edge, in the middle of its points, if it has one. -/
def edgeLabel (font : Font) (e : Edge) (points : List (Point Float32)) : List Node :=
  match e.label, points[points.length / 2]? with
  | some content, some middle => [label font content middle []]
  | _, _ => []

/-! ### Pictures -/

/-- The figures, paths and labels of a drawing, and the markers they use. -/
structure Parts where
  figures : List Node
  paths : List Node
  labels : List Node
  markers : List EndMarker

/-- The parts that one step of a drawing makes. -/
def partsOf (font : Font) (classes : OrderedMap StyleClass) : DrawStep Float32 → Parts
  | .block b f =>
    { figures := [blockGroup classes b f], paths := []
      labels := blockLabel font classes b f, markers := [] }
  | .edge e points =>
    { figures := [], paths := [edgePath e.edge points], labels := edgeLabel font e.edge points
      markers := (EndMarker.ofEdge e.edge).map Prod.snd }

/-- The elements with the title and the description of a drawing. -/
def accessibleText (title description : Option String) : List Node :=
  (title.map fun t ↦ Node.element "title" [] [.text t]).toList ++
    (description.map fun t ↦ Node.element "desc" [] [.text t]).toList

/-- The box behind a drawing that is colored. -/
def backgroundBox (size : Size Float32) (color : Color) : Node :=
  .element "rect"
    [("x", "0"), ("y", "0"), ("width", num size.width), ("height", num size.height),
      ("fill", color.toString), ("fill-opacity", num color.alpha)] []

/-- The definitions of the markers that are used, each once. -/
def definitions (markers : List EndMarker) : List Node :=
  if markers.isEmpty then [] else [.element "defs" [] (markers.map EndMarker.definition)]

/-- The picture of a diagram. -/
def ofDiagram (font : Font) (background : Option Color) (d : Diagram Float32) : Node :=
  let size := pictureSize d.bounds
  let move := displacement d.bounds
  let parts := d.drawing.map (partsOf font d.classes)
  let drawing := Node.element "g"
    [("transform", s!"translate({num move.x}, {num move.y})")]
    (parts.flatMap Parts.figures ++ parts.flatMap Parts.paths ++ parts.flatMap Parts.labels)
  .element "svg"
    [("xmlns", "http://www.w3.org/2000/svg"),
      ("viewBox", s!"0 0 {num size.width} {num size.height}"), ("width", num size.width),
      ("height", num size.height)]
    (accessibleText d.title d.description ++ (background.map (backgroundBox size)).toList ++
      definitions (parts.flatMap Parts.markers).eraseDups ++ [drawing])

end BlockDiagram.Svg
