import BlockDiagram.Error
import BlockDiagram.Json
import BlockDiagram.Svg
import BlockDiagram.Text.Measure

/-!
# From sources to pictures

The stages from the text of a diagram to the text of its picture, under the choices of a user.
-/

namespace BlockDiagram

namespace Parser.Failure

/-- What a reader of `source` is told when there is no document. -/
def diagnostics (source : String) : Parser.Failure → List Diagnostic
  | fault f => [f.diagnostic source]
  | stuck | unfinished => []

end Parser.Failure

namespace Config

/-- The choices that layouts depend on. -/
def layoutSettings (c : Config) : Layout.Settings Float32 where
  padding := c.padding
  nodePadding := c.nodePadding
  leastSizes := c.leastSizes

/-- The font of labels. -/
def font (c : Config) : Svg.Font where
  family := c.fontFamily
  size := c.fontSize

/-- The size of a label. Metrics of fonts are not at hand, so it is estimated also where they are
asked for. -/
def measure (c : Config) (text : String) : Size Float32 :=
  Text.estimate c.fontSize text

/-- The document that a source describes. -/
def document (c : Config) (source : String) : Except Error Document :=
  (Document.parse c.maxBlocks source).mapError fun failure ↦ .source (failure.diagnostics source)

/-- The diagram of a document. -/
def diagram (c : Config) (document : Document) : Except Error (Diagram Float32) := do
  let layout ← (Layout.compute c.layoutSettings c.measure document).mapError .layout
  (Diagram.resolve document layout).mapError .unresolved

/-- The picture of a diagram. -/
def svg (c : Config) (diagram : Diagram Float32) : Except Error String := do
  let background ← c.backgroundColor.mapError .background
  return (Svg.ofDiagram c.font background diagram).write

end Config

namespace Diagram

/-- The geometry of a diagram. -/
def json (d : Diagram Float32) : String :=
  (Json.ofDiagram d).pretty

end Diagram

end BlockDiagram
