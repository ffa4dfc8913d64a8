import BlockDiagram.Color
import BlockDiagram.Document.Builder
import BlockDiagram.Geometry
import BlockDiagram.Setting

/-!
# Configurations

What a user can choose about layouts, labels and pictures. Everything has a value of its own without
being chosen, and settings without a meaning are passed over.
-/

namespace BlockDiagram

/-- How the sizes of labels are found. -/
inductive Measurement where
  /-- From the metrics of the font. -/
  | font
  /-- From the number of characters and lines. -/
  | estimate
  deriving DecidableEq, Repr

namespace Measurement

/-- Every way. -/
def all : List Measurement := [font, estimate]

/-- The name of a way in configurations. -/
def name : Measurement → String
  | font => "font"
  | estimate => "estimate"

/-- The way of a name. -/
def ofName? (name : String) : Option Measurement :=
  all.find? (·.name = name)

end Measurement

/-- The choices of a user. -/
structure Config where
  /-- The distance between blocks, and from the border of a composite to the blocks in it. -/
  padding : Float32 := 8
  /-- The distance from the border of a shape to its label. -/
  nodePadding : Float32 := 8
  /-- The number of blocks that a document may have. -/
  maxBlocks : Nat := Document.defaultLimit
  /-- The least sizes of shapes. -/
  leastSizes : List (Shape × Size Float32) := []
  fontFamily : String := "Arial"
  /-- The size of labels in points. -/
  fontSize : Nat := 12
  measurement : Measurement := .font
  /-- The color behind a picture, as it is written. -/
  background : Option String := none
  deriving Inhabited

namespace Config

open Setting (Entries Format Misfit asName asNatBelow asOptionalText asSection asSingle asTable asText
  entry misfit)

/-! ### Reading settings -/

/-- A way of measuring. -/
def asMeasurement (format : Format) (setting : Setting) : Except Misfit Measurement := do
  match Measurement.ofName? (← asName format setting) with
  | some measurement => pure measurement
  | none => throw (misfit "a way of measuring")

/-- The least size of a shape. -/
def asLeastSize (format : Format) (setting : Setting) : Except Misfit (Size Float32) := do
  let entries ← asSection format ["min_width", "min_height"] setting
  return ⟨← entry entries "min_width" asSingle 0, ← entry entries "min_height" asSingle 0⟩

/-- The least sizes of shapes, under the names of the shapes. -/
def asLeastSizes (format : Format) (setting : Setting) :
    Except Misfit (List (Shape × Size Float32)) := do
  (← asTable setting).mapM fun (name, size) ↦
    match Shape.ofName? name with
    | some shape => return (shape, ← (asLeastSize format size).mapError (.inside name))
    | none => throw ((misfit "a shape").inside name)

/-- The first number that is too large for a count of blocks. -/
def blockCountBound : Nat := 0x10000000000000000

/-- The first number that is too large for the size of a font. -/
def fontSizeBound : Nat := 0x10000

/-- The names of the sections, in order. -/
def sectionNames : List String := ["layout", "text", "style"]

/-- The names of the choices about layouts, in order. -/
def layoutNames : List String := ["padding", "node_padding", "max_blocks", "shape_hints"]

/-- The names of the choices about labels, in order. -/
def textNames : List String := ["font_family", "font_size", "measurement"]

/-- The names of the choices about pictures, in order. -/
def styleNames : List String := ["background_color"]

/-- A section with its name. -/
structure Section where
  name : String
  entries : Entries

/-- The section of a name, which is empty if it is missing. -/
def asNamedSection (format : Format) (sections : Entries) (name : String) (names : List String) :
    Except Misfit Section := do
  return ⟨name, ← entry sections name (asSection format names) []⟩

/-- The entry of a name in a section as `read` takes it; what is taken without one is `missing`. -/
def choice {α : Type} (place : Section) (name : String) (read : Setting → Except Misfit α)
    (missing : α) : Except Misfit α :=
  (entry place.entries name read missing).mapError (.inside place.name)

/-- The configuration that settings make up. -/
def ofSetting (format : Format) (setting : Setting) : Except Misfit Config := do
  let sections ← asSection format sectionNames setting
  let layout ← asNamedSection format sections "layout" layoutNames
  let text ← asNamedSection format sections "text" textNames
  let style ← asNamedSection format sections "style" styleNames
  let unset : Config := {}
  return {
    padding := ← choice layout "padding" asSingle unset.padding
    nodePadding := ← choice layout "node_padding" asSingle unset.nodePadding
    maxBlocks := ← choice layout "max_blocks" (asNatBelow blockCountBound) unset.maxBlocks
    leastSizes := ← choice layout "shape_hints" (asLeastSizes format) unset.leastSizes
    fontFamily := ← choice text "font_family" asText unset.fontFamily
    fontSize := ← choice text "font_size" (asNatBelow fontSizeBound) unset.fontSize
    measurement := ← choice text "measurement" (asMeasurement format) unset.measurement
    background := ← choice style "background_color" asOptionalText unset.background }

/-! ### Checking -/

/-- The color behind a picture, if one was chosen. -/
def backgroundColor (c : Config) : Except Color.Invalid (Option Color) :=
  match c.background with
  | none => pure none
  | some text => some <$> Color.read text

/-- What is wrong with the color behind a picture. -/
def backgroundMessage (e : Color.Invalid) : String :=
  s!"Invalid background color in config: {e.message}"

end Config

end BlockDiagram
