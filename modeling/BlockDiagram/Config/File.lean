import BlockDiagram.Config
import BlockDiagram.Layout
import BlockDiagram.Toml

/-!
# Configuration files

Configurations as users keep them: texts in the TOML format whose choices are checked when they are
read, so that no faulty one is found out only later.
-/

namespace BlockDiagram.Config

/-- A choice that no picture can be drawn with. -/
inductive Unsuitable where
  | background (e : Color.Invalid)
  | padding (p : Float32)

namespace Unsuitable

/-- What is wrong. -/
def message : Unsuitable → String
  | background e => backgroundMessage e
  | padding p => (Layout.Error.invalidPadding p).message

end Unsuitable

/-- Why a file holds no configuration. -/
inductive Defect where
  | missing (path : String)
  | malformed (e : Toml.Error)
  | misfit (m : Setting.Misfit)
  | unsuitable (choice : Unsuitable)

namespace Defect

/-- What is wrong. -/
def message : Defect → String
  | missing path => s!"Missing configuration file: {path}"
  | malformed e => s!"Failed to parse TOML configuration: {e.message}"
  | misfit m => s!"Failed to parse TOML configuration: {m.message}"
  | unsuitable choice => s!"Validation error: {choice.message}"

end Defect

/-- The first choice that no picture can be drawn with. -/
def unsuitable? (c : Config) : Option Unsuitable :=
  match c.backgroundColor with
  | .error e => some (.background e)
  | .ok _ =>
    ([c.padding, c.nodePadding].find? fun p ↦ !Layout.isValidPadding p).map .padding

/-- The configuration that the text of a file describes. -/
def ofFile (text : String) : Except Defect Config := do
  let setting ← (Toml.read text).mapError .malformed
  let config ← (ofSetting .toml setting).mapError .misfit
  match config.unsuitable? with
  | some choice => throw (.unsuitable choice)
  | none => pure config

end BlockDiagram.Config
