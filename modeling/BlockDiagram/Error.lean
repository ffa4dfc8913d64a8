import BlockDiagram.Config.File
import BlockDiagram.Diagram

/-!
# Errors

Everything that can keep a source from becoming a picture: faults of the source, a layout that does not
exist, a configuration that cannot be used, and files that cannot be read or written.
-/

namespace BlockDiagram

/-- Why a file cannot be read or written. -/
inductive FileError where
  | notFound
  | notADirectory
  | isADirectory
  | nameTooLong
  /-- The path holds the character zero, which no path can hold. -/
  | zeroInPath
  /-- Any other reason, in the words of the system. -/
  | other (reason : String)
  deriving DecidableEq, Repr

namespace FileError

/-- What is wrong. -/
def message : FileError → String
  | notFound => "No such file or directory (os error 2)"
  | notADirectory => "Not a directory (os error 20)"
  | isADirectory => "Is a directory (os error 21)"
  | nameTooLong => "File name too long (os error 36)"
  | zeroInPath => "file name contained an unexpected NUL byte"
  | other reason => reason

end FileError

/-- Why there is no picture. -/
inductive Error where
  /-- The source is no diagram. -/
  | source (diagnostics : List Diagnostic)
  /-- An edge names a block that does not exist. -/
  | unresolved (edge : Diagram.Unresolved)
  | layout (e : Layout.Error Float32)
  /-- The color behind the picture is none. -/
  | background (e : Color.Invalid)
  | config (e : Config.Defect)
  | file (e : FileError)

namespace Error

/-- The kinds of errors that users tell apart. -/
inductive Kind where
  | source
  | unresolved
  | layout
  | config
  | file
  deriving DecidableEq, Repr

/-- The kind of an error. -/
def kind : Error → Kind
  | source _ => .source
  | unresolved _ => .unresolved
  | layout _ => .layout
  | background _ | config _ => .config
  | file _ => .file

/-- What is wrong. -/
def message : Error → String
  | source diagnostics => Diagnostic.summary diagnostics
  | unresolved edge => edge.message
  | layout e => s!"Layout error: {e.message}"
  | background e => s!"Configuration error: {Config.backgroundMessage e}"
  | config e => s!"Configuration error: {e.message}"
  | file e => s!"I/O error: {e.message}"

end Error

end BlockDiagram
