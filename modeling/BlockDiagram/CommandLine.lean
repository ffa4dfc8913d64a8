import BlockDiagram.CommandLine.Arguments
import BlockDiagram.Rendering
import BlockDiagram.Report

/-!
# The command line

From the words of a command line to the text of the file it asks for. Files are looked up by path; only
a few can ever be asked for, and `Arguments.inputs` lists them.
-/

namespace BlockDiagram.CommandLine

/-- Files by path. -/
abbrev Files := String → Except FileError String

/-- Whether there is something to read or a folder at the path of a file. -/
def isPresent : Except FileError String → Bool
  | .error .notFound | .error .notADirectory | .error .nameTooLong | .error .zeroInPath => false
  | _ => true

/-- The file with the configuration of a project. -/
def projectConfig : String := "tessera/config.toml"

/-- The file with the configuration of a user, inside the folder for configurations. -/
def userConfig (folder : String) : String :=
  folder ++ "/tessera/config.toml"

namespace Arguments

/-- The files where a configuration is looked for if none is named, the first one first. -/
def configPaths (userFolder : Option String) : List String :=
  projectConfig :: (userFolder.map userConfig).toList

/-- The files that a command line can ask for. -/
def inputs (a : Arguments) (userFolder : Option String) : List String :=
  a.input :: (a.config.elim (configPaths userFolder) ([·]))

end Arguments

/-- The configuration in a file. -/
def configIn (path : String) (content : Except FileError String) : Except Error Config :=
  match content with
  | .ok text => (Config.ofFile text).mapError .config
  | .error e => if isPresent content then throw (.file e) else throw (.config (.missing path))

/-- The configuration that a command line asks for: the one that is named, or else the first one that
is there, or else none of a file. -/
def configFor (a : Arguments) (userFolder : Option String) (files : Files) : Except Error Config :=
  match a.config with
  | some path => configIn path (files path)
  | none =>
    match (Arguments.configPaths userFolder).find? fun path ↦ isPresent (files path) with
    | some path => configIn path (files path)
    | none => pure {}

/-- The text that a command line asks for. -/
def output (a : Arguments) (userFolder : Option String) (files : Files) : Except Error String := do
  let config ← configFor a userFolder files
  let source ← (files a.input).mapError .file
  let diagram ← config.diagram (← config.document source)
  match a.format with
  | .svg => config.svg diagram
  | .json => pure diagram.json

end BlockDiagram.CommandLine
