import BlockDiagram.CommandLine

/-!
# The program

Reads the files that a command line asks for, writes the picture, and prints what went wrong.
-/

namespace BlockDiagram.CommandLine

/-- How the program is called. -/
def usage : String :=
  "Usage: tessera [OPTIONS] <INPUT>

Arguments:
  <INPUT>  Path to the input file

Options:
  -o, --output <OUTPUT>        Path to the output file [default: out.svg or out.json]
  -c, --config <CONFIG>        Path to configuration file (TOML)
  -f, --format <FORMAT>        Output format [default: svg] [possible values: svg, json]
      --log-level <LOG_LEVEL>  Log level (off, error, warn, info, debug, trace) [default: info]
  -h, --help                   Print help
  -V, --version                Print version"

/-- The name and the version of the program. -/
def version : String := "tessera 0.1.0"

/-- The reason of a failure to read or write a file. -/
def reasonOf : IO.Error → FileError
  | .noFileOrDirectory .. => .notFound
  | .inappropriateType _ code _ => if code = 21 then .isADirectory else .notADirectory
  | e => .other (toString e)

/-- The content of a file, or the reason why there is none. -/
def contentOf (path : String) : IO (Except FileError String) := do
  try
    return .ok (← IO.FS.readFile path)
  catch e =>
    return .error (reasonOf e)

/-- The folder in which a user keeps configurations. -/
def userFolder : IO (Option String) := do
  match ← IO.getEnv "XDG_CONFIG_HOME" with
  | some folder => return some folder
  | none => return (← IO.getEnv "HOME").map (· ++ "/.config")

/-- Prints the reports of an error. -/
def printReports (e : Error) : IO UInt32 := do
  for report in e.reports do
    IO.eprintln report.toString
  return 1

/-- Does what the arguments ask for. -/
def run (a : Arguments) : IO UInt32 := do
  let folder ← userFolder
  let contents ← (a.inputs folder).mapM fun path ↦ do return (path, ← contentOf path)
  match output a folder fun path ↦ (contents.lookup path).getD (.error .notFound) with
  | .error e => printReports e
  | .ok text =>
    try
      IO.FS.writeFile a.outputPath text
      return 0
    catch e => printReports (.file (reasonOf e))

end BlockDiagram.CommandLine

open BlockDiagram.CommandLine

/-- Runs the program on the words of its command line. -/
def main (words : List String) : IO UInt32 := do
  match Arguments.ofWords words with
  | .ok a => run a
  | .error (.asked .help) =>
    IO.println usage
    return 0
  | .error (.asked .version) =>
    IO.println version
    return 0
  | .error refusal =>
    IO.eprintln s!"error: {refusal.message}\n\n{usage}"
    return 2
