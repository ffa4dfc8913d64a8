import BlockDiagram.Text.Pieces

/-!
# Arguments

What the words of a command line ask for. A word that starts with a hyphen names an option, by a letter
or by a name behind two hyphens; the value of an option is written behind it, with or without an equals
sign, or is the next word. Behind a word of two hyphens alone no word is an option.

An option whose value is the next word is settled only when the word after that is read, so an unknown
word there is reported in front of a bad value.
-/

namespace BlockDiagram.CommandLine

/-- What is written for a diagram. -/
inductive Format where
  | svg
  | json
  deriving DecidableEq, Repr

namespace Format

/-- Every format. -/
def all : List Format := [svg, json]

/-- The name of a format. -/
def name : Format → String
  | svg => "svg"
  | json => "json"

/-- The format of a name. -/
def ofName? (name : String) : Option Format :=
  all.find? (·.name = name)

/-- The file that is written if no other one is named. -/
def defaultOutput : Format → String
  | svg => "out.svg"
  | json => "out.json"

end Format

/-- An option with a value. -/
inductive Choice where
  | output
  | config
  | format
  | logLevel
  deriving DecidableEq, Repr

namespace Choice

/-- The name of an option. -/
def name : Choice → String
  | output => "output"
  | config => "config"
  | format => "format"
  | logLevel => "log-level"

end Choice

/-- A question that is answered in place of a diagram. -/
inductive Question where
  | help
  | version
  deriving DecidableEq, Repr

/-- What the name of an option stands for. -/
inductive Meaning where
  | choice (c : Choice)
  | question (q : Question)
  deriving DecidableEq, Repr

namespace Meaning

/-- The meaning of a name behind two hyphens. -/
def ofName? : String → Option Meaning
  | "output" => some (choice .output)
  | "config" => some (choice .config)
  | "format" => some (choice .format)
  | "log-level" => some (choice .logLevel)
  | "help" => some (question .help)
  | "version" => some (question .version)
  | _ => none

/-- The meaning of a letter behind a hyphen. -/
def ofLetter? : Char → Option Meaning
  | 'o' => some (choice .output)
  | 'c' => some (choice .config)
  | 'f' => some (choice .format)
  | 'h' => some (question .help)
  | 'V' => some (question .version)
  | _ => none

end Meaning

/-- Why no diagram is made. -/
inductive Refusal where
  | asked (q : Question)
  | missingInput
  | unknown (word : String)
  | missingValue (c : Choice)
  | unknownFormat (text : String)
  | repeated (c : Choice)
  | needlessValue (q : Question) (value : String)
  deriving DecidableEq, Repr

namespace Refusal

/-- What is wrong with the command line; empty if only a question was asked. -/
def message : Refusal → String
  | asked _ => ""
  | missingInput => "the input file is missing"
  | unknown word => s!"unexpected argument `{word}`"
  | missingValue c => s!"`--{c.name}` needs a value"
  | unknownFormat text => s!"`{text}` is no format; the formats are svg and json"
  | repeated c => s!"`--{c.name}` is given twice"
  | needlessValue _ value => s!"unexpected value `{value}`"

end Refusal

/-- What a command line asks for. -/
structure Arguments where
  /-- The file with the source of the diagram. -/
  input : String
  output : Option String := none
  config : Option String := none
  format : Format := .svg
  logLevel : String := "info"
  deriving DecidableEq, Repr

namespace Arguments

/-- The file to write. -/
def outputPath (a : Arguments) : String :=
  a.output.getD a.format.defaultOutput

end Arguments

/-- What has been read of a command line. -/
structure Given where
  input : Option String := none
  output : Option String := none
  config : Option String := none
  format : Option Format := none
  logLevel : Option String := none
  /-- The option that waits for its value, or to be settled with the value. -/
  pending : Option (Choice × Option String) := none
  deriving DecidableEq, Repr

namespace Given

/-- Holds for options that have a value. -/
def has (g : Given) : Choice → Bool
  | .output => g.output.isSome
  | .config => g.config.isSome
  | .format => g.format.isSome
  | .logLevel => g.logLevel.isSome

/-- Gives an option its value, once. -/
def choose (g : Given) (c : Choice) (value : String) : Except Refusal Given :=
  if g.has c then throw (.repeated c)
  else
    match c with
    | .output => pure { g with output := some value }
    | .config => pure { g with config := some value }
    | .logLevel => pure { g with logLevel := some value }
    | .format =>
      match Format.ofName? value with
      | some format => pure { g with format := some format }
      | none => throw (.unknownFormat value)

/-- Settles the option that waits to be settled. -/
def settle (g : Given) : Except Refusal Given :=
  match g.pending with
  | none => pure g
  | some (c, none) => throw (.missingValue c)
  | some (c, some value) => { g with pending := none }.choose c value

/-- Reads an option, with the value that is written in the same word. -/
def option (g : Given) (word : String) (meaning : Option Meaning) (value : Option String) :
    Except Refusal Given :=
  match meaning, value with
  | none, _ => throw (.unknown word)
  | some (.question q), some value => throw (.needlessValue q value)
  | some (.question q), none => do
    let _ ← g.settle
    throw (.asked q)
  | some (.choice c), some value => do (← g.settle).choose c value
  | some (.choice c), none => return { ← g.settle with pending := some (c, none) }

/-- Reads a word that is no option and no value of one. -/
def positional (g : Given) (word : String) : Except Refusal Given :=
  match g.input with
  | some _ => throw (.unknown word)
  | none => return { ← g.settle with input := some word }

/-- Reads an option by its letter. A question ends the reading, whatever follows its letter. -/
def letterOption (g : Given) (word : String) (letter : Char) (rest : List Char) :
    Except Refusal Given :=
  match Meaning.ofLetter? letter, rest with
  | some (.choice c), '=' :: value => g.option word (some (.choice c)) (some (String.ofList value))
  | some (.choice c), first :: value =>
    g.option word (some (.choice c)) (some (String.ofList (first :: value)))
  | meaning, _ => g.option word meaning none

/-- Reads an option by its name. -/
def namedOption (g : Given) (word : String) (name : List Char) : Except Refusal Given :=
  match Text.splitFirst? '=' name with
  | some (name, value) =>
    g.option word (Meaning.ofName? (String.ofList name)) (some (String.ofList value))
  | none => g.option word (Meaning.ofName? (String.ofList name)) none

/-- Reads a word that may be an option or the value of one. -/
def word (g : Given) (word : String) : Except Refusal Given :=
  match word.toList with
  | '-' :: '-' :: name => g.namedOption word name
  | '-' :: letter :: rest => g.letterOption word letter rest
  | _ =>
    match g.pending with
    | some (c, none) => pure { g with pending := some (c, some word) }
    | _ => g.positional word

/-- Reads words in order. -/
def words (g : Given) : List String → Except Refusal Given
  | [] => pure g
  | "--" :: rest => rest.foldlM positional g
  | first :: rest => do words (← g.word first) rest

/-- What all words together ask for. -/
def arguments (g : Given) : Except Refusal Arguments := do
  let g ← g.settle
  match g.input with
  | none => throw .missingInput
  | some input =>
    let unset : Arguments := { input }
    return { input, output := g.output, config := g.config
             format := g.format.getD unset.format, logLevel := g.logLevel.getD unset.logLevel }

end Given

namespace Arguments

/-- What the words of a command line ask for. -/
def ofWords (words : List String) : Except Refusal Arguments := do
  (← Given.words {} words).arguments

end Arguments

end BlockDiagram.CommandLine
