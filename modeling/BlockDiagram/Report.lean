import BlockDiagram.Error

/-!
# Reports

What is shown of an error. Every fault of a source has a report of its own, which points into the
source; any other error has one report and no place.
-/

namespace BlockDiagram

/-- A message for the user, with its code and a hint. -/
structure Report where
  text : String
  code : Option String
  help : Option String
  /-- The remarks on parts of the source. -/
  labels : List Diagnostic.Label
  /-- Whether the report is about a place in the source. -/
  located : Bool
  deriving DecidableEq, Repr

namespace Report

/-- The report of a fault. Without a hint the excerpt takes its place. -/
def ofDiagnostic (d : Diagnostic) : Report where
  text := d.message
  code := d.code.map Diagnostic.Code.number
  help := d.help <|> d.excerpt
  labels := d.labels
  located := true

/-- The code of the errors of a kind; faults of a source have codes of their own. -/
def codeOf : Error.Kind → Option String
  | .source => none
  | .unresolved => some "tessera::unresolved_reference"
  | .layout => some "tessera::layout"
  | .config => some "tessera::config"
  | .file => some "tessera::io"

/-- What a user can do about an error. -/
def helpFor : Error → Option String
  | .unresolved edge => some s!"declare `{edge.block}` as a node before linking to it"
  | _ => none

/-- The text of a report, with the hint on lines of its own. -/
protected def toString (r : Report) : String :=
  let head := r.code.elim "error" fun code ↦ s!"error[{code}]"
  let help := r.help.elim "" fun help ↦ s!"\nhelp: {help}"
  s!"{head}: {r.text}{help}"

end Report

/-- The reports of an error, in order. -/
def Error.reports (e : Error) : List Report :=
  match e with
  | .source diagnostics => diagnostics.map Report.ofDiagnostic
  | _ =>
    [{ text := e.message, code := Report.codeOf e.kind, help := Report.helpFor e, labels := []
       located := false }]

end BlockDiagram
