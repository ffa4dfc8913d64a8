import BlockDiagram.Source.Position
import BlockDiagram.Source.Span

/-!
# Diagnostics

What a reader is told about a faulty source: a message with a code, the spans it is about, and where
known a position, an excerpt and a hint.
-/

namespace BlockDiagram

open Source (Position Span)

namespace Diagnostic

/-- The stage of reading at which a fault is found. -/
inductive Stage where
  | lexical
  | syntactic
  | semantic
  deriving DecidableEq, Repr

/-- The kind of a fault. -/
inductive Code where
  | unexpectedInput
  | unexpectedToken
  | unexpectedEnd
  | malformedDeclaration
  | invalidColor
  | undeclaredTarget
  | tooManyBlocks
  | invalidNumber
  | selfNesting
  deriving DecidableEq, Repr

namespace Code

/-- Every code, in the order of their numbers. -/
def all : List Code := [
  unexpectedInput, unexpectedToken, unexpectedEnd, malformedDeclaration, invalidColor,
  undeclaredTarget, tooManyBlocks, invalidNumber, selfNesting]

/-- The number of a code, as messages show it. -/
def number : Code → String
  | unexpectedInput => "E001"
  | unexpectedToken => "E100"
  | unexpectedEnd => "E101"
  | malformedDeclaration => "E200"
  | invalidColor => "E201"
  | undeclaredTarget => "E202"
  | tooManyBlocks => "E203"
  | invalidNumber => "E204"
  | selfNesting => "E205"

/-- What a code stands for. -/
def description : Code → String
  | unexpectedInput => "unexpected input"
  | unexpectedToken => "unexpected token"
  | unexpectedEnd => "unexpected end of input"
  | malformedDeclaration => "malformed declaration"
  | invalidColor => "invalid color"
  | undeclaredTarget => "undeclared style target"
  | tooManyBlocks => "block limit exceeded"
  | invalidNumber => "invalid number"
  | selfNesting => "block nested in itself"

/-- The stage that finds faults of a code. -/
def stage : Code → Stage
  | unexpectedInput => .lexical
  | unexpectedToken | unexpectedEnd => .syntactic
  | malformedDeclaration | invalidColor | undeclaredTarget | tooManyBlocks | invalidNumber
  | selfNesting => .semantic

end Code

/-- A remark on a part of the source. -/
structure Label where
  span : Span
  message : String
  /-- Whether the part is the fault itself, and not only a circumstance of it. -/
  isPrimary : Bool := true
  deriving DecidableEq, Repr

end Diagnostic

/-- A message about a source. -/
structure Diagnostic where
  code : Option Diagnostic.Code := none
  message : String
  labels : List Diagnostic.Label := []
  help : Option String := none
  position : Option Position := none
  excerpt : Option String := none
  deriving DecidableEq, Repr

namespace Diagnostic

/-- The span of the first remark on the fault itself. -/
def primarySpan (d : Diagnostic) : Option Span :=
  (d.labels.find? Label.isPrimary).map Label.span

/-- The message with its code in front. -/
protected def toString (d : Diagnostic) : String :=
  match d.code with
  | some code => s!"error[{code.number}]: {d.message}"
  | none => s!"error: {d.message}"

/-- The first message of several, with the number of further ones. -/
def summary : List Diagnostic → String
  | [] => ""
  | [only] => only.toString
  | first :: rest => s!"{first.toString} (+{rest.length} more)"

/-- The stage at which the first fault of several was found. -/
def stageOf (ds : List Diagnostic) : Option Stage :=
  (ds.head?.bind Diagnostic.code).map Code.stage

end Diagnostic

end BlockDiagram
