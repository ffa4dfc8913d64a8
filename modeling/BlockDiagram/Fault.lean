import BlockDiagram.Diagnostic
import BlockDiagram.Lexer
import BlockDiagram.Text.Escaped

/-!
# Faults

The ways in which a source fails to be a diagram, and the diagnostic for each. A fault holds what
went wrong and where; the wording, the position and the excerpt are found from it and the source.
-/

namespace BlockDiagram

open Source (Position Span)
open Token (Kind)

/-- Why a source is no diagram. -/
inductive Fault where
  /-- No rule of the lexer matches. -/
  | unmatched (input : Lexer.Unmatched)
  /-- The grammar has no place for the token; `expected` are the kinds it has a place for. -/
  | unexpected (token : Token) (expected : List Kind)
  | unknownDirection (name : String) (place : Span)
  /-- The number written in the token is too large for its use. -/
  | numberTooLarge (token : Token)
  | malformedDeclaration (text : String) (statement : Span)
  | invalidColor (value property : String) (statement : Span)
  | undeclaredTarget (id : String) (statement : Span)
  | tooManyBlocks (limit : Nat) (statement : Span)
  | nestedInItself (id : String) (statement : Span)
  deriving DecidableEq, Repr

namespace Fault

open Diagnostic (Code)

/-- The code of a fault. -/
def code : Fault → Code
  | unmatched _ => .unexpectedInput
  | unexpected token _ => if token.kind = .endOfInput then .unexpectedEnd else .unexpectedToken
  | unknownDirection _ _ => .unexpectedToken
  | numberTooLarge _ => .invalidNumber
  | malformedDeclaration _ _ => .malformedDeclaration
  | invalidColor _ _ _ => .invalidColor
  | undeclaredTarget _ _ => .undeclaredTarget
  | tooManyBlocks _ _ => .tooManyBlocks
  | nestedInItself _ _ => .selfNesting

/-- The part of the source that a fault is about. -/
def span : Fault → Span
  | unmatched input => input.span
  | unexpected token _ => token.span
  | unknownDirection _ place => place
  | numberTooLarge token => token.span
  | malformedDeclaration _ statement => statement
  | invalidColor _ _ statement => statement
  | undeclaredTarget _ statement => statement
  | tooManyBlocks _ statement => statement
  | nestedInItself _ statement => statement

/-- Whether a diagnostic of the fault states a line and a column. -/
def isPositioned : Fault → Bool
  | unknownDirection _ _ | numberTooLarge _ => false
  | _ => true

/-- How a message names a token: by its kind, and by its text unless the kind is a fixed word. -/
def found (token : Token) : String :=
  let kind := token.kind.describe
  if kind.startsWith "`" then kind else s!"{kind} `{Text.trim token.text}`"

/-- What went wrong, in a source where the fault starts on `line`. -/
def message (line : Nat) : Fault → String
  | unmatched input => s!"unexpected input `{Text.escaped input.char}` on line {line}"
  | unexpected token _ =>
    if token.kind = .endOfInput then s!"unexpected end of input on line {line}"
    else s!"unexpected {found token} on line {line}"
  | unknownDirection name _ => s!"unknown direction `{name}`"
  | numberTooLarge token => s!"`{Text.trim token.text}` is out of range"
  | malformedDeclaration text _ => s!"malformed declaration `{text}`"
  | invalidColor value property _ => s!"invalid color `{value}` for `{property}`"
  | undeclaredTarget id _ => s!"style target `{id}` is not declared"
  | tooManyBlocks limit _ => s!"document exceeds the limit of {limit} blocks"
  | nestedInItself id _ => s!"block `{id}` is nested inside itself"

/-- The remark on the part of the source that the fault is about. -/
def remark : Fault → String
  | unknownDirection _ _ => "arrow direction"
  | unmatched input => (unmatched input).code.description
  | unexpected token expected => (unexpected token expected).code.description
  | numberTooLarge token => (numberTooLarge token).code.description
  | _ => "in this statement"

/-- What a writer can do about a fault. -/
def help : Fault → Option String
  | unexpected _ expected =>
    some ("expected one of: " ++ ", ".intercalate (expected.map Kind.describe))
  | malformedDeclaration _ _ => some "declarations have the form `property:value`"
  | undeclaredTarget id _ => some s!"declare `{id}` before styling it"
  | tooManyBlocks _ _ => some "raise `layout.max_blocks` or split the diagram"
  | nestedInItself id _ => some s!"give the inner block an id other than `{id}`"
  | _ => none

end Fault

namespace Source

/-- The number of characters that an excerpt shows on each side of its place. -/
def excerptWidth : Nat := 20

/-- The characters without newlines. -/
def onOneLine (cs : List Char) : List Char :=
  cs.filter (· != '\n')

/-- Splits characters at a byte offset. A character that the offset cuts stays behind it. -/
def splitAtByte (offset : Nat) : List Char → List Char × List Char
  | [] => ([], [])
  | c :: cs =>
    if c.utf8Size ≤ offset then
      let (before, after) := splitAtByte (offset - c.utf8Size) cs
      (c :: before, after)
    else ([], c :: cs)

/-- The end of what was read, shortened to the width of an excerpt. -/
def excerptBefore (before : List Char) : List Char :=
  onOneLine
    (if before.length > excerptWidth then
      "...".toList ++ before.drop (before.length - excerptWidth)
    else before)

/-- The start of what is left, shortened to the width of an excerpt. -/
def excerptAfter (after : List Char) : List Char :=
  onOneLine
    (if after.length > excerptWidth then after.take excerptWidth ++ "...".toList else after)

/-- The text around a byte offset on one line, and a line under it that points at the offset. -/
def excerpt (source : String) (offset : Nat) : String :=
  let (before, after) := splitAtByte offset source.toList
  let shownBefore := excerptBefore before
  let pointer := List.replicate shownBefore.length '-' ++ ['^']
  String.ofList (shownBefore ++ excerptAfter after ++ '\n' :: pointer)

end Source

namespace Fault

/-- What a reader of `source` is told about the fault. -/
def diagnostic (source : String) (fault : Fault) : Diagnostic :=
  let position := Position.locate source fault.span.start
  { code := some fault.code
    message := fault.message position.line
    labels := [⟨fault.span, fault.remark, true⟩]
    help := fault.help
    position := if fault.isPositioned then some position else none
    excerpt :=
      match fault with
      | unmatched input => some (Source.excerpt source input.offset)
      | _ => none }

end Fault

end BlockDiagram
