import BlockDiagram.Decimal.Digits
import BlockDiagram.Fault
import BlockDiagram.Grammar
import BlockDiagram.Statement

/-!
# The meaning of the grammar

What each symbol stands for and how a rule makes the value of its part from those of its symbols.
The types of the values follow from the symbols, so a rule can only be applied to values of the
right kinds.
-/

namespace BlockDiagram.Grammar

open Source (Located Span)

/-- A shape as it is written behind a node id. -/
structure ShapeDecl where
  shape : Shape
  label : Option Label
  directions : List Direction
  deriving DecidableEq, Repr

/-- The type of what a symbol stands for. -/
@[reducible] def Symbol.Meaning : Symbol → Type
  | .terminal _ => Token
  | .nonterminal part =>
    match part with
    | .accept | .start | .document | .statement => List (Located Statement)
    | .blockStatement => Located Statement
    | .nodeStatement => Chain
    | .sizedNode | .node => NodeDecl
    | .shape => ShapeDecl
    | .directions => List Direction
    | .link => LinkDecl
    | .text => Label

/-- The values of a run of symbols, each with its place in the source. -/
@[reducible] def Values : List Symbol → Type
  | [] => Unit
  | symbol :: rest => Located symbol.Meaning × Values rest

/-- The places of values, in order. -/
def placesOf : (symbols : List Symbol) → Values symbols → List Span
  | [], _ => []
  | _ :: symbols, (value, values) => value.span :: placesOf symbols values

/-- The place of parts that follow each other; in front of `next` if there are none. -/
def cover (places : List Span) (next : Token) : Span :=
  match places.head?, places.getLast? with
  | some first, some last => first.union last
  | _, _ => Span.emptyAt next.span.start

/-- A way to keep the statements of a document, which is read from its last statement on. -/
structure Gathering where
  /-- Adds the statements in front of those that are kept. -/
  before (front statements : List (Located Statement)) : List (Located Statement)
  /-- The statements that are kept, in the order of the source. -/
  inOrder (statements : List (Located Statement)) : List (Located Statement)

namespace Gathering

/-- Keeps statements in the order of the source. -/
def forwards : Gathering where
  before front statements := front ++ statements
  inOrder statements := statements

/-- Keeps statements from the last to the first, so that those in front are added at the end. -/
def backwards : Gathering where
  before front statements := statements ++ front.reverse
  inOrder statements := statements.reverse

end Gathering

/-- Reading a source, which counts the composites without names and may fail. -/
abbrev Reading := StateT Nat (Except Fault)

/-- The largest column count that can be written. -/
def maxColumns : Nat := 0x7fffffff

/-- The largest width in columns that can be written. -/
def maxWidth : Nat := 0xffffffff

/-- The largest number of spacers that can be written. -/
def maxSpacers : Nat := 0xffffffffffffffff

/-- The digits at the end of a token's text. -/
def digitsOf (token : Token) : List Char :=
  (token.text.toList.reverse.takeWhile Char.isDigit).reverse

/-- The number at the end of a token's text, where the numbers up to `limit` are allowed. -/
def numberIn (token : Token) (limit : Nat) : Except Fault Nat :=
  let digits := digitsOf token
  let n := Decimal.numberOfDigits digits
  if digits.isEmpty || limit < n then throw (.numberTooLarge token) else pure n

/-- The value of a column count that stands for as many columns as are needed. -/
def autoColumns : Int := -1

/-- The column count that a token states. -/
def columnsIn (token : Token) : Except Fault Int :=
  if "auto".toList.isSuffixOf token.text.toList then pure autoColumns
  else do return (← numberIn token maxColumns : Nat)

/-- The number of spacers that a token states; one if it states none. -/
def spacersIn (token : Token) : Except Fault Nat :=
  if token.text.toList.contains ':' then numberIn token maxSpacers else pure 1

/-- The direction that a token names, after the comma that may come before it. -/
def directionIn (token : Token) : Except Fault Direction :=
  let text := Text.trimBlank ((Text.trimBlank token.text.toList).dropWhile (· == ','))
  let name := String.ofList text
  match Direction.ofName? name with
  | some direction => pure direction
  | none => throw (.unknownDirection name token.span)

/-- The text of a token without the blanks around it. -/
def trimmed (token : Located Token) : String :=
  Text.trim token.value.text

/-- A single statement. -/
def single (statement : Statement) (span : Span) : List (Located Statement) :=
  [⟨statement, span⟩]

/-- A shape between brackets. -/
def bracketed (opening closing : Located Token) (label : Option Label) : ShapeDecl where
  shape := Shape.ofBrackets opening.value.text closing.value.text
  label := label
  directions := []

/-- A composite with the given head, whatever shape the head has. -/
def composite (head : NodeDecl) (body : List (Located Statement)) (span : Span) :
    Located Statement :=
  ⟨.composite { head with shape := .composite } body, span⟩

/-- The name of the composite that is the `n`-th one without a name. -/
def anonymousId (n : Nat) : String :=
  s!"block-{n}"

/-- The value that a rule makes of the values of its symbols; `span` is the place of all of them. -/
def Production.apply (g : Gathering) (span : Span) :
    (p : Production) → Values p.rhs → Reading (Symbol.nonterminal p.lhs).Meaning
  | .accept, (diagram, ()) => pure diagram.value
  | .start, (_, document, ()) => pure (g.inOrder document.value)
  | .documentEnd, () => pure []
  | .documentMore, (statement, document, ()) => pure (g.before statement.value document.value)
  | .nodes, (chain, ()) => pure chain.value.statements
  | .columns, (token, ()) => return single (.columns (← columnsIn token.value)) span
  | .space, (token, ()) => return single (.space (← spacersIn token.value)) span
  | .block, (inner, ()) => pure [inner.value]
  | .classDef, (_, name, styles, ()) =>
    pure (single (.classDef (trimmed name) (trimmed styles)) span)
  | .defaultClassDef, (_, _, styles, ()) =>
    pure (single (.classDef "default" (trimmed styles)) span)
  | .applyClass, (_, targets, name, ()) =>
    pure (single (.applyClass (trimmed targets) (trimmed name)) span)
  | .applyStyle, (_, targets, styles, ()) =>
    pure (single (.applyStyles (trimmed targets) (trimmed styles)) span)
  | .title, (_, text, ()) => pure (single (.title (trimmed text)) span)
  | .description, (_, text, ()) => pure (single (.description (trimmed text)) span)
  | .descriptionBlock, (text, ()) => pure (single (.description (trimmed text)) span)
  | .namedBlock, (_, head, body, _, ()) => pure (composite head.value (g.inOrder body.value) span)
  | .anonymousBlock, (_, body, _, ()) => do
    let n ← modifyGet fun n ↦ (n + 1, n + 1)
    return composite { id := anonymousId n } (g.inOrder body.value) span
  | .chainLink, (chain, link, node, ()) => pure (.more chain.value link node)
  | .chainStart, (node, ()) => pure (.first node)
  | .unsizedNode, (node, ()) => pure node.value
  | .sizedNode, (node, width, ()) =>
    return { node.value with width := ← numberIn width.value maxWidth }
  | .bareNode, (id, ()) => pure { id := id.value.text }
  | .shapedNode, (id, shape, ()) =>
    pure
      { id := id.value.text
        label := shape.value.label
        shape := shape.value.shape
        directions := shape.value.directions }
  | .labelledShape, (opening, label, closing, ()) =>
    pure (bracketed opening closing (some label.value))
  | .emptyShape, (opening, closing, ()) => pure (bracketed opening closing none)
  | .arrowShape, (_, label, directions, _, ()) =>
    pure { shape := .blockArrow, label := some label.value, directions := directions.value }
  | .lastDirection, (token, ()) => return [← directionIn token.value]
  | .moreDirections, (token, directions, ()) =>
    return (← directionIn token.value) :: directions.value
  | .plainLink, (link, ()) =>
    let text := trimmed link
    pure
      { label := none
        startMarker := Marker.atStart text
        endMarker := Marker.atEnd text
        stroke := Stroke.ofLink text }
  | .labelledLink, (opening, _, label, closing, ()) =>
    pure
      { label := some label.value
        startMarker := Marker.atStart (trimmed opening)
        endMarker := Marker.atEnd (trimmed closing)
        stroke := Stroke.ofLink (trimmed opening) }
  | .plainText, (text, ()) => pure { text := text.value.text, markdown := false }
  | .markdownText, (text, ()) => pure { text := text.value.text, markdown := true }

end BlockDiagram.Grammar
