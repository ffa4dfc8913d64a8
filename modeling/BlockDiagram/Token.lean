import BlockDiagram.Source.Span

/-!
# Tokens

The pieces of source text that the grammar is written in. `Token.Kind` is the terminal alphabet;
its declaration order is the order in which messages list kinds.
-/

namespace BlockDiagram

namespace Token

/-- What a token is to the grammar. -/
inductive Kind where
  /-- The keyword that opens every diagram. -/
  | diagram
  /-- The opening of a composite without a name. -/
  | block
  /-- The opening of a composite with a name. -/
  | namedBlock
  /-- The end of a composite. -/
  | blockEnd
  /-- A column count, or the word for having as many as needed. -/
  | columns
  /-- One spacer, or several. -/
  | space
  | nodeId
  /-- A width in columns. -/
  | width
  | shapeOpen
  | shapeClose
  | arrowOpen
  | arrowClose
  | direction
  | text
  | markdown
  | link
  | labelledLink
  | linkLabel
  | classDef
  | className
  | defaultClass
  | classStyles
  | applyClass
  | classTargets
  | appliedClass
  | applyStyle
  | styleTargets
  | styles
  | title
  | titleText
  | description
  | descriptionText
  /-- A description between braces, which may span lines. -/
  | descriptionBlock
  | endOfInput
  deriving DecidableEq, Repr, Inhabited

namespace Kind

/-- Every kind, in declaration order. -/
def all : List Kind := [
  diagram, block, namedBlock, blockEnd, columns, space, nodeId, width, shapeOpen, shapeClose,
  arrowOpen, arrowClose, direction, text, markdown, link, labelledLink, linkLabel, classDef,
  className, defaultClass, classStyles, applyClass, classTargets, appliedClass, applyStyle, styleTargets,
  styles, title, titleText, description, descriptionText, descriptionBlock, endOfInput]

/-- The place of a kind in declaration order, counted from zero. -/
def index (kind : Kind) : Nat :=
  kind.ctorIdx

/-- Every kind is in the list of all kinds. -/
theorem mem_all (kind : Kind) : kind ∈ all := by
  cases kind <;> decide

/-- The list of all kinds has each kind where its index says. -/
theorem getElem?_all_index (kind : Kind) : all[kind.index]? = some kind := by
  cases kind <;> rfl

/-- How a message names the kind. -/
def describe : Kind → String
  | diagram => "`block-beta`"
  | block => "`block`"
  | namedBlock => "`block:`"
  | blockEnd => "`end`"
  | columns => "columns directive"
  | space => "space directive"
  | nodeId => "node id"
  | width => "width (`:N`)"
  | shapeOpen => "shape opening bracket"
  | shapeClose => "shape closing bracket"
  | arrowOpen => "`<[`"
  | arrowClose => "`)`"
  | direction => "arrow direction"
  | text => "string"
  | markdown => "markdown string"
  | link => "link"
  | labelledLink => "labelled link"
  | linkLabel => "link label"
  | classDef => "`classDef`"
  | className => "class name"
  | defaultClass => "`DEFAULT`"
  | classStyles => "class declarations"
  | applyClass => "`class`"
  | classTargets => "node ids"
  | appliedClass => "class name"
  | applyStyle => "`style`"
  | styleTargets => "node ids"
  | styles => "style declarations"
  | title => "`accTitle:`"
  | titleText => "title text"
  | description => "`accDescr:`"
  | descriptionText => "description text"
  | descriptionBlock => "description text"
  | endOfInput => "end of input"

end Kind

end Token

/-- A piece of source text with its kind and place. -/
structure Token where
  kind : Token.Kind
  text : String
  span : Source.Span
  deriving DecidableEq, Repr

end BlockDiagram
