import BlockDiagram.Token

/-!
# The grammar

Diagrams as a context-free grammar over token kinds. `Derives` says which runs of kinds a run of
symbols can stand for, and `Accepts` which of them are whole diagrams.
-/

namespace BlockDiagram.Grammar

open Token (Kind)

/-- The parts that diagrams are made of. -/
inductive Nonterminal where
  /-- A whole diagram up to the end of the input. -/
  | accept
  | start
  | document
  | statement
  | blockStatement
  | nodeStatement
  | sizedNode
  | node
  | shape
  | directions
  | link
  | text
  deriving DecidableEq, Repr

/-- A token kind or a part of a diagram. -/
inductive Symbol where
  | terminal (kind : Kind)
  | nonterminal (part : Nonterminal)
  deriving DecidableEq, Repr

/-- The rules of the grammar, named for what they make. -/
inductive Production where
  | accept
  | start
  | documentEnd
  | documentMore
  | nodes
  | columns
  | space
  | block
  | classDef
  | defaultClassDef
  | applyClass
  | applyStyle
  | title
  | description
  | descriptionBlock
  | namedBlock
  | anonymousBlock
  | chainLink
  | chainStart
  | unsizedNode
  | sizedNode
  | bareNode
  | shapedNode
  | labelledShape
  | emptyShape
  | arrowShape
  | lastDirection
  | moreDirections
  | plainLink
  | labelledLink
  | plainText
  | markdownText
  deriving DecidableEq, Repr

namespace Production

/-- Every rule, in declaration order. -/
def all : List Production := [
  accept, start, documentEnd, documentMore, nodes, columns, space, block, classDef,
  defaultClassDef, applyClass, applyStyle, title, description, descriptionBlock, namedBlock,
  anonymousBlock, chainLink, chainStart, unsizedNode, sizedNode, bareNode, shapedNode,
  labelledShape, emptyShape, arrowShape, lastDirection, moreDirections, plainLink, labelledLink,
  plainText, markdownText]

/-- Every rule is in the list of all rules. -/
theorem mem_all (p : Production) : p ∈ all := by
  cases p <;> decide

/-- The part that a rule makes. -/
@[reducible] def lhs : Production → Nonterminal
  | accept => .accept
  | start => .start
  | documentEnd | documentMore => .document
  | nodes | columns | space | block | classDef | defaultClassDef | applyClass | applyStyle
  | title | description | descriptionBlock => .statement
  | namedBlock | anonymousBlock => .blockStatement
  | chainLink | chainStart => .nodeStatement
  | unsizedNode | sizedNode => .sizedNode
  | bareNode | shapedNode => .node
  | labelledShape | emptyShape | arrowShape => .shape
  | lastDirection | moreDirections => .directions
  | plainLink | labelledLink => .link
  | plainText | markdownText => .text

/-- The symbols that a rule makes its part from. -/
@[reducible] def rhs : Production → List Symbol
  | accept => [.nonterminal .start]
  | start => [.terminal .diagram, .nonterminal .document]
  | documentEnd => []
  | documentMore => [.nonterminal .statement, .nonterminal .document]
  | nodes => [.nonterminal .nodeStatement]
  | columns => [.terminal .columns]
  | space => [.terminal .space]
  | block => [.nonterminal .blockStatement]
  | classDef => [.terminal .classDef, .terminal .className, .terminal .classStyles]
  | defaultClassDef => [.terminal .classDef, .terminal .defaultClass, .terminal .classStyles]
  | applyClass => [.terminal .applyClass, .terminal .classTargets, .terminal .appliedClass]
  | applyStyle => [.terminal .applyStyle, .terminal .styleTargets, .terminal .styles]
  | title => [.terminal .title, .terminal .titleText]
  | description => [.terminal .description, .terminal .descriptionText]
  | descriptionBlock => [.terminal .descriptionBlock]
  | namedBlock =>
    [.terminal .namedBlock, .nonterminal .sizedNode, .nonterminal .document, .terminal .blockEnd]
  | anonymousBlock => [.terminal .block, .nonterminal .document, .terminal .blockEnd]
  | chainLink => [.nonterminal .nodeStatement, .nonterminal .link, .nonterminal .sizedNode]
  | chainStart => [.nonterminal .sizedNode]
  | unsizedNode => [.nonterminal .node]
  | sizedNode => [.nonterminal .node, .terminal .width]
  | bareNode => [.terminal .nodeId]
  | shapedNode => [.terminal .nodeId, .nonterminal .shape]
  | labelledShape => [.terminal .shapeOpen, .nonterminal .text, .terminal .shapeClose]
  | emptyShape => [.terminal .shapeOpen, .terminal .shapeClose]
  | arrowShape =>
    [.terminal .arrowOpen, .nonterminal .text, .nonterminal .directions, .terminal .arrowClose]
  | lastDirection => [.terminal .direction]
  | moreDirections => [.terminal .direction, .nonterminal .directions]
  | plainLink => [.terminal .link]
  | labelledLink =>
    [.terminal .labelledLink, .terminal .linkLabel, .nonterminal .text, .terminal .link]
  | plainText => [.terminal .text]
  | markdownText => [.terminal .markdown]

end Production

/-- The rules for one part of a diagram. -/
def productionsOf (part : Nonterminal) : List Production :=
  Production.all.filter fun p ↦ p.lhs = part

/-- Which runs of token kinds a run of symbols can stand for. -/
inductive Derives : List Symbol → List Kind → Prop where
  | done : Derives [] []
  | terminal {kind symbols kinds} (h : Derives symbols kinds) :
      Derives (.terminal kind :: symbols) (kind :: kinds)
  | nonterminal {symbols front back} (p : Production) (hp : Derives p.rhs front)
      (h : Derives symbols back) : Derives (.nonterminal p.lhs :: symbols) (front ++ back)

/-- Holds for the runs of token kinds, end of input excluded, that make up a diagram. -/
def Accepts (kinds : List Kind) : Prop :=
  Derives [.nonterminal .start] kinds

end BlockDiagram.Grammar
