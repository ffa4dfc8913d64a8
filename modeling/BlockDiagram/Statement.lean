import BlockDiagram.Link
import BlockDiagram.Shape
import BlockDiagram.Source.Span

/-!
# Statements

What a source says, statement by statement and before any of it is related to the rest. A chain of
linked nodes is several statements: its nodes and, between two of them, an edge.
-/

namespace BlockDiagram

open Source (Located)

/-- A label as it is written between quotes. -/
structure Label where
  text : String
  markdown : Bool
  deriving DecidableEq, Repr

/-- A node or the head of a composite, as it is written. -/
structure NodeDecl where
  id : String
  label : Option Label := none
  shape : Shape := .unknown
  directions : List Direction := []
  /-- The number of columns that the node spans. -/
  width : Nat := 1
  deriving DecidableEq, Repr

/-- A link between two nodes, as it is written. -/
structure LinkDecl where
  label : Option Label
  startMarker : Marker
  endMarker : Marker
  stroke : Stroke
  deriving DecidableEq, Repr

/-- A link together with the nodes at its ends. -/
structure EdgeDecl where
  start : String
  target : String
  link : LinkDecl
  directions : List Direction
  deriving DecidableEq, Repr

/-- A statement of a source. -/
inductive Statement where
  | node (node : NodeDecl)
  | composite (head : NodeDecl) (body : List (Located Statement))
  | space (count : Nat)
  | columns (count : Int)
  | edge (edge : EdgeDecl)
  | classDef (name declarations : String)
  | applyClass (targets name : String)
  | applyStyles (targets declarations : String)
  | title (text : String)
  | description (text : String)

/-- Nodes with links between them, the last node outermost. -/
inductive Chain where
  | first (node : Located NodeDecl)
  | more (chain : Chain) (link : Located LinkDecl) (node : Located NodeDecl)

namespace Chain

/-- The node at the end of a chain. -/
def last : Chain → NodeDecl
  | first node => node.value
  | more _ _ node => node.value

/-- The edge from the end of a chain to one more node. -/
def edgeTo (chain : Chain) (link : LinkDecl) (node : NodeDecl) : EdgeDecl where
  start := chain.last.id
  target := node.id
  link := link
  directions := node.directions

/-- The statements of a chain, in front of `rest`. -/
def statementsBefore : Chain → List (Located Statement) → List (Located Statement)
  | first node, rest => ⟨.node node.value, node.span⟩ :: rest
  | more chain link node, rest =>
    chain.statementsBefore
      (⟨.edge (chain.edgeTo link.value node.value), link.span⟩ ::
        ⟨.node node.value, node.span⟩ :: rest)

/-- The statements of a chain: its nodes in order, with an edge between any two neighbours. -/
def statements (chain : Chain) : List (Located Statement) :=
  chain.statementsBefore []

end Chain

end BlockDiagram
