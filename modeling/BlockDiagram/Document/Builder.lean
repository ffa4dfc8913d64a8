import BlockDiagram.Color
import BlockDiagram.Document
import BlockDiagram.Parser

/-!
# Building documents

Carries out statements one after the other. A block is registered when it is first mentioned and
merged with every later mention; it is placed inside the composite whose body first declares it. The
blocks a body places come behind those the composite held before, once the body is complete.
-/

namespace BlockDiagram

open Source (Located Span)

/-- What is known after some of the statements. -/
structure Builder where
  document : Document
  /-- How often each pair of ends has been connected. -/
  connections : Std.ExtTreeMap String Nat
  /-- The number that the next spacer of each composite tries first. -/
  spacers : Std.ExtTreeMap BlockId Nat
  /-- The blocks that are inside some composite. -/
  placed : Std.ExtTreeMap BlockId Unit
  /-- The composites whose bodies are under way, the innermost first. -/
  enclosing : List BlockId

namespace Builder

/-- The state before the first statement. -/
def start : Builder where
  document := .empty
  connections := ∅
  spacers := ∅
  placed := ∅
  enclosing := []

/-- Carrying out statements, which may fail. -/
abbrev Building := StateT Builder (Except Fault)

/-- Changes the document. -/
def modifyDocument (f : Document → Document) : Building Unit :=
  modify fun b ↦ { b with document := f b.document }

/-- Fails when `count` more blocks would be more than `limit`. The root does not count. -/
def reserve (limit count : Nat) (statement : Span) : Building Unit := do
  if limit - ((← get).document.size - 1) < count then throw (.tooManyBlocks limit statement)

/-- The label of a declaration: its own, else none for a composite and the id for other blocks. -/
def labelOf (node : NodeDecl) : Label :=
  match node.label with
  | some label => label
  | none => { text := if node.shape = .composite then "" else node.id, markdown := false }

/-- A block as it is after one more declaration. A shape counts if it is known, and a label if it
says something else than the id. -/
def merge (node : NodeDecl) (block : Block) : Block :=
  let label := labelOf node
  let block := if node.shape = .unknown then block else { block with shape := node.shape }
  if label.text = node.id then block
  else { block with label := label.text, markdown := label.markdown }

/-- The block that a declaration registers. -/
def blockOf (node : NodeDecl) : Block :=
  let label := labelOf node
  { Block.ofShape node.id node.shape with
    label := label.text
    markdown := label.markdown
    directions := node.directions }.withWidth node.width

/-- Registers a block, or merges it with what is known of it. -/
def declare (limit : Nat) (node : NodeDecl) (statement : Span) : Building Unit := do
  if (← get).document.contains node.id then
    modifyDocument (·.modifyBlock node.id (merge node))
  else
    reserve limit 1 statement
    modifyDocument (·.insertBlock (blockOf node))

/-- Fails for a composite whose body is under way. -/
def checkNotEnclosing (id : BlockId) (statement : Span) : Building Unit := do
  if (← get).enclosing.contains id then throw (.nestedInItself id statement)

/-- Adds a block to those that a body places, in reverse order, unless it is placed already. -/
def place (id : BlockId) (children : List BlockId) : Building (List BlockId) :=
  modifyGet fun b ↦
    if b.placed.contains id then (children, b)
    else (id :: children, { b with placed := b.placed.insert id () })

/-- The first number from `n` on that makes a name which is not taken, among `fuel` of them. -/
def freeNumber (taken : BlockId → Bool) (composite : BlockId) : Nat → Nat → Nat
  | 0, n => n
  | fuel + 1, n =>
    if taken (composite.numbered n) then freeNumber taken composite fuel (n + 1) else n

/-- Registers and places a spacer inside a composite. No more numbers are taken than there are
blocks. -/
def addSpacer (composite : BlockId) (children : List BlockId) : Building (List BlockId) := do
  let b ← get
  let n := freeNumber b.document.contains composite b.document.size
    ((b.spacers[composite]?).getD 0)
  let id := composite.numbered n
  set { b with
    spacers := b.spacers.insert composite (n + 1)
    document := b.document.insertBlock (Block.ofShape id .space) }
  place id children

/-- Registers and places `count` spacers. -/
def addSpacers (composite : BlockId) : Nat → List BlockId → Building (List BlockId)
  | 0, children => pure children
  | count + 1, children => do addSpacers composite count (← addSpacer composite children)

/-- The name of an edge that is the `n`-th one between its ends. -/
def edgeId (n : Nat) (ends : String) : BlockId :=
  s!"{n}-{ends}"

/-- Adds an edge. -/
def connect (e : EdgeDecl) : Building Unit :=
  modify fun b ↦
    let ends := s!"{e.start}-{e.target}"
    let n := (b.connections[ends]?).getD 0 + 1
    { b with
      connections := b.connections.insert ends n
      document := b.document.pushEdge
        { id := edgeId n ends
          start := e.start
          target := e.target
          label := e.link.label.map Label.text
          startMarker := e.link.startMarker
          endMarker := e.link.endMarker
          stroke := e.link.stroke
          directions := e.directions } }

/-- The names in a list with commas between them. -/
def targetsOf (targets : String) : List String :=
  ((Text.pieces ',' targets.toList).map fun piece ↦ String.ofList (Text.trimBlank piece)).filter
    fun id ↦ !id.isEmpty

/-- Applies a class to blocks; a block that was not mentioned before is registered for it. -/
def applyClass (limit : Nat) (name : String) (statement : Span) : List BlockId → Building Unit
  | [] => pure ()
  | id :: ids => do
    if !(← get).document.contains id then
      reserve limit 1 statement
      modifyDocument (·.insertBlock (Block.ofShape id .unknown))
    modifyDocument (·.modifyBlock id (·.addClass name))
    applyClass limit name statement ids

/-- The properties whose values are colors. -/
def colorProperties : List String := ["fill", "stroke", "color", "background", "background-color"]

/-- The normal form of one declaration, without the blanks around property and value; none if it is
empty. It ends at a semicolon. -/
def declarationOf (piece : List Char) (statement : Span) : Except Fault (Option String) := do
  let text := Text.trimBlank (piece.takeWhile (· != ';'))
  if text.isEmpty then return none
  match Text.splitFirst? ':' text with
  | none => throw (.malformedDeclaration (String.ofList text) statement)
  | some (property, value) =>
    let property := String.ofList (Text.trimBlank property)
    let value := String.ofList (Text.trimBlank value)
    if colorProperties.contains property then
      match Color.read value with
      | .ok _ => pure ()
      | .error e => throw (.invalidColor e.input property statement)
    return some s!"{property}:{value}"

/-- The normal forms of declarations with commas between them. -/
def declarationsOf (text : String) (statement : Span) : Except Fault (List String) := do
  return (← (Text.pieces ',' text.toList).mapM fun piece ↦ declarationOf piece statement).filterMap
    id

/-- Adds declarations to blocks, which have to be registered. -/
def applyStyles (declarations : List String) (statement : Span) : List BlockId → Building Unit
  | [] => pure ()
  | id :: ids => do
    if !(← get).document.contains id then throw (.undeclaredTarget id statement)
    modifyDocument (·.modifyBlock id fun b ↦ declarations.foldl Block.addStyle b)
    applyStyles declarations statement ids

mutual

/-- Carries out a statement in the body of `composite`. Takes and returns the blocks that the body
has placed so far, in reverse order. -/
def perform (limit : Nat) (composite : BlockId) (span : Span) (children : List BlockId) :
    Statement → Building (List BlockId)
  | .classDef name declarations => do
    let declarations ← declarationsOf declarations span
    modifyDocument (·.modifyClass name fun c ↦ declarations.foldl StyleClass.push c)
    return children
  | .applyClass targets name => do
    applyClass limit name span (targetsOf targets)
    return children
  | .applyStyles targets declarations => do
    applyStyles (← declarationsOf declarations span) span (targetsOf targets)
    return children
  | .columns count => do
    modifyDocument (·.modifyBlock composite fun b ↦ { b with columns := count })
    return children
  | .edge e => do
    connect e
    return children
  | .title text => do
    modifyDocument fun d ↦ { d with title := some text }
    return children
  | .description text => do
    modifyDocument fun d ↦ { d with description := some text }
    return children
  | .space count => do
    reserve limit count span
    addSpacers composite count children
  | .node node => do
    declare limit node span
    checkNotEnclosing node.id span
    place node.id children
  | .composite head body => do
    declare limit head span
    checkNotEnclosing head.id span
    modify fun b ↦ { b with enclosing := head.id :: b.enclosing }
    let inner ← performAll limit head.id [] body
    modifyDocument fun d ↦ d.setChildren head.id (d.children head.id ++ inner.reverse)
    modify fun b ↦ { b with enclosing := b.enclosing.tail }
    place head.id children

/-- Carries out the statements of a body in order. -/
def performAll (limit : Nat) (composite : BlockId) (children : List BlockId) :
    List (Located Statement) → Building (List BlockId)
  | [] => pure children
  | ⟨statement, span⟩ :: statements => do
    performAll limit composite (← perform limit composite span children statement) statements

end

/-- The document that statements make up, with at most `limit` blocks. -/
def build (limit : Nat) (statements : List (Located Statement)) : Except Fault Document := do
  let (children, b) ← (performAll limit BlockId.root [] statements).run start
  return b.document.setChildren BlockId.root
    (b.document.children BlockId.root ++ children.reverse)

end Builder

namespace Document

/-- The number of blocks that a document may have unless something else is asked for. -/
def defaultLimit : Nat := 10000

/-- The document that a source describes, with at most `limit` blocks. -/
def parse (limit : Nat) (source : String) : Except Parser.Failure Document := do
  let statements ← statements source
  match Builder.build limit statements with
  | .ok document => pure document
  | .error fault => throw (.fault fault)

end Document

end BlockDiagram
