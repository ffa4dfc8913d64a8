import BlockDiagram.Grammar
import BlockDiagram.Grammar.KindSet

/-!
# The parsing automaton

The states of a left-to-right parse with one token of lookahead. A state is a set of items: rules
that may be under way, each with the token kinds that may follow the part it makes. States that
agree on their items are one state, and their lookaheads are put together.
-/

namespace BlockDiagram.Grammar

open Token (Kind)

/-! ### What a part can start with -/

/-- How the text of a part can begin. -/
structure Beginning where
  /-- Whether the part may be empty. -/
  nullable : Bool
  first : KindSet
  deriving DecidableEq, Repr

/-- The beginnings of all parts that are known so far. -/
abbrev Beginnings := List (Nonterminal × Beginning)

namespace Beginnings

/-- The beginning of one part. -/
def of (bs : Beginnings) (part : Nonterminal) : Beginning :=
  (bs.lookup part).getD ⟨false, .empty⟩

/-- How a run of symbols can begin that ends in front of `follow`. -/
def ofSymbols (bs : Beginnings) (follow : Beginning) : List Symbol → Beginning
  | [] => follow
  | .terminal kind :: _ => ⟨false, .single kind⟩
  | .nonterminal part :: rest =>
    let b := bs.of part
    if b.nullable then
      let tail := bs.ofSymbols follow rest
      ⟨tail.nullable, b.first.union tail.first⟩
    else b

/-- The beginnings that follow from the rules and the beginnings known before. -/
def next (bs : Beginnings) : Beginnings :=
  bs.map fun (part, _) ↦
    let beginnings := (productionsOf part).map fun p ↦ bs.ofSymbols ⟨true, .empty⟩ p.rhs
    (part, ⟨beginnings.any Beginning.nullable,
      beginnings.foldl (fun s b ↦ s.union b.first) .empty⟩)

end Beginnings

/-- Repeats `f` until nothing changes, `fuel` times at most. -/
def untilStable {α : Type} [DecidableEq α] (f : α → α) : Nat → α → α
  | 0, x => x
  | fuel + 1, x =>
    let y := f x
    if y = x then x else untilStable f fuel y

/-- Every part of a diagram. -/
def Nonterminal.all : List Nonterminal := [
  .accept, .start, .document, .statement, .blockStatement, .nodeStatement, .sizedNode, .node,
  .shape, .directions, .link, .text]

/-- The beginnings of all parts. -/
def beginnings : Beginnings :=
  untilStable Beginnings.next (2 * Nonterminal.all.length)
    (Nonterminal.all.map fun part ↦ (part, ⟨false, .empty⟩))

/-! ### Items -/

/-- A rule whose first `dot` symbols have been read. -/
structure Item where
  production : Production
  dot : Nat
  deriving DecidableEq, Repr

namespace Item

/-- The symbol to be read next. -/
def next? (item : Item) : Option Symbol :=
  item.production.rhs[item.dot]?

/-- The symbols behind the next one. -/
def rest (item : Item) : List Symbol :=
  item.production.rhs.drop (item.dot + 1)

/-- The item after its next symbol has been read. -/
def advance (item : Item) : Item :=
  { item with dot := item.dot + 1 }

end Item

/-- Items, each with the kinds that may follow the part it makes. -/
abbrev Items := List (Item × KindSet)

namespace Items

/-- Adds lookaheads to an item, and the item itself where it is missing. -/
def add (item : Item) (lookahead : KindSet) : Items → Items
  | [] => [(item, lookahead)]
  | (other, kinds) :: rest =>
    if other = item then (other, kinds.union lookahead) :: rest
    else (other, kinds) :: add item lookahead rest

/-- All items of both sets. -/
def union (items new : Items) : Items :=
  new.foldl (fun items (item, lookahead) ↦ items.add item lookahead) items

/-- Holds when both sets have the same items, whatever their lookaheads. -/
def sameCore (items others : Items) : Bool :=
  items.length == others.length && items.all fun (item, _) ↦ (others.lookup item).isSome

/-- The items that start the part which an item waits for. -/
def started (item : Item) (lookahead : KindSet) : Items :=
  match item.next? with
  | some (.nonterminal part) =>
    let kinds := (beginnings.ofSymbols ⟨true, lookahead⟩ item.rest).first
    (productionsOf part).map fun p ↦ (⟨p, 0⟩, kinds)
  | _ => []

/-- The items together with those that start a part one of them waits for. -/
def startedOnce (items : Items) : Items :=
  items.foldl (fun all (item, lookahead) ↦ all.union (started item lookahead)) items

/-- The items together with all that have to be under way beside them. -/
def closure (items : Items) : Items :=
  untilStable startedOnce (Production.all.length + items.length) items

/-- The symbols that items wait for, each once. -/
def nextSymbols (items : Items) : List Symbol :=
  (items.filterMap fun (item, _) ↦ item.next?).eraseDups

/-- The items left under way after `symbol` has been read. -/
def after (items : Items) (symbol : Symbol) : Items :=
  items.filterMap fun (item, lookahead) ↦
    if item.next? = some symbol then some (item.advance, lookahead) else none

end Items

/-! ### States -/

/-- A set of items under way, and the state behind each symbol that may come next. -/
structure AutomatonState where
  items : Items
  next : List (Symbol × Nat)
  deriving Repr

/-- The states of a parse, the initial one first. -/
abbrev Automaton := Array AutomatonState

namespace Automaton

/-- The item of a parse that has not begun. -/
def initial : Items := [(⟨.accept, 0⟩, .single .endOfInput)]

/-- Puts items into the state with the same core, or into a new one. The result names the state if
its lookaheads have grown. -/
def place (kernels : List Items) (items : Items) : List Items × Option Nat :=
  match kernels.findIdx? (·.sameCore items) with
  | none => (kernels ++ [items], some kernels.length)
  | some i =>
    let old := kernels.getD i []
    let new := old.union items
    if new = old then (kernels, none) else (kernels.set i new, some i)

/-- Follows all symbols out of the states in `queue`, and out of every state that this changes. -/
def explore : Nat → List Items → List Nat → List Items
  | 0, kernels, _ => kernels
  | _, kernels, [] => kernels
  | fuel + 1, kernels, i :: queue =>
    let items := (kernels.getD i []).closure
    let (kernels, changed) := items.nextSymbols.foldl
      (fun (kernels, changed) symbol ↦
        let (kernels, grown) := place kernels (items.after symbol)
        (kernels, changed ++ grown.toList))
      (kernels, [])
    explore fuel kernels (queue ++ changed.filter fun j ↦ !queue.contains j)

/-- The items that distinguish the states of the grammar. A few hundred steps reach them all. -/
def kernels : List Items :=
  explore 1000 [initial] [0]

/-- The automaton of the grammar. -/
def ofGrammar : Automaton :=
  (kernels.map fun kernel ↦
    let items := kernel.closure
    let next := items.nextSymbols.filterMap fun symbol ↦
      (kernels.findIdx? (·.sameCore (items.after symbol))).map fun i ↦ (symbol, i)
    { items, next }).toArray

end Automaton

/-- What to do with a token. -/
inductive Action where
  /-- Read it and go on in another state. -/
  | shift (state : Nat)
  /-- Apply a rule to what was read before it. -/
  | reduce (production : Production)
  /-- The diagram is complete. -/
  | accept
  deriving DecidableEq, Repr

namespace AutomatonState

/-- The action for a token kind, if it has a place here. -/
def action (state : AutomatonState) (kind : Kind) : Option Action :=
  match state.next.lookup (.terminal kind) with
  | some target => some (.shift target)
  | none =>
    (state.items.find? fun (item, lookahead) ↦
      item.next?.isNone && lookahead.contains kind).map fun (item, _) ↦
        if item.production = .accept then .accept else .reduce item.production

/-- The kinds that have a place here, in declaration order. -/
def expected (state : AutomatonState) : List Kind :=
  Kind.all.filter fun kind ↦ (state.action kind).isSome

end AutomatonState

end BlockDiagram.Grammar
