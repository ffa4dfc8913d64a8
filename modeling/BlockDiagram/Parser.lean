import BlockDiagram.Grammar.Automaton
import BlockDiagram.Grammar.Meaning

/-!
# The parser

Reads the statements of a source. Tokens are taken one at a time, whenever the one before has found
its place; each is read into a stack of symbols, or a rule is applied to the symbols on top of the
stack. The run works on any source of tokens, so a list of tokens can stand in for the lexer.
-/

namespace BlockDiagram.Parser

open Grammar Source
open Token (Kind)

/-- Why reading came to no end. -/
inductive Failure where
  | fault (fault : Fault)
  /-- The automaton has no way on, although it asked for this step. -/
  | stuck
  /-- The steps that a run may take were used up. -/
  | unfinished
  deriving DecidableEq, Repr

/-- A source of tokens with state `σ`. -/
abbrev TokenSource (σ : Type) := σ → Except Fault (Token × σ)

/-- The tokens of a source text as they are lexed. -/
def lexed : TokenSource Lexer.State := fun s ↦
  match s.next with
  | .ok next => .ok next
  | .error unmatched => .error (.unmatched unmatched)

/-- A symbol that has been read, and the state of the automaton behind it. -/
structure Frame where
  state : Nat
  symbol : Grammar.Symbol
  value : Located symbol.Meaning

/-- How far a source has been read. -/
structure Config (σ : Type) where
  /-- What has been read, the last symbol first. -/
  stack : List Frame
  /-- The next token, which is looked at before it is read. -/
  lookahead : Token
  /-- Where the tokens behind that one come from. -/
  source : σ
  /-- The number of composites without names so far. -/
  anonymous : Nat

/-- The state of the automaton behind a stack. -/
def stateOf : List Frame → Nat
  | [] => 0
  | frame :: _ => frame.state

/-- The values of frames that hold the given symbols. -/
def valuesOf? : (symbols : List Grammar.Symbol) → List Frame → Option (Values symbols)
  | [], [] => some ()
  | symbol :: symbols, frame :: frames =>
    if h : frame.symbol = symbol then
      (valuesOf? symbols frames).map fun values ↦ (h ▸ frame.value, values)
    else none
  | _, _ => none

variable {σ : Type}

/-- Applies a rule to the symbols on top of the stack. -/
def reduce (automaton : Automaton) (c : Config σ) (p : Production) : Except Failure (Config σ) :=
  let arity := p.rhs.length
  let frames := (c.stack.take arity).reverse
  let below := c.stack.drop arity
  match valuesOf? p.rhs frames with
  | none => throw .stuck
  | some values =>
    let span := cover (placesOf p.rhs values) c.lookahead
    match (p.apply .backwards span values).run c.anonymous with
    | .error fault => throw (.fault fault)
    | .ok (value, anonymous) =>
      let symbol := Grammar.Symbol.nonterminal p.lhs
      match automaton[stateOf below]?.bind (·.next.lookup symbol) with
      | none => throw .stuck
      | some state => pure { c with stack := ⟨state, symbol, value, span⟩ :: below, anonymous }

/-- Reads the next token and looks at the one behind it. -/
def shift (tokens : TokenSource σ) (c : Config σ) (state : Nat) : Except Failure (Config σ) :=
  match tokens c.source with
  | .error fault => throw (.fault fault)
  | .ok (lookahead, source) =>
    let token := c.lookahead
    pure { c with stack := ⟨state, .terminal token.kind, token, token.span⟩ :: c.stack,
                  lookahead, source }

/-- The statements on a stack that holds a whole diagram. -/
def accepted (c : Config σ) : Except Failure (List (Located Statement)) :=
  match valuesOf? [.nonterminal .start] c.stack with
  | some (statements, ()) => pure statements.value
  | none => throw .stuck

/-- What a step leads to. -/
inductive Step (σ : Type) where
  | more (c : Config σ)
  | done (statements : List (Located Statement))

/-- One step of a run. -/
def step (automaton : Automaton) (tokens : TokenSource σ) (c : Config σ) :
    Except Failure (Step σ) :=
  match automaton[stateOf c.stack]? with
  | none => throw .stuck
  | some state =>
    match state.action c.lookahead.kind with
    | some (.shift target) => return .more (← shift tokens c target)
    | some (.reduce p) => return .more (← reduce automaton c p)
    | some .accept => return .done (← accepted c)
    | none => throw (.fault (.unexpected c.lookahead state.expected))

/-- Takes steps until the diagram is complete, `fuel` of them at most. -/
def run (automaton : Automaton) (tokens : TokenSource σ) :
    Nat → Config σ → Except Failure (List (Located Statement))
  | 0, _ => throw .unfinished
  | fuel + 1, c =>
    match step automaton tokens c with
    | .error failure => throw failure
    | .ok (.done statements) => pure statements
    | .ok (.more c) => run automaton tokens fuel c

/-- Reads the statements that a source of tokens makes up. -/
def runFrom (automaton : Automaton) (tokens : TokenSource σ) (fuel : Nat) (source : σ) :
    Except Failure (List (Located Statement)) :=
  match tokens source with
  | .error fault => throw (.fault fault)
  | .ok (lookahead, source) =>
    run automaton tokens fuel { stack := [], lookahead, source, anonymous := 0 }

/-- The automaton that sources are read with. -/
def automaton : Automaton := Automaton.ofGrammar

/-- The steps that are enough for a source of the given length. Every token takes a character, is
read in one step, and completes no more than a dozen parts. -/
def fuelFor (length : Nat) : Nat :=
  16 * (length + 2)

end BlockDiagram.Parser

namespace BlockDiagram

/-- The statements of a source. -/
def statements (source : String) : Except Parser.Failure (List (Source.Located Statement)) :=
  Parser.runFrom Parser.automaton Parser.lexed (Parser.fuelFor source.length)
    (Lexer.State.start source)

end BlockDiagram
