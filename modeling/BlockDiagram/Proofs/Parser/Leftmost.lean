import BlockDiagram.Proofs.Document.Building
import BlockDiagram.Proofs.Parser.Statements

/-!
# Leftmost derivations

The rules of a derivation, from left to right, tell which tokens it passes over, and the parser reads
what they give (`statements_of_along`). To follow a list of rules is far less work than to run the
automaton of the grammar: the statements of a source at hand are computed along its rules
(`parse_of_along`).
-/

namespace BlockDiagram

open Grammar
open Source (Located)

namespace Grammar

/-- The derivation of `symbols` whose rules are the first of `rules` and whose tokens are the first
of `tokens`, and what it leaves of both. `fuel` bounds its size. -/
def leftmost : (fuel : Nat) → (symbols : List Symbol) → (rules : List Production) →
    (tokens : List Token) → Option (Derivation symbols × List Production × List Token)
  | 0, _, _, _ => none
  | _ + 1, [], rules, tokens => some (.nil, rules, tokens)
  | fuel + 1, .terminal kind :: symbols, rules, tokens =>
    match tokens with
    | [] => none
    | t :: tokens =>
      if h : t.kind = kind then
        (leftmost fuel symbols rules tokens).map fun (rest, left) ↦ (h ▸ .token t rest, left)
      else none
  | fuel + 1, .nonterminal part :: symbols, rules, tokens =>
    match rules with
    | [] => none
    | p :: rules =>
      if h : p.lhs = part then
        (leftmost fuel p.rhs rules tokens).bind fun (inner, rules, tokens) ↦
          (leftmost fuel symbols rules tokens).map fun (rest, left) ↦
            (h ▸ .rule p inner rest, left)
      else none

/-- The rules for a statement that is a node without a shape. -/
def nodeRules : List Production :=
  [.documentMore, .nodes, .chainStart, .unsizedNode, .bareNode]

/-- The rules for the head of a composite without a shape, and for the statement it opens. -/
def headRules : List Production :=
  [.documentMore, .block, .namedBlock, .unsizedNode, .bareNode]

/-- The rules for brackets around a plain text, behind the name of a node. -/
def labelRules : List Production :=
  [.shapedNode, .labelledShape, .plainText]

/-- No token is passed over. -/
theorem tokens_of_leftmost {fuel : Nat} {symbols : List Symbol} {rules left : List Production}
    {tokens behind : List Token} {d : Derivation symbols}
    (h : leftmost fuel symbols rules tokens = some (d, left, behind)) :
    d.tokens ++ behind = tokens := by
  induction fuel generalizing symbols rules left tokens behind with
  | zero => cases h
  | succ fuel ih =>
    match symbols with
    | [] =>
      cases h
      rfl
    | .terminal kind :: symbols =>
      cases tokens with
      | nil => cases h
      | cons t tokens =>
        rw [leftmost] at h
        split at h
        · next hkind =>
          subst hkind
          obtain ⟨⟨rest, others⟩, hrest, heq⟩ := Option.map_eq_some_iff.1 h
          cases heq
          rw [Derivation.tokens, List.cons_append, ih hrest]
        · cases h
    | .nonterminal part :: symbols =>
      cases rules with
      | nil => cases h
      | cons p rules =>
        rw [leftmost] at h
        split at h
        · next hpart =>
          subst hpart
          obtain ⟨⟨inner, between, others⟩, hinner, hbind⟩ := Option.bind_eq_some_iff.1 h
          obtain ⟨⟨rest, last⟩, hrest, heq⟩ := Option.map_eq_some_iff.1 hbind
          cases heq
          rw [Derivation.tokens, List.append_assoc, ih hrest, ih hinner]
        · cases h

end Grammar

/-- The statements of a source whose derivation has the given rules, from left to right. -/
def statementsAlong (rules : List Production) (source : String) :
    Option (List (Located Statement)) :=
  (Lexer.tokenize source).toOption.bind fun tokens ↦
    match leftmost (rules.length + tokens.length) [.nonterminal .start] rules tokens with
    | some (d, [], [eof]) => (d.statements eof).toOption
    | _ => none

variable {rules : List Production} {source : String} {ss : List (Located Statement)}

/-- The parser reads what is found along the rules. -/
theorem statements_of_along (h : statementsAlong rules source = some ss) :
    statements source = .ok ss := by
  obtain ⟨tokens, htokens, hfound⟩ := Option.bind_eq_some_iff.1 h
  split at hfound
  · next d eof hd =>
    rw [← tokens_of_leftmost hd] at htokens
    rw [statements_eq_of_derivation (eq_ok_of_toOption htokens) d rfl, eq_ok_of_toOption hfound]
    rfl
  · cases hfound

/-- What is computed along the rules comes from the statements and the document of a source. -/
theorem parse_of_along {limit : Nat} {α : Type} {f : List (Located Statement) → Document → α}
    {a : α}
    (h : ((statementsAlong rules source).bind fun ss ↦
      (Builder.build limit ss).toOption.map (f ss)) = some a) :
    ∃ ss d, statements source = .ok ss ∧ Builder.build limit ss = .ok d ∧
      Document.parse limit source = .ok d ∧ f ss d = a := by
  obtain ⟨ss, hfound, hbuilt⟩ := Option.bind_eq_some_iff.1 h
  obtain ⟨d, hd, hresult⟩ := Option.map_eq_some_iff.1 hbuilt
  have hss := statements_of_along hfound
  refine ⟨ss, d, hss, eq_ok_of_toOption hd, ?_, hresult⟩
  rw [Document.parse, hss]
  simp only [bind, Except.bind, eq_ok_of_toOption hd]
  rfl

end BlockDiagram
