import BlockDiagram.Proofs.Grammar.Derivation

/-!
# Gathering statements backwards

Documents are read from the last statement on, so a parser keeps their statements in reverse. Main
statement: `run_evaluate_backwards`, by which a derivation stands for the same statements as if they
were put together in the order of the source. Only the values of documents differ.
-/

namespace BlockDiagram.Grammar

/-- What is kept backwards of the value of a symbol: documents in reverse, all else as it is. -/
def Symbol.backwards : (symbol : Symbol) → symbol.Meaning → symbol.Meaning
  | .nonterminal .document, statements => List.reverse statements
  | _, value => value

/-- What is kept backwards of the values of symbols. -/
def backwardsOf : (symbols : List Symbol) → Values symbols → Values symbols
  | [], _ => ()
  | symbol :: symbols, (value, values) =>
    (⟨symbol.backwards value.value, value.span⟩, backwardsOf symbols values)

private theorem placesOf_backwardsOf (symbols : List Symbol) (values : Values symbols) :
    placesOf symbols (backwardsOf symbols values) = placesOf symbols values := by
  induction symbols with
  | nil => rfl
  | cons symbol symbols ih =>
    obtain ⟨value, values⟩ := values
    rw [backwardsOf, placesOf, placesOf, ih]

private theorem map_eta {α : Type} (result : Except Fault (α × Nat)) :
    result = result.map fun (value, n) ↦ (value, n) := by
  cases result with
  | error fault => rfl
  | ok result => rfl

/-- A rule makes the same of values that are kept backwards, kept backwards itself. -/
theorem run_apply_backwards (p : Production) (span : Source.Span) (values : Values p.rhs) (n : Nat) :
    (p.apply .backwards span (backwardsOf p.rhs values)).run n =
      ((p.apply .forwards span values).run n).map fun (value, n) ↦
        ((Symbol.nonterminal p.lhs).backwards value, n) := by
  cases p with
  | start =>
    obtain ⟨opening, document, -⟩ := values
    exact congrArg (fun statements ↦ Except.ok (statements, n)) (List.reverse_reverse document.value)
  | documentMore =>
    obtain ⟨statement, document, -⟩ := values
    exact congrArg (fun statements ↦ Except.ok (statements, n)) List.reverse_append.symm
  | namedBlock =>
    obtain ⟨opening, head, body, closing, -⟩ := values
    exact congrArg (fun statements ↦ Except.ok (composite head.value statements span, n))
      (List.reverse_reverse body.value)
  | anonymousBlock =>
    obtain ⟨opening, body, closing, -⟩ := values
    exact congrArg
      (fun statements ↦ Except.ok (composite { id := anonymousId (n + 1) } statements span, n + 1))
      (List.reverse_reverse body.value)
  | _ => exact map_eta _

/-- The values of symbols are those that they stand for in the order of the source, with documents
kept backwards. -/
theorem run_evaluate_backwards {symbols : List Symbol} (d : Derivation symbols) (next : Token)
    (n : Nat) :
    (d.evaluate .backwards next).run n =
      ((d.evaluate .forwards next).run n).map fun (values, n) ↦ (backwardsOf symbols values, n) := by
  induction d generalizing next n with
  | nil => rfl
  | token t rest ih =>
    rw [Derivation.run_evaluate_token, Derivation.run_evaluate_token, ih]
    cases (rest.evaluate .forwards next).run n with
    | error fault => rfl
    | ok result => rfl
  | rule p inner rest hinner hrest =>
    rw [Derivation.run_evaluate_rule, Derivation.run_evaluate_rule, hinner]
    cases (inner.evaluate .forwards (rest.first next)).run n with
    | error fault => rfl
    | ok result =>
      obtain ⟨values, n⟩ := result
      simp only [Except.map, placesOf_backwardsOf]
      rw [run_apply_backwards]
      cases (p.apply .forwards (cover (placesOf p.rhs values) (rest.first next)) values).run n with
      | error fault => rfl
      | ok result =>
        obtain ⟨value, n⟩ := result
        simp only [Except.map, hrest]
        cases (rest.evaluate .forwards next).run n with
        | error fault => rfl
        | ok result => rfl

end BlockDiagram.Grammar
