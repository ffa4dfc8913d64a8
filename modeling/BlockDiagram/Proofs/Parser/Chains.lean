import BlockDiagram.Proofs.Parser.Names

/-!
# Chains in a source

How the statements of a source are put together. Nodes and links come in chains only, composites
have statements of the same form in their bodies, and all other statements are written by
themselves (`Written`). So every link stands in front of the node that it leads to (`AllLead`).
-/

namespace BlockDiagram

open Source (Located)

/-- Holds for the statements that are neither part of a chain nor have a body. -/
def Statement.isSingle : Statement → Bool
  | .node _ | .edge _ | .composite _ _ => false
  | _ => true

/-- Holds for statements as they are written: chains, composites and single statements, one behind
the other. -/
inductive Written : List (Located Statement) → Prop where
  | nil : Written []
  | chain {rest} (chain : Chain) (h : Written rest) : Written (chain.statements ++ rest)
  | composite {head body span rest} (hbody : Written body) (h : Written rest) :
      Written (⟨.composite head body, span⟩ :: rest)
  | single {statement span rest} (hsingle : statement.isSingle = true) (h : Written rest) :
      Written (⟨statement, span⟩ :: rest)

private theorem Written.append {front back : List (Located Statement)} (h : Written front)
    (h' : Written back) : Written (front ++ back) := by
  induction h with
  | nil => exact h'
  | chain chain _ ih =>
    rw [List.append_assoc]
    exact .chain chain ih
  | composite hbody _ _ ih => exact .composite hbody ih
  | single hsingle _ ih => exact .single hsingle ih

namespace Grammar

/-- Holds for the parts of a diagram whose statements are as they are written. -/
def Symbol.IsWritten : (symbol : Symbol) → symbol.Meaning → Prop
  | .terminal _, _ => True
  | .nonterminal part, value =>
    match part, value with
    | .accept, statements | .start, statements | .document, statements | .statement, statements =>
      Written statements
    | .blockStatement, statement => Written [statement]
    | .nodeStatement, _ | .sizedNode, _ | .node, _ | .shape, _ | .directions, _ | .link, _
    | .text, _ => True

/-- Holds for runs of such parts. -/
def AllWritten : (symbols : List Symbol) → Values symbols → Prop
  | [], _ => True
  | symbol :: symbols, (value, values) => symbol.IsWritten value.value ∧ AllWritten symbols values

/-- A rule puts statements together as they are written. -/
theorem isWritten_of_apply (p : Production) {span : Source.Span} {values : Values p.rhs}
    (h : AllWritten p.rhs values) {n m : Nat} {value : (Symbol.nonterminal p.lhs).Meaning}
    (hvalue : (p.apply .forwards span values).run n = .ok (value, m)) :
    (Symbol.nonterminal p.lhs).IsWritten value := by
  cases p with
  | accept | block =>
    cases hvalue
    exact h.1
  | start =>
    cases hvalue
    exact h.2.1
  | documentEnd =>
    cases hvalue
    exact .nil
  | documentMore =>
    cases hvalue
    exact h.1.append h.2.1
  | nodes =>
    obtain ⟨chain, ⟨⟩⟩ := values
    cases hvalue
    have hchain := Written.nil.chain chain.value
    rwa [List.append_nil] at hchain
  | columns =>
    obtain ⟨token, ⟨⟩⟩ := values
    obtain ⟨count, rfl, -⟩ := eq_of_run_lift_map hvalue
    exact .single rfl .nil
  | space =>
    obtain ⟨token, ⟨⟩⟩ := values
    obtain ⟨count, rfl, -⟩ := eq_of_run_lift_map hvalue
    exact .single rfl .nil
  | classDef | defaultClassDef | applyClass | applyStyle | title | description
  | descriptionBlock =>
    cases hvalue
    exact .single rfl .nil
  | namedBlock =>
    cases hvalue
    exact .composite h.2.2.1 .nil
  | anonymousBlock =>
    cases hvalue
    exact .composite h.2.1 .nil
  | _ => trivial

/-- What a diagram is read from stands for statements as they are written. -/
theorem Derivation.allWritten_of_evaluate {symbols : List Symbol} (d : Derivation symbols)
    {next : Token} {n m : Nat} {values : Values symbols}
    (h : (d.evaluate .forwards next).run n = .ok (values, m)) : AllWritten symbols values :=
  holds_of_evaluate (P := AllWritten) trivial (fun _ _ _ hothers ↦ ⟨trivial, hothers⟩)
    (fun p _ _ _ _ _ _ _ hparts hvalue hothers ↦ ⟨isWritten_of_apply p hparts hvalue, hothers⟩) d h

end Grammar

/-- The statements of a source are chains, composites and single statements. -/
theorem written_of_statements {source : String} {ss : List (Located Statement)}
    (hss : statements source = .ok ss) : Written ss := by
  obtain ⟨d, eof, -, hd⟩ := exists_derivation_of_statements hss
  obtain ⟨values, n, hvalues, rfl⟩ := Grammar.Derivation.exists_evaluate_of_statements hd
  exact (d.allWritten_of_evaluate hvalues).1

/-! ### Links -/

mutual

/-- Holds for a statement in front of others if it is no link, or the link to the node right behind
it and has the directions of this node, and for composites of such statements. -/
def Statement.Leads (rest : List (Located Statement)) : Statement → Prop
  | .edge e => ∃ node span behind, rest = ⟨.node node, span⟩ :: behind ∧ e.target = node.id ∧
      e.directions = node.directions
  | .composite _ body => AllLead body
  | _ => True

/-- Holds for statements if all links stand in front of the nodes that they lead to, and have their
directions. -/
def AllLead : List (Located Statement) → Prop
  | [] => True
  | ⟨statement, _⟩ :: rest => statement.Leads rest ∧ AllLead rest

end

private theorem Statement.leads_of_isSingle {statement : Statement} (h : statement.isSingle = true)
    (rest : List (Located Statement)) : statement.Leads rest := by
  cases statement <;> trivial

private theorem Statement.Leads.append {statement : Statement} {rest : List (Located Statement)}
    (h : statement.Leads rest) (more : List (Located Statement)) :
    statement.Leads (rest ++ more) := by
  cases statement with
  | edge e =>
    obtain ⟨node, span, behind, rfl, htarget, hdirections⟩ := h
    exact ⟨node, span, behind ++ more, rfl, htarget, hdirections⟩
  | _ => exact h

private theorem AllLead.append {front back : List (Located Statement)} (h : AllLead front)
    (h' : AllLead back) : AllLead (front ++ back) := by
  induction front with
  | nil => exact h'
  | cons statement front ih => exact ⟨h.1.append back, ih h.2⟩

private theorem Chain.allLead_statements (chain : Chain) : AllLead chain.statements := by
  induction chain with
  | first node => exact ⟨trivial, trivial⟩
  | more chain link node ih =>
    rw [statements_more]
    exact ih.append ⟨⟨node.value, node.span, [], rfl, rfl, rfl⟩, trivial, trivial⟩

/-- In what is written every link leads to the node behind it. -/
theorem Written.allLead {ss : List (Located Statement)} (h : Written ss) : AllLead ss := by
  induction h with
  | nil => trivial
  | chain chain _ ih => exact chain.allLead_statements.append ih
  | composite _ _ ihbody ih => exact ⟨ihbody, ih⟩
  | single hsingle _ ih => exact ⟨Statement.leads_of_isSingle hsingle _, ih⟩

end BlockDiagram
