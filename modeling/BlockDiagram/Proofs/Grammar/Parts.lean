import BlockDiagram.Proofs.Grammar.Derivation
import BlockDiagram.Proofs.Statement

/-!
# What the parts of a diagram stand for

The statements of a derivation are well formed (`Derivation.wellFormed`). Each rule makes a value
that can be written of values that can be written (`isProper_of_apply`).
-/

namespace BlockDiagram.Grammar

/-- Holds for what the parts of a diagram can stand for. -/
def Symbol.IsProper : (symbol : Symbol) → symbol.Meaning → Prop
  | .terminal _, _ => True
  | .nonterminal part, value =>
    match part, value with
    | .accept, statements | .start, statements | .document, statements | .statement, statements =>
      WellFormed statements
    | .blockStatement, statement => WellFormed [statement]
    | .nodeStatement, chain => chain.IsProper
    | .sizedNode, node | .node, node => NodeDecl.IsProper node
    | .shape, shape => shape.shape ≠ .space
    | .directions, _ | .link, _ | .text, _ => True

/-- Holds for what runs of symbols can stand for. -/
def AllValues : (symbols : List Symbol) → Values symbols → Prop
  | [], _ => True
  | symbol :: symbols, (value, values) => symbol.IsProper value.value ∧ AllValues symbols values

private theorem one_le_maxWidth : 1 ≤ maxWidth := by
  decide

private theorem numberIn_le {t : Token} {limit n : Nat} (h : numberIn t limit = .ok n) :
    n ≤ limit := by
  rw [numberIn] at h
  split at h
  · cases h
  · next hle =>
    simp only [Bool.or_eq_true, decide_eq_true_eq, not_or] at hle
    cases h
    omega

/-- A column count that stands for as many columns as are needed is negative. -/
theorem columnsIn_le {t : Token} {count : Int} (h : columnsIn t = .ok count) :
    count ≤ maxColumns := by
  rw [columnsIn] at h
  split at h
  · cases h
    decide
  · cases hnumber : numberIn t maxColumns with
    | error fault =>
      rw [hnumber] at h
      cases h
    | ok n =>
      rw [hnumber] at h
      cases h
      exact Int.ofNat_le.2 (numberIn_le hnumber)

/-- Brackets never ask for a spacer. -/
theorem ofBrackets_ne_space (opening closing : String) :
    Shape.ofBrackets opening closing ≠ .space := by
  unfold Shape.ofBrackets
  split <;> decide

/-- A composite whose head and body can be written. -/
theorem wellFormed_composite {head : NodeDecl} (hhead : head.IsProper)
    {body : List (Source.Located Statement)} (hbody : WellFormed body) (span : Source.Span) :
    WellFormed [composite head body span] := by
  have hproper : NodeDecl.IsProper { head with shape := .composite } := {
    shape_ne_space := Shape.noConfusion
    width_le := hhead.width_le }
  exact .composite hproper rfl hbody

/-- A rule makes a value that can be written of values that can be written. -/
theorem isProper_of_apply (p : Production) {span : Source.Span} {values : Values p.rhs}
    (h : AllValues p.rhs values) {n m : Nat} {value : (Symbol.nonterminal p.lhs).Meaning}
    (hvalue : (p.apply .forwards span values).run n = .ok (value, m)) :
    (Symbol.nonterminal p.lhs).IsProper value := by
  cases p with
  | accept =>
    cases hvalue
    exact h.1
  | start =>
    cases hvalue
    exact h.2.1
  | documentEnd =>
    cases hvalue
    exact WellFormed.nil
  | documentMore =>
    cases hvalue
    exact h.1.append h.2.1
  | nodes =>
    cases hvalue
    exact Chain.wellFormed_statements _ h.1
  | columns =>
    obtain ⟨token, ⟨⟩⟩ := values
    obtain ⟨count, hcount, rfl, -⟩ := ok_of_run_lift_map hvalue
    exact WellFormed.single (columnsIn_le hcount) rfl rfl
  | space =>
    obtain ⟨token, ⟨⟩⟩ := values
    obtain ⟨count, rfl, -⟩ := eq_of_run_lift_map hvalue
    exact WellFormed.single trivial rfl rfl
  | block =>
    cases hvalue
    exact h.1
  | classDef | defaultClassDef | applyClass | applyStyle | title | description
  | descriptionBlock =>
    cases hvalue
    exact WellFormed.single trivial rfl rfl
  | namedBlock =>
    cases hvalue
    exact wellFormed_composite h.2.1 h.2.2.1 span
  | anonymousBlock =>
    cases hvalue
    refine wellFormed_composite ?_ h.2.1 span
    exact { shape_ne_space := Shape.noConfusion, width_le := one_le_maxWidth }
  | chainLink =>
    cases hvalue
    exact ⟨h.1, h.2.2.1⟩
  | chainStart =>
    cases hvalue
    exact h.1
  | unsizedNode =>
    cases hvalue
    exact h.1
  | sizedNode =>
    obtain ⟨node, width, ⟨⟩⟩ := values
    obtain ⟨columns, hcolumns, rfl, -⟩ := ok_of_run_lift_map hvalue
    exact { shape_ne_space := h.1.shape_ne_space, width_le := numberIn_le hcolumns }
  | bareNode =>
    cases hvalue
    exact { shape_ne_space := Shape.noConfusion, width_le := one_le_maxWidth }
  | shapedNode =>
    cases hvalue
    exact { shape_ne_space := h.2.1, width_le := one_le_maxWidth }
  | labelledShape | emptyShape =>
    cases hvalue
    exact ofBrackets_ne_space _ _
  | arrowShape =>
    cases hvalue
    exact Shape.noConfusion
  | lastDirection | moreDirections | plainLink | labelledLink | plainText | markdownText =>
    trivial

/-- Symbols stand for values that can be written. -/
theorem Derivation.allValues_of_evaluate {symbols : List Symbol} (d : Derivation symbols)
    {next : Token} {n m : Nat} {values : Values symbols}
    (h : (d.evaluate .forwards next).run n = .ok (values, m)) : AllValues symbols values :=
  holds_of_evaluate (P := AllValues) trivial (fun _ _ _ hothers ↦ ⟨trivial, hothers⟩)
    (fun p _ _ _ _ _ _ _ hparts hvalue hothers ↦ ⟨isProper_of_apply p hparts hvalue, hothers⟩) d h

/-- The statements of a diagram are well formed. -/
theorem Derivation.wellFormed {d : Derivation [.nonterminal .start]} {next : Token}
    {ss : List (Source.Located Statement)} (h : d.statements next = .ok ss) : WellFormed ss := by
  obtain ⟨values, n, hvalues, rfl⟩ := Derivation.exists_evaluate_of_statements h
  exact (d.allValues_of_evaluate hvalues).1

end BlockDiagram.Grammar
