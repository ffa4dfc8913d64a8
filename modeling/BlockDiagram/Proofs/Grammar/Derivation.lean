import BlockDiagram.Grammar.Meaning
import Mathlib.Algebra.Order.Ring.Int

/-!
# Derivations

The derivations of tokens from symbols as data, next to the relation `Derives` on their kinds. A
derivation says which statements its tokens stand for (`evaluate`), and how many steps a parser
takes to read them (`size`), at most six for each token (`size_le`).
-/

namespace BlockDiagram.Grammar

open Token (Kind)

/-- Reading something from a single token, which counts no composites. -/
theorem run_lift_map {α β : Type} (result : Except Fault α) (f : α → β) (n : Nat) :
    (do return f (← result) : Reading β).run n = result.map fun a ↦ (f a, n) := by
  rw [StateT.run_bind]
  cases result with
  | error fault => rfl
  | ok a => rfl

/-- A value that is read from a single token comes from what this states, and counts no composites. -/
theorem ok_of_run_lift_map {α β : Type} {result : Except Fault α} {f : α → β} {b : β} {n m : Nat}
    (h : (do return f (← result) : Reading β).run n = .ok (b, m)) :
    ∃ a, result = .ok a ∧ b = f a ∧ m = n := by
  rw [run_lift_map] at h
  cases result with
  | error fault => cases h
  | ok a =>
    cases h
    exact ⟨a, rfl, rfl, rfl⟩

/-- Reading something from a single token counts no composites. -/
theorem eq_of_run_lift_map {α β : Type} {result : Except Fault α} {f : α → β} {b : β} {n m : Nat}
    (h : (do return f (← result) : Reading β).run n = .ok (b, m)) : ∃ a, b = f a ∧ m = n := by
  obtain ⟨a, -, hvalue⟩ := ok_of_run_lift_map h
  exact ⟨a, hvalue⟩

/-- A derivation of tokens from a run of symbols. Each symbol is a token, or a rule for the symbol
with a derivation of what the rule makes its part from. -/
inductive Derivation : List Symbol → Type where
  | nil : Derivation []
  | token {symbols : List Symbol} (token : Token) (rest : Derivation symbols) :
      Derivation (.terminal token.kind :: symbols)
  | rule {symbols : List Symbol} (p : Production) (inner : Derivation p.rhs)
      (rest : Derivation symbols) : Derivation (.nonterminal p.lhs :: symbols)

namespace Derivation

/-- The tokens that are derived, in order. -/
def tokens : {symbols : List Symbol} → Derivation symbols → List Token
  | _, nil => []
  | _, token t rest => t :: rest.tokens
  | _, rule _ inner rest => inner.tokens ++ rest.tokens

/-- The first token of a derivation in front of `next`. -/
def first {symbols : List Symbol} (d : Derivation symbols) (next : Token) : Token :=
  d.tokens.headD next

/-- The number of tokens and rules. -/
def size : {symbols : List Symbol} → Derivation symbols → Nat
  | _, nil => 0
  | _, token _ rest => rest.size + 1
  | _, rule _ inner rest => inner.size + rest.size + 1

/-- The values of symbols in front of `next`, from the tokens up and from left to right. -/
def evaluate (g : Gathering) (next : Token) :
    {symbols : List Symbol} → Derivation symbols → Reading (Values symbols)
  | _, nil => pure ()
  | _, token t rest => do
    let values ← rest.evaluate g next
    return (⟨t, t.span⟩, values)
  | _, rule p inner rest => do
    let following := rest.first next
    let values ← inner.evaluate g following
    let place := cover (placesOf p.rhs values) following
    let value ← p.apply g place values
    let others ← rest.evaluate g next
    return (⟨value, place⟩, others)

/-- Reading a derivation forwards gives the statements of its diagram. -/
def statements (d : Derivation [.nonterminal .start]) (next : Token) :
    Except Fault (List (Source.Located Statement)) :=
  ((d.evaluate .forwards next).run 0).map fun (values, _) ↦ values.1.value

/-- A token in front of other symbols is its own value. -/
theorem run_evaluate_token (g : Gathering) (next t : Token) {symbols : List Symbol}
    (rest : Derivation symbols) (n : Nat) :
    ((token t rest).evaluate g next).run n =
      ((rest.evaluate g next).run n).map fun (values, n) ↦ ((⟨t, t.span⟩, values), n) := by
  simp only [evaluate, StateT.run_bind]
  cases (rest.evaluate g next).run n with
  | error fault => rfl
  | ok result => rfl

/-- A part in front of other symbols has the value that its rule gives it. -/
theorem run_evaluate_rule (g : Gathering) (next : Token) (p : Production)
    (inner : Derivation p.rhs) {symbols : List Symbol} (rest : Derivation symbols) (n : Nat) :
    ((rule p inner rest).evaluate g next).run n =
      match (inner.evaluate g (rest.first next)).run n with
      | .error fault => .error fault
      | .ok (values, n) =>
        let place := cover (placesOf p.rhs values) (rest.first next)
        match (p.apply g place values).run n with
        | .error fault => .error fault
        | .ok (value, n) =>
          ((rest.evaluate g next).run n).map fun (others, n) ↦ ((⟨value, place⟩, others), n) := by
  simp only [evaluate, StateT.run_bind]
  cases (inner.evaluate g (rest.first next)).run n with
  | error fault => rfl
  | ok result =>
    obtain ⟨values, n⟩ := result
    simp only [bind, Except.bind]
    cases (p.apply g (cover (placesOf p.rhs values) (rest.first next)) values).run n with
    | error fault => rfl
    | ok result =>
      obtain ⟨value, n⟩ := result
      dsimp only
      cases (rest.evaluate g next).run n with
      | error fault => rfl
      | ok result => rfl

/-- A derivation that starts with a token stands for values when the rest of it does. -/
theorem run_evaluate_token_ok_iff {g : Gathering} {next t : Token} {symbols : List Symbol}
    {rest : Derivation symbols} {n m : Nat} {values : Values (.terminal t.kind :: symbols)} :
    ((token t rest).evaluate g next).run n = .ok (values, m) ↔
      ∃ others, (rest.evaluate g next).run n = .ok (others, m) ∧ values = (⟨t, t.span⟩, others) := by
  rw [run_evaluate_token]
  cases (rest.evaluate g next).run n with
  | error fault =>
    constructor
    · intro h
      cases h
    · rintro ⟨others, h, -⟩
      cases h
  | ok result =>
    constructor
    · intro h
      cases h
      exact ⟨result.1, rfl, rfl⟩
    · rintro ⟨others, h, rfl⟩
      cases h
      rfl

/-- A derivation that starts with a rule stands for values when the rule can be applied to what its
symbols stand for, and the rest of it stands for values too. -/
theorem run_evaluate_rule_ok_iff {g : Gathering} {next : Token} {p : Production}
    {inner : Derivation p.rhs} {symbols : List Symbol} {rest : Derivation symbols} {n m : Nat}
    {values : Values (.nonterminal p.lhs :: symbols)} :
    ((rule p inner rest).evaluate g next).run n = .ok (values, m) ↔
      ∃ parts n₁ value n₂ others,
        (inner.evaluate g (rest.first next)).run n = .ok (parts, n₁) ∧
        (p.apply g (cover (placesOf p.rhs parts) (rest.first next)) parts).run n₁ =
          .ok (value, n₂) ∧
        (rest.evaluate g next).run n₂ = .ok (others, m) ∧
        values = (⟨value, cover (placesOf p.rhs parts) (rest.first next)⟩, others) := by
  rw [run_evaluate_rule]
  constructor
  · intro h
    split at h
    · cases h
    · next parts n₁ hparts =>
      dsimp only at h
      split at h
      · cases h
      · next value n₂ hvalue =>
        cases hothers : (rest.evaluate g next).run n₂ with
        | error fault =>
          rw [hothers] at h
          cases h
        | ok result =>
          rw [hothers] at h
          cases h
          exact ⟨parts, n₁, value, n₂, result.1, hparts, hvalue, hothers, rfl⟩
  · rintro ⟨parts, n₁, value, n₂, others, hparts, hvalue, hothers, rfl⟩
    simp only [hparts, hvalue, hothers]
    rfl

/-- What holds of no values, of tokens in front of others, and of what rules make of values it holds of,
holds of the values of every derivation. -/
theorem holds_of_evaluate {g : Gathering} {P : (symbols : List Symbol) → Values symbols → Prop}
    (hnil : P [] ())
    (htoken : ∀ (t : Token) {symbols : List Symbol} {others : Values symbols}, P symbols others →
      P (.terminal t.kind :: symbols) (⟨t, t.span⟩, others))
    (hrule : ∀ (p : Production) {symbols : List Symbol} {parts : Values p.rhs}
      {others : Values symbols} {place : Source.Span} {n m : Nat}
      {value : (Symbol.nonterminal p.lhs).Meaning}, P p.rhs parts →
      (p.apply g place parts).run n = .ok (value, m) → P symbols others →
      P (.nonterminal p.lhs :: symbols) (⟨value, place⟩, others))
    {symbols : List Symbol} (d : Derivation symbols) {next : Token} {n m : Nat}
    {values : Values symbols} (h : (d.evaluate g next).run n = .ok (values, m)) :
    P symbols values := by
  induction d generalizing next n m with
  | nil => exact hnil
  | token t rest ih =>
    obtain ⟨others, hothers, rfl⟩ := run_evaluate_token_ok_iff.1 h
    exact htoken t (ih hothers)
  | rule p inner rest hinner hrest =>
    obtain ⟨parts, n₁, value, n₂, others, hparts, hvalue, hothers, rfl⟩ :=
      run_evaluate_rule_ok_iff.1 h
    exact hrule p (hinner hparts) hvalue (hrest hothers)

/-- A derivation with statements stands for values, and the statements are among these. -/
theorem exists_evaluate_of_statements {d : Derivation [.nonterminal .start]} {next : Token}
    {ss : List (Source.Located Statement)} (h : d.statements next = .ok ss) :
    ∃ values n, (d.evaluate .forwards next).run 0 = .ok (values, n) ∧ values.1.value = ss := by
  rw [statements] at h
  cases hvalues : (d.evaluate .forwards next).run 0 with
  | error fault =>
    rw [hvalues] at h
    cases h
  | ok result =>
    rw [hvalues] at h
    cases h
    exact ⟨result.1, result.2, rfl, rfl⟩

/-! ### Derivations and the relation on kinds -/

/-- The kinds of derived tokens stand in the relation to the symbols. -/
theorem derives {symbols : List Symbol} (d : Derivation symbols) :
    Derives symbols (d.tokens.map Token.kind) := by
  induction d with
  | nil => exact .done
  | token t rest ih => exact .terminal ih
  | rule p inner rest hinner hrest =>
    rw [tokens, List.map_append]
    exact .nonterminal p hinner hrest

end Derivation

/-- Tokens whose kinds stand in the relation to symbols have a derivation. -/
theorem Derives.exists_derivation {symbols : List Symbol} {kinds : List Kind}
    (h : Derives symbols kinds) :
    ∀ tokens : List Token, tokens.map Token.kind = kinds →
      ∃ d : Derivation symbols, d.tokens = tokens := by
  induction h with
  | done =>
    intro tokens htokens
    exact ⟨.nil, (List.map_eq_nil_iff.1 htokens).symm⟩
  | terminal h ih =>
    intro tokens htokens
    obtain ⟨t, rest, rfl, rfl, hrest⟩ := List.map_eq_cons_iff.1 htokens
    obtain ⟨d, hd⟩ := ih rest hrest
    exact ⟨.token t d, by rw [Derivation.tokens, hd]⟩
  | nonterminal p hp h ihp ih =>
    intro tokens htokens
    obtain ⟨front, back, rfl, hfront, hback⟩ := List.map_eq_append_iff.1 htokens
    obtain ⟨inner, hinner⟩ := ihp front hfront
    obtain ⟨rest, hrest⟩ := ih back hback
    exact ⟨.rule p inner rest, by rw [Derivation.tokens, hinner, hrest]⟩

/-- A rule makes its part of whatever its symbols derive. -/
theorem Derives.of_production (p : Production) {kinds : List Kind} (h : Derives p.rhs kinds) :
    Derives [.nonterminal p.lhs] kinds := by
  have := Derives.nonterminal p h .done
  rwa [List.append_nil] at this

/-- Two runs of symbols derive one run of kinds after the other. -/
theorem Derives.append {front back : List Symbol} {kinds others : List Kind}
    (h : Derives front kinds) (hback : Derives back others) :
    Derives (front ++ back) (kinds ++ others) := by
  induction h with
  | done => exact hback
  | terminal h ih => exact .terminal ih
  | nonterminal p hp h ihp ih =>
    rw [List.append_assoc]
    exact .nonterminal p hp ih

/-- What two runs of symbols derive is what the first derives and then what the second does. -/
theorem Derives.split {front back : List Symbol} {kinds : List Kind}
    (h : Derives (front ++ back) kinds) :
    ∃ a b, kinds = a ++ b ∧ Derives front a ∧ Derives back b := by
  generalize hsymbols : front ++ back = symbols at h
  induction h generalizing front with
  | done =>
    obtain ⟨rfl, rfl⟩ := List.append_eq_nil_iff.1 hsymbols
    exact ⟨[], [], rfl, .done, .done⟩
  | terminal h ih =>
    rcases List.append_eq_cons_iff.1 hsymbols with ⟨rfl, rfl⟩ | ⟨front, rfl, hrest⟩
    · exact ⟨[], _, rfl, .done, .terminal h⟩
    · obtain ⟨a, b, rfl, ha, hb⟩ := ih hrest.symm
      exact ⟨_ :: a, b, rfl, .terminal ha, hb⟩
  | nonterminal p hp h ihp ih =>
    rcases List.append_eq_cons_iff.1 hsymbols with ⟨rfl, rfl⟩ | ⟨front, rfl, hrest⟩
    · exact ⟨[], _, rfl, .done, .nonterminal p hp h⟩
    · obtain ⟨a, b, rfl, ha, hb⟩ := ih hrest.symm
      exact ⟨_, b, (List.append_assoc _ _ _).symm, .nonterminal p hp ha, hb⟩

/-- No rule has the end of input in it. -/
theorem endOfInput_not_mem_rhs (p : Production) : Symbol.terminal .endOfInput ∉ p.rhs := by
  cases p <;> decide

/-- No rule has the part for whole sources in it. -/
theorem accept_not_mem_rhs (p : Production) : Symbol.nonterminal .accept ∉ p.rhs := by
  cases p <;> decide

/-- The end of the input is no part of a diagram. -/
theorem Derives.endOfInput_not_mem {symbols : List Symbol} {kinds : List Kind}
    (h : Derives symbols kinds) (hsymbols : Symbol.terminal .endOfInput ∉ symbols) :
    Kind.endOfInput ∉ kinds := by
  induction h with
  | done => simp
  | terminal h ih =>
    simp only [List.mem_cons, Symbol.terminal.injEq, not_or] at hsymbols ⊢
    exact ⟨hsymbols.1, ih hsymbols.2⟩
  | nonterminal p hp h ihp ih =>
    simp only [List.mem_cons, not_or] at hsymbols
    simp only [List.mem_append, not_or]
    exact ⟨ihp (endOfInput_not_mem_rhs p), ih hsymbols.2⟩

/-! ### The size of a derivation -/

namespace Derivation

/-- How much the size of a part can be above six times the number of its tokens. -/
def excess : Symbol → Int
  | .terminal _ => -5
  | .nonterminal part =>
    match part with
    | .accept | .document => 1
    | .start => 0
    | .statement => -1
    | .blockStatement | .nodeStatement => -2
    | .sizedNode => -3
    | .node | .shape | .directions | .link | .text => -4

/-- A rule has less in excess than the part that it makes. -/
theorem excess_rhs (p : Production) :
    (p.rhs.map excess).sum + 1 ≤ excess (.nonterminal p.lhs) := by
  cases p <;> decide

private theorem size_le_excess {symbols : List Symbol} (d : Derivation symbols) :
    (d.size : Int) ≤ 6 * d.tokens.length + (symbols.map excess).sum := by
  induction d with
  | nil => simp [size, tokens]
  | token t rest ih =>
    simp only [size, tokens, List.length_cons, List.map_cons, List.sum_cons, excess]
    omega
  | rule p inner rest hinner hrest =>
    have := excess_rhs p
    simp only [size, tokens, List.length_append, List.map_cons, List.sum_cons]
    omega

/-- The size of the derivation of a diagram is at most six times the number of its tokens. -/
theorem size_le (d : Derivation [.nonterminal .start]) : d.size ≤ 6 * d.tokens.length := by
  have h := size_le_excess d
  simp only [List.map_cons, List.map_nil, List.sum_cons, List.sum_nil, excess] at h
  omega

end Derivation

end BlockDiagram.Grammar
