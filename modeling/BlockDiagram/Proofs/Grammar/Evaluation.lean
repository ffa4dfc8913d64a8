import BlockDiagram.Proofs.Grammar.Numbers

/-!
# What derivations stand for

A derivation of tokens from a source stands for statements exactly when all of its numbers are in
range (`run_evaluate_ok_iff`). Each rule can be applied when its own tokens are
(`run_apply_ok_iff`), whatever the parts are that it is made from.
-/

namespace BlockDiagram.Grammar

open Lexer (HasOrigin)
open Token (Kind)

/-- Holds when the tokens among the values of symbols all satisfy `P`, for the kinds that the
symbols name. -/
def AllTokens (P : Kind → Token → Prop) : (symbols : List Symbol) → Values symbols → Prop
  | [], _ => True
  | .terminal kind :: symbols, (token, values) => P kind token.value ∧ AllTokens P symbols values
  | .nonterminal _ :: symbols, (_, values) => AllTokens P symbols values

/-- What holds of all tokens may be weakened. -/
theorem AllTokens.imp {P Q : Kind → Token → Prop} (h : ∀ kind t, P kind t → Q kind t)
    {symbols : List Symbol} {values : Values symbols} (hall : AllTokens P symbols values) :
    AllTokens Q symbols values := by
  induction symbols with
  | nil => trivial
  | cons symbol symbols ih =>
    cases symbol with
    | terminal kind => exact ⟨h _ _ hall.1, ih hall.2⟩
    | nonterminal part => exact ih hall

/-- Holds for tokens of a kind that come from a source. -/
def Comes (kind : Kind) (t : Token) : Prop :=
  t.kind = kind ∧ HasOrigin t

/-- Holds for tokens in range, of any kind. -/
def Fits (_ : Kind) (t : Token) : Prop :=
  InRange t

/-- Holds for symbols whose tokens have no limit. -/
def Symbol.isUnlimited : Symbol → Bool
  | .terminal kind => (limit? kind).isNone
  | .nonterminal _ => true

private theorem allTokens_fits {symbols : List Symbol}
    (hsymbols : ∀ symbol ∈ symbols, symbol.isUnlimited)
    {values : Values symbols} (h : AllTokens Comes symbols values) :
    AllTokens Fits symbols values := by
  induction symbols with
  | nil => trivial
  | cons symbol symbols ih =>
    obtain ⟨value, values⟩ := values
    obtain ⟨hsymbol, hrest⟩ := List.forall_mem_cons.1 hsymbols
    cases symbol with
    | nonterminal part => exact ih hrest h
    | terminal kind =>
      obtain ⟨⟨hkind, -⟩, hvalues⟩ := h
      refine ⟨fun limit hlimit ↦ ?_, ih hrest hvalues⟩
      rw [hkind, Option.isNone_iff_eq_none.1 hsymbol] at hlimit
      cases hlimit

/-- The tokens among the values of a derivation are tokens of the derivation. -/
theorem allTokens_of_evaluate (P : Token → Prop) {g : Gathering} {next : Token}
    {symbols : List Symbol} (d : Derivation symbols) (h : ∀ t ∈ d.tokens, P t) {n m : Nat}
    {values : Values symbols} (hvalues : (d.evaluate g next).run n = .ok (values, m)) :
    AllTokens (fun kind t ↦ t.kind = kind ∧ P t) symbols values := by
  induction d generalizing n m next with
  | nil => trivial
  | token t rest ih =>
    obtain ⟨ht, hrest⟩ := List.forall_mem_cons.1 h
    obtain ⟨others, hothers, rfl⟩ := Derivation.run_evaluate_token_ok_iff.1 hvalues
    exact ⟨⟨rfl, ht⟩, ih hrest hothers⟩
  | rule p inner rest hinner hrest =>
    obtain ⟨-, hright⟩ := List.forall_mem_append.1 h
    obtain ⟨_, _, _, _, others, -, -, hothers, rfl⟩ :=
      Derivation.run_evaluate_rule_ok_iff.1 hvalues
    exact hrest hright hothers

private theorem exists_ok_map {α β : Type} {r : Except Fault α} (f : α → β) :
    (∃ b, (r.map f) = .ok b) ↔ ∃ a, r = .ok a := by
  cases r with
  | error fault =>
    constructor
    · rintro ⟨b, hb⟩
      cases hb
    · rintro ⟨a, ha⟩
      cases ha
  | ok a => exact ⟨fun _ ↦ ⟨a, rfl⟩, fun _ ↦ ⟨f a, rfl⟩⟩

/-- A rule can be applied to tokens from a source when the numbers that they state are in range. -/
theorem run_apply_ok_iff (g : Gathering) (span : Source.Span) (p : Production)
    {values : Values p.rhs} (h : AllTokens Comes p.rhs values) (n : Nat) :
    (∃ result, (p.apply g span values).run n = .ok result) ↔ AllTokens Fits p.rhs values := by
  cases p with
  | columns =>
    obtain ⟨token, ⟨⟩⟩ := values
    obtain ⟨⟨hkind, horigin⟩, -⟩ := h
    have hmap : (Production.columns.apply g span (token, ())).run n =
        (columnsIn token.value).map fun count ↦ (single (.columns count) span, n) :=
      run_lift_map _ _ n
    rw [hmap, exists_ok_map, columnsIn_ok_iff horigin hkind]
    exact (and_iff_left trivial).symm
  | space =>
    obtain ⟨token, ⟨⟩⟩ := values
    obtain ⟨⟨hkind, horigin⟩, -⟩ := h
    have hmap : (Production.space.apply g span (token, ())).run n =
        (spacersIn token.value).map fun count ↦ (single (.space count) span, n) :=
      run_lift_map _ _ n
    rw [hmap, exists_ok_map, spacersIn_ok_iff horigin hkind]
    exact (and_iff_left trivial).symm
  | sizedNode =>
    obtain ⟨node, width, ⟨⟩⟩ := values
    obtain ⟨⟨hkind, horigin⟩, -⟩ := h
    have hmap : (Production.sizedNode.apply g span (node, width, ())).run n =
        (numberIn width.value maxWidth).map fun columns ↦
          ({ node.value with width := columns }, n) :=
      run_lift_map _ _ n
    rw [hmap, exists_ok_map, width_ok_iff horigin hkind]
    exact (and_iff_left trivial).symm
  | lastDirection =>
    obtain ⟨token, ⟨⟩⟩ := values
    obtain ⟨direction, hdirection⟩ := exists_directionIn h.1.2 h.1.1
    refine ⟨fun _ ↦ allTokens_fits (by decide) h, fun _ ↦ ⟨([direction], n), ?_⟩⟩
    simp only [Production.apply, hdirection]
    rfl
  | moreDirections =>
    obtain ⟨token, directions, ⟨⟩⟩ := values
    obtain ⟨direction, hdirection⟩ := exists_directionIn h.1.2 h.1.1
    refine ⟨fun _ ↦ allTokens_fits (by decide) h,
      fun _ ↦ ⟨(direction :: directions.value, n), ?_⟩⟩
    simp only [Production.apply, hdirection]
    rfl
  | _ => exact ⟨fun _ ↦ allTokens_fits (by decide) h, fun _ ↦ ⟨_, rfl⟩⟩

/-- A derivation of tokens from a source stands for values when the numbers inside of its parts are
in range. Those of tokens that are no part of anything are found in the values. -/
theorem run_evaluate_ok_iff (g : Gathering) {symbols : List Symbol} (d : Derivation symbols)
    (h : ∀ t ∈ d.tokens, HasOrigin t) (next : Token) (n : Nat) :
    (∃ values m, (d.evaluate g next).run n = .ok (values, m) ∧ AllTokens Fits symbols values) ↔
      ∀ t ∈ d.tokens, InRange t := by
  induction d generalizing n next with
  | nil => exact ⟨fun _ ↦ List.forall_mem_nil _, fun _ ↦ ⟨(), n, rfl, trivial⟩⟩
  | token t rest ih =>
    obtain ⟨-, hrest⟩ := List.forall_mem_cons.1 h
    rw [Derivation.tokens, List.forall_mem_cons, ← ih hrest next n]
    constructor
    · rintro ⟨values, m, hvalues, hfits⟩
      obtain ⟨others, hothers, rfl⟩ := Derivation.run_evaluate_token_ok_iff.1 hvalues
      exact ⟨hfits.1, others, m, hothers, hfits.2⟩
    · rintro ⟨ht, others, m, hothers, hfits⟩
      exact ⟨_, m, Derivation.run_evaluate_token_ok_iff.2 ⟨others, hothers, rfl⟩, ht, hfits⟩
  | rule p inner rest hinner hrest =>
    obtain ⟨hleft, hright⟩ := List.forall_mem_append.1 h
    rw [Derivation.tokens, List.forall_mem_append, ← hinner hleft (rest.first next) n]
    constructor
    · rintro ⟨values, m, hvalues, hfits⟩
      obtain ⟨parts, n₁, value, n₂, others, hparts, hvalue, hothers, rfl⟩ :=
        Derivation.run_evaluate_rule_ok_iff.1 hvalues
      have hcomes := allTokens_of_evaluate HasOrigin inner hleft hparts
      have hinside := (run_apply_ok_iff g _ p hcomes n₁).1 ⟨_, hvalue⟩
      exact ⟨⟨parts, n₁, hparts, hinside⟩, (hrest hright next n₂).1 ⟨others, m, hothers, hfits⟩⟩
    · rintro ⟨⟨parts, n₁, hparts, hinside⟩, hright'⟩
      have hcomes := allTokens_of_evaluate HasOrigin inner hleft hparts
      obtain ⟨⟨value, n₂⟩, hvalue⟩ :=
        (run_apply_ok_iff g (cover (placesOf p.rhs parts) (rest.first next)) p hcomes n₁).2 hinside
      obtain ⟨others, m, hothers, hfits⟩ := (hrest hright next n₂).2 hright'
      exact ⟨_, m, Derivation.run_evaluate_rule_ok_iff.2
        ⟨parts, n₁, value, n₂, others, hparts, hvalue, hothers, rfl⟩, hfits⟩

end BlockDiagram.Grammar
