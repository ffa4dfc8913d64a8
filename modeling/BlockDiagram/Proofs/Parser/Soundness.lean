import BlockDiagram.Proofs.Parser.Completeness

/-!
# Accepted tokens

The parser accepts nothing but diagrams. A step that goes on reads a token or applies a rule
(`step_more_iff`), and after either the symbols on the stack derive the tokens that have been read
so far (`derives_of_step`), so the tokens in front of the end of the input make up a diagram when a
run succeeds (`derives_of_run`).
-/

namespace BlockDiagram.Parser

open Grammar
open Token (Kind)

variable {σ : Type} {automaton : Automaton} {tokens : TokenSource σ} {c c' : Config σ}

namespace Reads

variable {t next next' : Token} {s s' s'' : σ} {ts ts' : List Token}

/-- Tokens may be read in two turns, the second of which starts with the last one taken. -/
theorem append (h : Reads tokens t s ts next s') (h' : Reads tokens next s' ts' next' s'') :
    Reads tokens t s (ts ++ ts') next' s'' := by
  induction h with
  | nil => exact h'
  | cons ht hts ih => exact .cons ht (ih h')

end Reads

/-- The symbols on a stack, in the order of the source. -/
def symbolsOf (stack : List Frame) : List Grammar.Symbol :=
  stack.reverse.map Frame.symbol

/-- The symbols of a stack come in the order in which they were read. -/
theorem symbolsOf_append (frames below : List Frame) :
    symbolsOf (frames ++ below) = symbolsOf below ++ symbolsOf frames := by
  rw [symbolsOf, List.reverse_append, List.map_append]
  rfl

/-! ### What a step does -/

/-- Holds when the next token is read. -/
inductive Shifts (automaton : Automaton) (tokens : TokenSource σ) : Config σ → Config σ → Prop where
  | intro {c : Config σ} {state : AutomatonState} {target : Nat} {token : Token} {s : σ}
      (hstate : automaton[stateOf c.stack]? = some state)
      (haction : state.action c.lookahead.kind = some (.shift target))
      (htoken : tokens c.source = .ok (token, s)) :
      Shifts automaton tokens c { c with
        stack := ⟨target, .terminal c.lookahead.kind, c.lookahead, c.lookahead.span⟩ :: c.stack
        lookahead := token
        source := s }

/-- Holds when a rule is applied to the symbols on top of the stack. -/
inductive Reduces (automaton : Automaton) : Config σ → Config σ → Prop where
  | intro {c : Config σ} {state : AutomatonState} {p : Production} {frames below : List Frame}
      {values : Values p.rhs} {value : (Grammar.Symbol.nonterminal p.lhs).Meaning}
      {anonymous target : Nat} (hstate : automaton[stateOf c.stack]? = some state)
      (haction : state.action c.lookahead.kind = some (.reduce p))
      (hstack : c.stack = frames ++ below)
      (hvalues : valuesOf? p.rhs frames.reverse = some values)
      (happly : (p.apply .backwards (cover (placesOf p.rhs values) c.lookahead) values).run
        c.anonymous = .ok (value, anonymous))
      (htarget : automaton[stateOf below]?.bind (·.next.lookup (.nonterminal p.lhs)) =
        some target) :
      Reduces automaton c { c with
        stack := ⟨target, .nonterminal p.lhs, value, cover (placesOf p.rhs values) c.lookahead⟩ ::
          below
        anonymous }

/-- A step that goes on reads a token or applies a rule. -/
theorem step_more_iff : step automaton tokens c = .ok (.more c') ↔
    Shifts automaton tokens c c' ∨ Reduces automaton c c' := by
  constructor
  · intro h
    rw [step] at h
    split at h
    · cases h
    · next state hstate =>
      split at h
      · next target haction =>
        left
        rw [shift] at h
        split at h
        · cases h
        · next token s htoken =>
          cases h
          exact .intro hstate haction htoken
      · next p haction =>
        right
        dsimp only [reduce] at h
        split at h
        · cases h
        · next values hvalues =>
          split at h
          · cases h
          · next value anonymous happly =>
            split at h
            · cases h
            · next target htarget =>
              cases h
              exact .intro hstate haction (List.take_append_drop _ _).symm hvalues happly htarget
      · cases haccepted : accepted c with
        | error failure =>
          rw [haccepted] at h
          cases h
        | ok statements =>
          rw [haccepted] at h
          cases h
      · cases h
  · rintro (⟨hstate, haction, htoken⟩ | ⟨hstate, haction, hstack, hvalues, happly, htarget⟩)
    · exact step_shift hstate haction htoken
    · rw [step_reduce hstate haction hstack hvalues, happly]
      dsimp only
      rw [htarget]

/-- A step that ends a run has a whole diagram on the stack, in front of the end of the input. -/
theorem step_done_cases (valid : automaton.isValid = true)
    {statements : List (Source.Located Statement)}
    (h : step automaton tokens c = .ok (.done statements)) :
    c.lookahead.kind = .endOfInput ∧ symbolsOf c.stack = [.nonterminal .start] := by
  rw [step] at h
  split at h
  · cases h
  · next state hstate =>
    split at h
    · cases hshift : shift tokens c _ with
      | error failure =>
        rw [hshift] at h
        cases h
      | ok c' =>
        rw [hshift] at h
        cases h
    · cases hreduce : reduce automaton c _ with
      | error failure =>
        rw [hreduce] at h
        cases h
      | ok c' =>
        rw [hreduce] at h
        cases h
    · next haction =>
      refine ⟨Automaton.endOfInput_of_action_accept valid hstate haction, ?_⟩
      rw [accepted] at h
      split at h
      · next statements' hvalues =>
        have hsymbols := symbols_of_valuesOf? hvalues
        obtain ⟨frame, hstack, hframe⟩ := List.map_eq_singleton_iff.1 hsymbols
        rw [symbolsOf, hstack, List.reverse_singleton, List.map_singleton, hframe]
      · cases h
    · cases h

/-! ### What a run accepts -/

/-- A token that is read is behind the tokens that the stack derives. -/
theorem Shifts.derives (h : Shifts automaton tokens c c') {kinds : List Kind}
    (hstack : Derives (symbolsOf c.stack) kinds) :
    Derives (symbolsOf c'.stack) (kinds ++ [c.lookahead.kind]) := by
  cases h with
  | intro hstate haction htoken =>
    rw [symbolsOf, List.reverse_cons, List.map_append]
    exact hstack.append (.terminal .done)

/-- A part that is put in place of its symbols derives what they do. -/
theorem Reduces.derives (h : Reduces automaton c c') {kinds : List Kind}
    (hstack : Derives (symbolsOf c.stack) kinds) : Derives (symbolsOf c'.stack) kinds := by
  cases h with
  | intro hstate haction hframes hvalues happly htarget =>
    rw [hframes, symbolsOf_append] at hstack
    obtain ⟨front, back, rfl, hfront, hback⟩ := hstack.split
    rw [symbolsOf, symbols_of_valuesOf? hvalues] at hback
    rw [symbolsOf, List.reverse_cons, List.map_append]
    exact hfront.append (.of_production _ hback)

/-- The symbols on the stack derive what has been read, before and after a step. -/
theorem derives_of_step (h : step automaton tokens c = .ok (.more c')) {kinds : List Kind}
    (hstack : Derives (symbolsOf c.stack) kinds) :
    ∃ ts, Reads tokens c.lookahead c.source ts c'.lookahead c'.source ∧
      Derives (symbolsOf c'.stack) (kinds ++ ts.map Token.kind) := by
  rcases step_more_iff.1 h with hshift | hreduce
  · refine ⟨[c.lookahead], ?_, hshift.derives hstack⟩
    cases hshift with
    | intro hstate haction htoken => exact .cons htoken .nil
  · refine ⟨[], ?_, ?_⟩
    · cases hreduce with
      | intro => exact .nil
    · rw [List.map_nil, List.append_nil]
      exact hreduce.derives hstack

/-- A run that succeeds has read a diagram up to the end of the input. -/
theorem derives_of_run (valid : automaton.isValid = true)
    {statements : List (Source.Located Statement)} {fuel : Nat}
    (h : run automaton tokens fuel c = .ok statements) {kinds : List Kind}
    (hstack : Derives (symbolsOf c.stack) kinds) :
    ∃ ts next s, Reads tokens c.lookahead c.source ts next s ∧ next.kind = .endOfInput ∧
      Derives [.nonterminal .start] (kinds ++ ts.map Token.kind) := by
  induction fuel generalizing c kinds with
  | zero => cases h
  | succ fuel ih =>
    rw [run] at h
    split at h
    · cases h
    · next statements hstep =>
      obtain ⟨hkind, hsymbols⟩ := step_done_cases valid hstep
      refine ⟨[], c.lookahead, c.source, .nil, hkind, ?_⟩
      rw [hsymbols] at hstack
      rwa [List.map_nil, List.append_nil]
    · next c' hstep =>
      obtain ⟨ts, hreads, hstack'⟩ := derives_of_step hstep hstack
      obtain ⟨ts', next, s, hreads', hnext, hderives⟩ := ih h hstack'
      refine ⟨ts ++ ts', next, s, hreads.append hreads', hnext, ?_⟩
      rwa [List.map_append, ← List.append_assoc]

end BlockDiagram.Parser
