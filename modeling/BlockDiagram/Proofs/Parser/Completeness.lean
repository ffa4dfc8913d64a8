import BlockDiagram.Parser
import BlockDiagram.Proofs.Grammar.Derivation
import BlockDiagram.Proofs.Grammar.Validity

/-!
# Reading derivations

The parser reads whatever the grammar derives: a run over the tokens of a derivation takes one step
for each token and each rule (`Passes`, `passes_derivation`), and comes to the value of the
derivation or to the fault in it.
-/

namespace BlockDiagram.Parser

open Grammar
open Token (Kind)

variable {σ : Type}

/-- Reading tokens from a source: `lookahead` is the first of them, and behind them the source is
in state `s'` with `next` taken from it. -/
inductive Reads (tokens : TokenSource σ) : Token → σ → List Token → Token → σ → Prop where
  | nil {t : Token} {s : σ} : Reads tokens t s [] t s
  | cons {t t' next : Token} {s s' s'' : σ} {ts : List Token} (ht : tokens s = .ok (t', s'))
      (hts : Reads tokens t' s' ts next s'') : Reads tokens t s (t :: ts) next s''

namespace Reads

variable {tokens : TokenSource σ} {t next : Token} {s s' : σ}

private theorem headD {ts : List Token} (h : Reads tokens t s ts next s') : t = ts.headD next := by
  cases h with
  | nil => rfl
  | cons ht hts => rfl

/-- Tokens are read in two parts with a state between them. -/
theorem split {ts ts' : List Token} (h : Reads tokens t s (ts ++ ts') next s') :
    ∃ s'', Reads tokens t s ts (ts'.headD next) s'' ∧
      Reads tokens (ts'.headD next) s'' ts' next s' := by
  induction ts generalizing t s with
  | nil => exact ⟨s, h.headD ▸ .nil, h.headD ▸ h⟩
  | cons first ts ih =>
    cases h with
    | cons ht hts =>
      obtain ⟨s'', hfront, hback⟩ := ih hts
      exact ⟨s'', .cons ht hfront, hback⟩

end Reads

/-! ### Values on the stack -/

/-- The frames that values are taken from have the symbols of the values. -/
theorem symbols_of_valuesOf? {symbols : List Grammar.Symbol} {frames : List Frame}
    {values : Values symbols} (h : valuesOf? symbols frames = some values) :
    frames.map Frame.symbol = symbols := by
  induction symbols generalizing frames with
  | nil =>
    cases frames with
    | nil => rfl
    | cons frame frames => cases h
  | cons symbol symbols ih =>
    cases frames with
    | nil => cases h
    | cons frame frames =>
      rw [valuesOf?] at h
      split at h
      · next heq =>
        obtain ⟨rest, hrest, -⟩ := Option.map_eq_some_iff.1 h
        rw [List.map_cons, heq, ih hrest]
      · cases h

/-- There are as many frames as symbols. -/
theorem length_of_valuesOf? {symbols : List Grammar.Symbol} {frames : List Frame}
    {values : Values symbols} (h : valuesOf? symbols frames = some values) :
    frames.length = symbols.length := by
  rw [← symbols_of_valuesOf? h, List.length_map]

/-- The values of symbols on a stack are those of its frames. -/
theorem valuesOf?_cons {symbols : List Grammar.Symbol} {frames : List Frame}
    {values : Values symbols} (state : Nat) (symbol : Grammar.Symbol)
    (value : Source.Located symbol.Meaning) (h : valuesOf? symbols frames = some values) :
    valuesOf? (symbol :: symbols) (⟨state, symbol, value⟩ :: frames) = some (value, values) := by
  simp [valuesOf?, h]

/-! ### Single steps -/

variable {automaton : Automaton} {tokens : TokenSource σ} {c c' : Config σ}

/-- A run goes on behind its first step. -/
theorem run_succ_of_step (h : step automaton tokens c = .ok (.more c')) (fuel : Nat) :
    run automaton tokens (fuel + 1) c = run automaton tokens fuel c' := by
  rw [run, h]

/-- A run fails when its first step does. -/
theorem run_succ_of_error {failure : Failure} (h : step automaton tokens c = .error failure)
    (fuel : Nat) : run automaton tokens (fuel + 1) c = .error failure := by
  rw [run, h]
  rfl

/-- Where the automaton shifts, a token that is followed by another one is read. -/
theorem step_shift {state : AutomatonState} {target : Nat} {token : Token} {s : σ}
    (hstate : automaton[stateOf c.stack]? = some state)
    (haction : state.action c.lookahead.kind = some (.shift target))
    (ht : tokens c.source = .ok (token, s)) :
    step automaton tokens c = .ok (.more
      { c with
        stack := ⟨target, .terminal c.lookahead.kind, c.lookahead, c.lookahead.span⟩ :: c.stack
        lookahead := token
        source := s }) := by
  simp [step, hstate, haction, shift, ht, bind, Except.bind, pure, Except.pure]

/-- Where the automaton reduces and the symbols of the rule are on top of the stack, a step applies
the rule to their values. -/
theorem step_reduce {state : AutomatonState} {p : Production} {frames below : List Frame}
    {values : Values p.rhs} (hstate : automaton[stateOf c.stack]? = some state)
    (haction : state.action c.lookahead.kind = some (.reduce p))
    (hstack : c.stack = frames ++ below) (hvalues : valuesOf? p.rhs frames.reverse = some values) :
    step automaton tokens c =
      match (p.apply .backwards (cover (placesOf p.rhs values) c.lookahead) values).run
        c.anonymous with
      | .error fault => .error (.fault fault)
      | .ok (value, anonymous) =>
        match automaton[stateOf below]?.bind (·.next.lookup (.nonterminal p.lhs)) with
        | none => .error .stuck
        | some target => .ok (.more
          { c with
            stack := ⟨target, .nonterminal p.lhs, value,
              cover (placesOf p.rhs values) c.lookahead⟩ :: below
            anonymous }) := by
  have hlength : p.rhs.length = frames.length := by
    rw [← length_of_valuesOf? hvalues, List.length_reverse]
  have htake : c.stack.take p.rhs.length = frames := by
    rw [hstack, hlength, List.take_left]
  have hdrop : c.stack.drop p.rhs.length = below := by
    rw [hstack, hlength, List.drop_left]
  simp only [step, hstate, haction, reduce, htake, hdrop, hvalues]
  cases (p.apply .backwards (cover (placesOf p.rhs values) c.lookahead) values).run
      c.anonymous with
  | error fault => rfl
  | ok result =>
    obtain ⟨value, anonymous⟩ := result
    dsimp only
    cases automaton[stateOf below]?.bind (·.next.lookup (.nonterminal p.lhs)) with
    | none => rfl
    | some target => rfl

/-! ### Runs over derivations -/

/-- What a run over symbols comes to after `size` steps, when `result` is what they stand for. A
fault ends the run. Otherwise the values of the symbols are on the stack in front of `next`, and
the item that waited for the symbols is behind them. -/
def Passes (automaton : Automaton) (tokens : TokenSource σ) (item : Item)
    {symbols : List Grammar.Symbol} (size : Nat) (c : Config σ) (next : Token) (s : σ) :
    Except Fault (Values symbols × Nat) → Prop
  | .error fault => ∀ fuel, run automaton tokens (size + fuel) c = .error (.fault fault)
  | .ok (values, anonymous) =>
    ∃ frames, valuesOf? symbols frames.reverse = some values ∧
      automaton.Awaits (stateOf (frames ++ c.stack)) ⟨item.production, item.dot + symbols.length⟩
        next.kind ∧
      ∀ fuel, run automaton tokens (size + fuel) c =
        run automaton tokens fuel
          { stack := frames ++ c.stack, lookahead := next, source := s, anonymous }

/-- A run over one more symbol in front of others, which leaves the value of that symbol on the
stack. -/
theorem Passes.cons {item : Item} {symbol : Grammar.Symbol}
    {symbols : List Grammar.Symbol} {target size size' : Nat} {value : Source.Located symbol.Meaning}
    {next : Token} {s : σ} {result : Except Fault (Values symbols × Nat)}
    (hrun : ∀ fuel, run automaton tokens (size + fuel) c = run automaton tokens fuel c')
    (hstack : c'.stack = ⟨target, symbol, value⟩ :: c.stack)
    (hrest : Passes automaton tokens item.advance size' c' next s result) :
    @Passes σ automaton tokens item (symbol :: symbols) (size + size') c next s
      (result.map fun (values, anonymous) ↦ ((value, values), anonymous)) := by
  cases result with
  | error fault =>
    intro fuel
    rw [Nat.add_assoc, hrun, hrest]
  | ok result =>
    obtain ⟨values, anonymous⟩ := result
    obtain ⟨frames, hvalues, hitem, hrest⟩ := hrest
    have happend : frames ++ c'.stack = (frames ++ [⟨target, symbol, value⟩]) ++ c.stack := by
      rw [hstack, List.append_assoc, List.singleton_append]
    refine ⟨frames ++ [⟨target, symbol, value⟩], ?_, ?_, fun fuel ↦ ?_⟩
    · rw [List.reverse_append, List.reverse_singleton, List.singleton_append]
      exact valuesOf?_cons target symbol value hvalues
    · rw [happend] at hitem
      have hdot : item.advance.dot + symbols.length = item.dot + (symbol :: symbols).length := by
        simp only [Item.advance, List.length_cons]
        omega
      rwa [hdot] at hitem
    · rw [Nat.add_assoc, hrun, hrest, happend]

private theorem next?_of_drop {item : Item} {symbol : Grammar.Symbol}
    {symbols : List Grammar.Symbol}
    (h : item.production.rhs.drop item.dot = symbol :: symbols) :
    item.next? = some symbol ∧ item.rest = symbols := by
  constructor
  · rw [Item.next?, ← List.head?_drop, h]
    rfl
  · rw [Item.rest, ← List.drop_drop, h]
    rfl

private theorem action_of_lookup_terminal {state : AutomatonState} {kind : Kind} {target : Nat}
    (h : state.next.lookup (.terminal kind) = some target) :
    state.action kind = some (.shift target) := by
  rw [AutomatonState.action, h]

/-- Only the rule for whole sources, which is part of no other, completes a parse. -/
theorem completion_of_mem {p q : Production}
    (h : Grammar.Symbol.nonterminal p.lhs ∈ q.rhs) :
    AutomatonState.completion p = .reduce p := by
  have hp : p ≠ .accept := by
    rintro rfl
    exact accept_not_mem_rhs q h
  rw [AutomatonState.completion, if_neg hp]

/-- A run over the symbols of a rule, which is then applied to their values, and over more symbols
behind the part that it makes. -/
theorem Passes.rule (valid : automaton.isValid = true) {item : Item} {p : Production}
    {symbols : List Grammar.Symbol} {inner : Derivation p.rhs} {rest : Derivation symbols}
    {next : Token} {s s' : σ}
    (hitem : automaton.Awaits (stateOf c.stack) item next.kind)
    (hnext : item.next? = some (.nonterminal p.lhs))
    (hinner : Passes automaton tokens ⟨p, 0⟩ inner.size c (rest.first next) s'
      ((inner.evaluate .backwards (rest.first next)).run c.anonymous))
    (hrest : ∀ target value anonymous, automaton.Awaits target item.advance next.kind →
      Passes automaton tokens item.advance rest.size
        { stack := ⟨target, .nonterminal p.lhs, value⟩ :: c.stack
          lookahead := rest.first next
          source := s'
          anonymous } next s ((rest.evaluate .backwards next).run anonymous)) :
    Passes automaton tokens item (Derivation.rule p inner rest).size c next s
      (((Derivation.rule p inner rest).evaluate .backwards next).run c.anonymous) := by
  have hsize : (Derivation.rule p inner rest).size = inner.size + 1 + rest.size := by
    rw [Derivation.size]
    omega
  rw [Derivation.run_evaluate_rule, hsize]
  cases hparts : (inner.evaluate .backwards (rest.first next)).run c.anonymous with
  | error fault =>
    rw [hparts] at hinner
    intro fuel
    rw [Nat.add_assoc, Nat.add_assoc]
    exact hinner _
  | ok result =>
    obtain ⟨values, anonymous⟩ := result
    rw [hparts] at hinner
    obtain ⟨frames, hvalues, hcomplete, hrun⟩ := hinner
    obtain ⟨state, hstate, haction⟩ := hcomplete.complete valid (by simp [Item.next?])
    rw [completion_of_mem (List.mem_of_getElem? hnext)] at haction
    have hstep := @step_reduce σ automaton tokens
      { stack := frames ++ c.stack, lookahead := rest.first next, source := s', anonymous }
      state p frames c.stack values hstate haction rfl hvalues
    dsimp only at hstep ⊢
    cases happly : (p.apply .backwards (cover (placesOf p.rhs values) (rest.first next))
        values).run anonymous with
    | error fault =>
      rw [happly] at hstep
      intro fuel
      rw [Nat.add_assoc, Nat.add_assoc, hrun, Nat.add_comm]
      exact run_succ_of_error hstep _
    | ok result =>
      obtain ⟨value, anonymous⟩ := result
      obtain ⟨state, target, hstate, htarget, hadvance⟩ := hitem.advance valid hnext
      have hgoto : automaton[stateOf c.stack]?.bind (·.next.lookup (.nonterminal p.lhs)) =
          some target := by
        rw [hstate]
        exact htarget
      rw [happly] at hstep
      simp only [hgoto] at hstep
      refine (hrest target _ anonymous hadvance).cons (fun fuel ↦ ?_) rfl
      rw [Nat.add_assoc, hrun, Nat.add_comm]
      exact run_succ_of_step hstep fuel

/-- The parser reads the tokens of a derivation wherever an item waits for its symbols. -/
theorem passes_derivation (valid : automaton.isValid = true) {symbols : List Grammar.Symbol}
    (d : Derivation symbols) {c : Config σ} {item : Item} {next : Token} {s : σ}
    (hitem : automaton.Awaits (stateOf c.stack) item next.kind)
    (hsymbols : item.production.rhs.drop item.dot = symbols)
    (hreads : Reads tokens c.lookahead c.source d.tokens next s) :
    Passes automaton tokens item d.size c next s ((d.evaluate .backwards next).run c.anonymous) := by
  induction d generalizing c item next s with
  | nil =>
    obtain ⟨stack, lookahead, source, anonymous⟩ := c
    cases hreads with
    | nil => exact ⟨[], rfl, hitem, fun fuel ↦ by rw [Derivation.size, Nat.zero_add]; rfl⟩
  | @token symbols t rest ih =>
    obtain ⟨hnext, hrest⟩ := next?_of_drop hsymbols
    obtain ⟨state, target, hstate, htarget, hadvance⟩ := hitem.advance valid hnext
    obtain ⟨stack, lookahead, source, anonymous⟩ := c
    obtain rfl : lookahead = t := hreads.headD
    cases hreads with
    | cons ht hts =>
      have hstep := step_shift (c := ⟨stack, lookahead, source, anonymous⟩) hstate
        (action_of_lookup_terminal htarget) ht
      have hpass := @ih
        { stack := ⟨target, .terminal lookahead.kind, lookahead, lookahead.span⟩ :: stack
          lookahead := _
          source := _
          anonymous } _ _ _ hadvance hrest hts
      rw [Derivation.run_evaluate_token, Derivation.size, Nat.add_comm]
      exact hpass.cons (fun fuel ↦ by rw [Nat.add_comm]; exact run_succ_of_step hstep fuel) rfl
  | @rule symbols p inner rest hinner hrest =>
    obtain ⟨hnext, rfl⟩ := next?_of_drop hsymbols
    obtain ⟨s', hfront, hback⟩ := hreads.split
    have hfollow : (rest.first next).kind = (rest.tokens.map Token.kind).headD next.kind := by
      rw [Derivation.first]
      cases rest.tokens with
      | nil => rfl
      | cons t ts => rfl
    have hstart := hitem.start valid hnext rest.derives
    rw [← hfollow] at hstart
    refine Passes.rule valid hitem hnext (hinner hstart rfl hfront)
      fun target value anonymous hadvance ↦ ?_
    exact @hrest
      { stack := ⟨target, .nonterminal p.lhs, value⟩ :: c.stack
        lookahead := rest.first next
        source := s'
        anonymous } _ _ _ hadvance rfl hback

end BlockDiagram.Parser
