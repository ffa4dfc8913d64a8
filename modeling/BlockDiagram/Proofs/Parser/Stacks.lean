import BlockDiagram.Proofs.Grammar.Beginnings
import BlockDiagram.Proofs.Grammar.Grounding
import BlockDiagram.Proofs.Parser.Soundness

/-!
# The stack of the parser

What is on the stack while a source is read. Its frames pair each value with the state behind it, so
there is always one state more than values; they lead from state to state (`Linked`), and every item
of the topmost state has its symbols on top of them (`Linked.supports`). Main statement:
`isSafe_of_reaches`, by which the parser never gets stuck (`statements_isSafe`).
-/

namespace BlockDiagram.Parser

open Grammar
open Token (Kind)

variable {σ : Type} {automaton : Automaton} {tokens : TokenSource σ} {c c' : Config σ}

/-! ### Where a run may stand -/

/-- Where a run over a source of tokens may stand: what it has read, and the configuration behind
it. -/
inductive Reaches (automaton : Automaton) (tokens : TokenSource σ) (s : σ) :
    List Token → Config σ → Prop where
  | start {t : Token} {s' : σ} (h : tokens s = .ok (t, s')) :
      Reaches automaton tokens s [] ⟨[], t, s', 0⟩
  | shift {before : List Token} {c c' : Config σ} (h : Reaches automaton tokens s before c)
      (hstep : Shifts automaton tokens c c') :
      Reaches automaton tokens s (before ++ [c.lookahead]) c'
  | reduce {before : List Token} {c c' : Config σ} (h : Reaches automaton tokens s before c)
      (hstep : Reduces automaton c c') : Reaches automaton tokens s before c'

/-! ### Linked stacks -/

/-- Holds for stacks that lead from state to state, each symbol to the state behind it. -/
inductive Linked (automaton : Automaton) : List Frame → Prop where
  | nil : Linked automaton []
  | cons {frame : Frame} {below : List Frame} {state : AutomatonState}
      (h : Linked automaton below) (hstate : automaton[stateOf below]? = some state)
      (hnext : state.next.lookup frame.symbol = some frame.state) :
      Linked automaton (frame :: below)

namespace Linked

variable {stack frames below : List Frame}

/-- What is below in a linked stack is linked. -/
theorem of_append (h : Linked automaton (frames ++ below)) : Linked automaton below := by
  induction frames with
  | nil => exact h
  | cons frame frames ih =>
    cases h with
    | cons h => exact ih h

/-- Nothing leads to the initial state. -/
theorem eq_nil (grounded : automaton.isGrounded = true) (h : Linked automaton stack)
    (hstate : stateOf stack = 0) : stack = [] := by
  cases h with
  | nil => rfl
  | cons h hbelow hnext => exact absurd hstate (Automaton.before_of_lookup grounded hbelow hnext).1

/-- Every symbol is the one that its state is entered by. -/
theorem entry?_eq (grounded : automaton.isGrounded = true) (h : Linked automaton stack) :
    ∀ frame ∈ stack, (automaton[frame.state]?).bind AutomatonState.entry? = some frame.symbol := by
  induction h with
  | nil => exact List.forall_mem_nil _
  | cons h hbelow hnext ih =>
    obtain ⟨entered, hentered, hentry⟩ := Automaton.entry?_of_lookup grounded hbelow hnext
    refine List.forall_mem_cons.2 ⟨?_, ih⟩
    rw [hentered, Option.bind_some, hentry]

/-- A linked stack ends in a state of the automaton. -/
theorem exists_state (grounded : automaton.isGrounded = true) (h : Linked automaton stack) :
    ∃ state, automaton[stateOf stack]? = some state := by
  cases h with
  | nil => exact Automaton.exists_initial grounded
  | cons h hbelow hnext =>
    obtain ⟨-, entered, hentered, -⟩ := Automaton.before_of_lookup grounded hbelow hnext
    exact ⟨entered, hentered⟩

end Linked

/-- A step leaves the stack linked. -/
theorem linked_of_reaches {s : σ} {before : List Token}
    (h : Reaches automaton tokens s before c) : Linked automaton c.stack := by
  induction h with
  | start => exact .nil
  | shift h hstep ih =>
    cases hstep with
    | intro hstate haction htoken =>
      exact .cons ih hstate (AutomatonState.lookup_of_action_shift haction)
  | reduce h hstep ih =>
    cases hstep with
    | intro hstate haction hstack hvalues happly htarget =>
      rw [hstack] at ih
      obtain ⟨state, hbelow, hnext⟩ := Option.bind_eq_some_iff.1 htarget
      exact .cons ih.of_append hbelow hnext

/-! ### What stands behind an item -/

/-- What the item of a topmost state says of a stack: its symbols up to the dot are on top, the rule
was started in the state below them, and wherever its part stands in a diagram behind what is below,
`rest` behind the part makes the diagram complete. -/
structure SupportedBy (automaton : Automaton) (stack : List Frame) (item : Item)
    (frames below : List Frame) (rest : List Grammar.Symbol) : Prop where
  stack : stack = frames ++ below
  symbols : symbolsOf frames = item.production.rhs.take item.dot
  length : frames.length = item.dot
  started : ∃ state lookahead, automaton[stateOf below]? = some state ∧
    (⟨item.production, 0⟩, lookahead) ∈ state.items
  completes : ∀ kinds, Derives (symbolsOf below ++ .nonterminal item.production.lhs :: rest) kinds →
    Derives [.nonterminal .accept] kinds

/-- Holds when a stack has on top what the item of a topmost state says. -/
def Supports (automaton : Automaton) (stack : List Frame) (item : Item) : Prop :=
  ∃ frames below rest, SupportedBy automaton stack item frames below rest

private theorem drop_eq_cons {item : Item} {symbol : Grammar.Symbol}
    (h : item.next? = some symbol) : item.production.rhs.drop item.dot = symbol :: item.rest := by
  have hsymbol : item.production.rhs[item.dot]? = some symbol := h
  rw [List.drop_eq_getElem?_toList_append, hsymbol]
  rfl

namespace SupportedBy

variable {stack frames below : List Frame} {item : Item} {rest : List Grammar.Symbol}

/-- What is left of an item completes the diagram that is on the stack. -/
theorem completes_drop (h : SupportedBy automaton stack item frames below rest)
    {kinds : List Kind} (hkinds : Derives
      (symbolsOf stack ++ (item.production.rhs.drop item.dot ++ rest)) kinds) :
    Derives [.nonterminal .accept] kinds := by
  have hrhs : symbolsOf stack ++ (item.production.rhs.drop item.dot ++ rest) =
      symbolsOf below ++ (item.production.rhs ++ rest) := by
    rw [h.stack, symbolsOf_append, h.symbols, List.append_assoc,
      ← List.append_assoc (item.production.rhs.take item.dot), List.take_append_drop]
  rw [hrhs] at hkinds
  obtain ⟨front, back, rfl, hfront, hback⟩ := hkinds.split
  obtain ⟨inner, behind, rfl, hinner, hbehind⟩ := hback.split
  exact h.completes _ (hfront.append (.nonterminal item.production hinner hbehind))

/-- The symbols of a complete rule are on top of the stack. -/
theorem eq_rhs (h : SupportedBy automaton stack item frames below rest)
    (hnext : item.next? = none) :
    symbolsOf frames = item.production.rhs ∧ frames.length = item.production.rhs.length := by
  have hle : item.production.rhs.length ≤ item.dot := List.getElem?_eq_none_iff.1 hnext
  have hsymbols := h.symbols
  rw [List.take_of_length_le hle] at hsymbols
  refine ⟨hsymbols, ?_⟩
  rw [← hsymbols, symbolsOf, List.length_map, List.length_reverse]

/-- Reading the symbol that an item waits for moves it on. -/
theorem advance (h : SupportedBy automaton stack item frames below rest) {frame : Frame}
    (hnext : item.next? = some frame.symbol) :
    SupportedBy automaton (frame :: stack) item.advance (frame :: frames) below rest where
  stack := by rw [h.stack, List.cons_append]
  symbols := by
    rw [symbolsOf, List.reverse_cons, List.map_append, ← symbolsOf, h.symbols]
    have hnext' : item.production.rhs[item.dot]? = some frame.symbol := hnext
    change _ = item.production.rhs.take (item.dot + 1)
    rw [List.take_add_one, hnext']
    rfl
  length := by rw [List.length_cons, h.length]; rfl
  started := h.started
  completes := h.completes

/-- A rule for the part that an item waits for starts behind the stack. -/
theorem start (h : SupportedBy automaton stack item frames below rest) {p : Production}
    (hnext : item.next? = some (.nonterminal p.lhs))
    (hstarted : ∃ state lookahead, automaton[stateOf stack]? = some state ∧
      ((⟨p, 0⟩ : Item), lookahead) ∈ state.items) :
    SupportedBy automaton stack ⟨p, 0⟩ [] stack (item.rest ++ rest) where
  stack := rfl
  symbols := rfl
  length := rfl
  started := hstarted
  completes kinds hkinds := by
    refine h.completes_drop ?_
    rw [drop_eq_cons hnext]
    exact hkinds

end SupportedBy

/-- Every item of the topmost state has its symbols on top of the stack. -/
theorem Linked.supports (grounded : automaton.isGrounded = true) {stack : List Frame}
    (h : Linked automaton stack) {state : AutomatonState}
    (hstate : automaton[stateOf stack]? = some state) {item : Item} {lookahead : KindSet}
    (hitem : (item, lookahead) ∈ state.items) : Supports automaton stack item := by
  -- An item in front of its first symbol is there for one before it in the list.
  have hlist : ∀ {stack : List Frame} {state : AutomatonState}, Linked automaton stack →
      automaton[stateOf stack]? = some state →
      (∀ item lookahead, (item, lookahead) ∈ state.items → item.dot ≠ 0 →
        Supports automaton stack item) →
      ∀ (i : Nat) (item : Item) (lookahead : KindSet),
        state.items[i]? = some (item, lookahead) → Supports automaton stack item := by
    intro stack state hlinked hstate hbehind i
    induction i using Nat.strongRecOn with
    | ind i ih =>
      intro item lookahead hitem
      by_cases hdot : item.dot = 0
      · obtain ⟨p, dot⟩ := item
        obtain rfl : dot = 0 := hdot
        have hstarted : ∃ state lookahead, automaton[stateOf stack]? = some state ∧
            ((⟨p, 0⟩ : Item), lookahead) ∈ state.items :=
          ⟨state, lookahead, hstate, List.mem_of_getElem? hitem⟩
        rcases Automaton.exists_waiting grounded hstate hitem rfl with
          ⟨haccept, hzero⟩ | ⟨-, j, hj, other, kinds, hother, hnext⟩
        · obtain rfl : p = .accept := haccept
          obtain rfl := hlinked.eq_nil grounded hzero
          exact ⟨[], [], [], rfl, rfl, rfl, hstarted, fun kinds hkinds ↦ hkinds⟩
        · obtain ⟨frames, below, rest, hsupported⟩ := ih j hj other kinds hother
          exact ⟨[], stack, _, hsupported.start hnext hstarted⟩
      · exact hbehind item lookahead (List.mem_of_getElem? hitem) hdot
  obtain ⟨i, hi⟩ := List.mem_iff_getElem?.1 hitem
  induction h generalizing state item lookahead i with
  | nil =>
    refine hlist .nil hstate (fun item lookahead hitem hdot ↦ ?_) i item lookahead hi
    exact absurd (Automaton.dot_of_initial grounded hstate hitem) hdot
  | cons hlinked hbelow hnext ih =>
    refine hlist (.cons hlinked hbelow hnext) hstate (fun item lookahead hitem hdot ↦ ?_) i item
      lookahead hi
    obtain ⟨-, entered, hentered, hitems⟩ := Automaton.before_of_lookup grounded hbelow hnext
    obtain rfl := Option.some.inj (hentered.symm.trans hstate)
    rcases hitems item lookahead hitem with hzero | ⟨before, kinds, hbefore, hmem⟩
    · exact absurd hzero hdot
    · obtain ⟨hwaits, rfl⟩ := Item.before?_eq_some_iff.1 hbefore
      obtain ⟨j, hj⟩ := List.mem_iff_getElem?.1 hmem
      obtain ⟨frames, below, rest, hsupported⟩ := ih hbelow hmem j hj
      exact ⟨_, below, rest, hsupported.advance hwaits⟩

/-! ### Safety -/

/-- Frames with the right symbols have values of the right kinds. -/
theorem exists_valuesOf? {symbols : List Grammar.Symbol} {frames : List Frame}
    (h : frames.map Frame.symbol = symbols) : ∃ values, valuesOf? symbols frames = some values := by
  subst h
  induction frames with
  | nil => exact ⟨(), rfl⟩
  | cons frame frames ih =>
    obtain ⟨values, hvalues⟩ := ih
    exact ⟨_, valuesOf?_cons frame.state frame.symbol frame.value hvalues⟩

/-- Wherever a rule is applied its symbols are on top of the stack, and the state below them leads
on with the part that the rule makes. -/
theorem exists_reduction (valid : automaton.isValid = true)
    (grounded : automaton.isGrounded = true) {stack : List Frame} (h : Linked automaton stack)
    {state : AutomatonState} (hstate : automaton[stateOf stack]? = some state) {kind : Kind}
    {p : Production} (haction : state.action kind = some (.reduce p)) :
    ∃ frames below, ∃ values : Values p.rhs, ∃ target,
      stack = frames ++ below ∧ frames.length = p.rhs.length ∧
      valuesOf? p.rhs frames.reverse = some values ∧
      automaton[stateOf below]?.bind (·.next.lookup (.nonterminal p.lhs)) = some target := by
  obtain ⟨haccept, item, lookahead, hitem, hnext, -, rfl⟩ :=
    AutomatonState.item_of_action_reduce haction
  obtain ⟨frames, below, rest, hsupported⟩ := h.supports grounded hstate hitem
  obtain ⟨hsymbols, hlength⟩ := hsupported.eq_rhs hnext
  have hframes : frames.reverse.map Frame.symbol = item.production.rhs := hsymbols
  obtain ⟨values, hvalues⟩ := exists_valuesOf? hframes
  obtain ⟨lower, kinds, hlower, hstarted⟩ := hsupported.started
  obtain ⟨i, hi⟩ := List.mem_iff_getElem?.1 hstarted
  rcases Automaton.exists_waiting grounded hlower hi rfl with
    ⟨haccept', -⟩ | ⟨-, j, -, other, kinds', hother, hwaits⟩
  · exact absurd haccept' haccept
  · obtain ⟨target, htarget⟩ := Automaton.exists_lookup_of_next? valid hlower
      (List.mem_of_getElem? hother) hwaits
    refine ⟨frames, below, values, target, hsupported.stack, hlength, hvalues, ?_⟩
    rw [hlower, Option.bind_some, htarget]

/-- Where a parse ends, a whole diagram is on the stack and nothing else. -/
theorem symbols_of_action_accept (grounded : automaton.isGrounded = true) {stack : List Frame}
    (h : Linked automaton stack) {state : AutomatonState}
    (hstate : automaton[stateOf stack]? = some state) {kind : Kind}
    (haction : state.action kind = some .accept) :
    stack.map Frame.symbol = [.nonterminal .start] := by
  obtain ⟨item, lookahead, hitem, hnext, haccept⟩ := AutomatonState.item_of_action_accept haction
  obtain ⟨frames, below, rest, hsupported⟩ := h.supports grounded hstate hitem
  obtain ⟨hsymbols, -⟩ := hsupported.eq_rhs hnext
  obtain ⟨lower, kinds, hlower, hstarted⟩ := hsupported.started
  obtain ⟨i, hi⟩ := List.mem_iff_getElem?.1 hstarted
  rcases Automaton.exists_waiting grounded hlower hi rfl with ⟨-, hzero⟩ | ⟨haccept', -⟩
  · have hbelow : Linked automaton below := by
      have := hsupported.stack ▸ h
      exact this.of_append
    rw [hsupported.stack, hbelow.eq_nil grounded hzero, List.append_nil]
    rw [haccept] at hsymbols
    obtain ⟨frame, hframes, hframe⟩ := List.map_eq_singleton_iff.1 hsymbols
    rw [← List.reverse_reverse frames, hframes, List.reverse_singleton, List.map_singleton, hframe]
  · exact absurd haccept haccept'

/-- What holds of a configuration from which a run can go on, or end with a result or a fault. -/
structure IsSafe (automaton : Automaton) (tokens : TokenSource σ) (c : Config σ) : Prop where
  /-- The frames lead from state to state. -/
  linked : Linked automaton c.stack
  /-- A value is of the kind that its state is entered by. -/
  entered : ∀ frame ∈ c.stack,
    (automaton[frame.state]?).bind AutomatonState.entry? = some frame.symbol
  /-- No rule takes more than there is, nor values of other kinds than its own, nor makes a part
  that leads nowhere. The rule for whole sources is not applied. -/
  reduces : ∀ state p, automaton[stateOf c.stack]? = some state →
    state.action c.lookahead.kind = some (.reduce p) →
    p ≠ .accept ∧ p.rhs.length ≤ c.stack.length ∧
    (∃ values, valuesOf? p.rhs (c.stack.take p.rhs.length).reverse = some values) ∧
    ∃ target, automaton[stateOf (c.stack.drop p.rhs.length)]?.bind
      (·.next.lookup (.nonterminal p.lhs)) = some target
  /-- A run ends with one value on the stack, which is that of a diagram. -/
  accepts : ∀ state, automaton[stateOf c.stack]? = some state →
    state.action c.lookahead.kind = some .accept →
    c.stack.map Frame.symbol = [.nonterminal .start] ∧ ∃ statements, accepted c = .ok statements
  ne_stuck : step automaton tokens c ≠ .error .stuck

private theorem step_ne_stuck (valid : automaton.isValid = true)
    (grounded : automaton.isGrounded = true) (h : Linked automaton c.stack)
    (haccepts : ∀ state, automaton[stateOf c.stack]? = some state →
      state.action c.lookahead.kind = some .accept → ∃ statements, accepted c = .ok statements) :
    step automaton tokens c ≠ .error .stuck := by
  obtain ⟨state, hstate⟩ := h.exists_state grounded
  cases haction : state.action c.lookahead.kind with
  | none =>
    simp only [step, hstate, haction]
    rintro ⟨⟩
  | some action =>
    cases action with
    | shift target =>
      cases htoken : tokens c.source with
      | error fault =>
        simp only [step, hstate, haction, shift, htoken]
        rintro ⟨⟩
      | ok result =>
        rw [step_shift hstate haction htoken]
        rintro ⟨⟩
    | reduce p =>
      obtain ⟨frames, below, values, target, hstack, -, hvalues, htarget⟩ :=
        exists_reduction valid grounded h hstate haction
      rw [step_reduce hstate haction hstack hvalues]
      split
      · rintro ⟨⟩
      · rw [htarget]
        rintro ⟨⟩
    | accept =>
      obtain ⟨statements, hstatements⟩ := haccepts state hstate haction
      simp only [step, hstate, haction, hstatements]
      rintro ⟨⟩

/-- Every configuration that a run reaches is safe. -/
theorem isSafe_of_reaches (valid : automaton.isValid = true)
    (grounded : automaton.isGrounded = true) {s : σ} {before : List Token}
    (h : Reaches automaton tokens s before c) : IsSafe automaton tokens c := by
  have hlinked := linked_of_reaches h
  have haccepts : ∀ state, automaton[stateOf c.stack]? = some state →
      state.action c.lookahead.kind = some .accept →
      c.stack.map Frame.symbol = [.nonterminal .start] ∧
        ∃ statements, accepted c = .ok statements := by
    intro state hstate haction
    have hsymbols := symbols_of_action_accept grounded hlinked hstate haction
    obtain ⟨values, hvalues⟩ := exists_valuesOf? hsymbols
    refine ⟨hsymbols, values.1.value, ?_⟩
    rw [accepted, hvalues]
    rfl
  exact {
    linked := hlinked
    entered := hlinked.entry?_eq grounded
    reduces := by
      intro state p hstate haction
      obtain ⟨frames, below, values, target, hstack, hlength, hvalues, htarget⟩ :=
        exists_reduction valid grounded hlinked hstate haction
      refine ⟨(AutomatonState.item_of_action_reduce haction).1, ?_, ⟨values, ?_⟩, target, ?_⟩
      · rw [hstack, List.length_append, hlength]
        exact Nat.le_add_right _ _
      · rw [hstack, ← hlength, List.take_left, hvalues]
      · rw [hstack, ← hlength, List.drop_left, htarget]
    accepts := haccepts
    ne_stuck := step_ne_stuck valid grounded hlinked fun state hstate haction ↦
      (haccepts state hstate haction).2 }

/-! ### Runs -/

/-- A run that fails has come to a step that fails, unless it is cut off. -/
theorem exists_reaches_of_run_error {s : σ} {before : List Token} {fuel : Nat} {failure : Failure}
    (h : Reaches automaton tokens s before c)
    (hrun : run automaton tokens fuel c = .error failure) :
    failure = .unfinished ∨ ∃ before' c', Reaches automaton tokens s before' c' ∧
      step automaton tokens c' = .error failure := by
  induction fuel generalizing c before with
  | zero =>
    cases hrun
    exact .inl rfl
  | succ fuel ih =>
    rw [run] at hrun
    split at hrun
    · next failure' hstep =>
      cases hrun
      exact .inr ⟨before, c, h, hstep⟩
    · cases hrun
    · next c' hstep =>
      rcases step_more_iff.1 hstep with hshift | hreduce
      · exact ih (h.shift hshift) hrun
      · exact ih (h.reduce hreduce) hrun

/-- Where a run fails that starts with a source of tokens. -/
theorem runFrom_error_cases {s : σ} {fuel : Nat} {failure : Failure}
    (h : runFrom automaton tokens fuel s = .error failure) :
    failure = .unfinished ∨ (∃ fault, tokens s = .error fault ∧ failure = .fault fault) ∨
      ∃ before c, Reaches automaton tokens s before c ∧
        step automaton tokens c = .error failure := by
  rw [runFrom] at h
  split at h
  · next fault hfault =>
    cases h
    exact .inr (.inl ⟨fault, hfault, rfl⟩)
  · next t s' hfirst =>
    exact (exists_reaches_of_run_error (.start hfirst) h).imp_right .inr

/-- The lexer fails only where it matches nothing. -/
theorem lexed_eq_unmatched {s : Lexer.State} {fault : Fault} (h : lexed s = .error fault) :
    ∃ input, fault = .unmatched input := by
  rw [lexed] at h
  split at h
  · cases h
  · cases h
    exact ⟨_, rfl⟩

end BlockDiagram.Parser

namespace BlockDiagram

open BlockDiagram.Parser

/-- Whatever the source is, every configuration that the parser comes to is safe, so the parser
never asks for anything that is not there, however many steps it may take. -/
theorem statements_isSafe (source : String) :
    (∀ before c, Reaches automaton lexed (Lexer.State.start source) before c →
      IsSafe automaton lexed c) ∧
    (∀ fuel, runFrom automaton lexed fuel (Lexer.State.start source) ≠ .error .stuck) ∧
    statements source ≠ .error .stuck := by
  have hsafe : ∀ before c, Reaches automaton lexed (Lexer.State.start source) before c →
      IsSafe automaton lexed c := fun before c ↦
    isSafe_of_reaches Grammar.Automaton.ofGrammar_isValid Grammar.Automaton.ofGrammar_isGrounded
  have hrun : ∀ fuel, runFrom automaton lexed fuel (Lexer.State.start source) ≠
      .error .stuck := by
    intro fuel h
    rcases runFrom_error_cases h with hstuck | ⟨fault, -, hstuck⟩ | ⟨before, c, hreaches, hstep⟩
    · cases hstuck
    · cases hstuck
    · exact (hsafe before c hreaches).ne_stuck hstep
  exact ⟨hsafe, hrun, hrun _⟩

end BlockDiagram
