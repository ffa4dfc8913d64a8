import BlockDiagram.Proofs.Parser.Prefixes

/-!
# The length of runs

A run ends on every list of tokens, whether it is a diagram or not. Every symbol has a weight, which
is negative for tokens; a rule makes a part that weighs more than its symbols do, and no stack weighs
more than one. So each stack bounds the rules that can be applied before the next token is read
(`length_le_of_reduces`), and the tokens bound the whole run (`runFrom_ne_unfinished`).
-/

namespace BlockDiagram

open Token (Kind)

namespace Grammar.Automaton

/-- A symbol that leads on is one that some item of the state waits for. -/
theorem exists_next_of_lookup {a : Automaton} (grounded : a.isGrounded = true) {q : Nat}
    {state : AutomatonState} (hq : a[q]? = some state) {symbol : Symbol} {target : Nat}
    (hnext : state.next.lookup symbol = some target) :
    ∃ item lookahead, (item, lookahead) ∈ state.items ∧ item.next? = some symbol := by
  obtain ⟨-, entered, hentered, hitems⟩ := before_of_lookup grounded hq hnext
  obtain ⟨entered', hentered', hentry⟩ := entry?_of_lookup grounded hq hnext
  rw [hentered] at hentered'
  obtain rfl := Option.some.inj hentered'
  cases hlist : entered.items with
  | nil => simp [AutomatonState.entry?, hlist] at hentry
  | cons first rest =>
    have hmem : first ∈ entered.items := by simp [hlist]
    rcases hitems first.1 first.2 hmem with hdot | ⟨before, kinds, hbefore, hmem⟩
    · simp [AutomatonState.entry?, hlist, Item.before?, hdot] at hentry
    · exact ⟨before, kinds, hmem, (Item.before?_eq_some_iff.1 hbefore).1⟩

end Grammar.Automaton

namespace Parser

open Grammar

variable {σ : Type} {automaton : Automaton} {tokens : TokenSource σ} {c c' : Config σ} {s : σ}
  {before : List Token} {stack : List Frame}

/-! ### The weight of a stack -/

/-- How much the number of steps that have led to a stack can be above six times the number of
tokens that were read. -/
def excessOf (stack : List Frame) : Int :=
  (stack.map fun frame ↦ Derivation.excess frame.symbol).sum

@[simp] private theorem excessOf_nil : excessOf [] = 0 := rfl

@[simp] private theorem excessOf_cons (frame : Frame) (stack : List Frame) :
    excessOf (frame :: stack) = Derivation.excess frame.symbol + excessOf stack := by
  simp [excessOf]

@[simp] private theorem excessOf_append (frames below : List Frame) :
    excessOf (frames ++ below) = excessOf frames + excessOf below := by
  simp [excessOf]

/-- Frames weigh as much as the symbols they stand for. -/
theorem excessOf_of_valuesOf? {symbols : List Grammar.Symbol} {frames : List Frame}
    {values : Values symbols} (h : valuesOf? symbols frames.reverse = some values) :
    excessOf frames = (symbols.map Derivation.excess).sum := by
  rw [← symbols_of_valuesOf? h, List.map_reverse, List.map_reverse, List.sum_reverse, List.map_map]
  rfl

/-- A token that is read makes a stack lighter. -/
theorem Shifts.excessOf_eq (h : Shifts automaton tokens c c') :
    excessOf c'.stack = excessOf c.stack - 5 := by
  cases h
  simp only [excessOf_cons, Derivation.excess]
  omega

/-- A rule that is applied makes a stack heavier. -/
theorem Reduces.lt_excessOf (h : Reduces automaton c c') :
    excessOf c.stack < excessOf c'.stack := by
  cases h with
  | @intro _ p frames below values value anonymous target hstate haction hstack hvalues =>
    have hrule := Derivation.excess_rhs p
    rw [hstack, excessOf_append, excessOf_of_valuesOf? hvalues, excessOf_cons]
    dsimp only
    omega

private theorem neg_le_excess (symbol : Grammar.Symbol) : -5 ≤ Derivation.excess symbol := by
  cases symbol with
  | terminal kind => exact Int.le_refl _
  | nonterminal part => cases part <;> decide

/-- A stack is not lighter than its height allows. -/
theorem neg_le_excessOf (stack : List Frame) : -5 * (stack.length : Int) ≤ excessOf stack := by
  induction stack with
  | nil => simp
  | cons frame stack ih =>
    have := neg_le_excess frame.symbol
    simp only [excessOf_cons, List.length_cons]
    omega

/-! ### What a stack may weigh -/

/-- The only symbol behind a document in a rule is the end of a composite. -/
theorem eq_blockEnd_of_rhs (p : Production) (dot : Nat) {symbol : Grammar.Symbol}
    (hdocument : p.rhs[dot]? = some (.nonterminal .document))
    (hsymbol : p.rhs[dot + 1]? = some symbol) : symbol = .terminal .blockEnd := by
  have hchain : p.rhs.IsChain fun a b ↦ a = .nonterminal .document → b = .terminal .blockEnd := by
    cases p <;> decide
  obtain ⟨_, hget⟩ := List.getElem?_eq_some_iff.1 hdocument
  obtain ⟨hlt, hget'⟩ := List.getElem?_eq_some_iff.1 hsymbol
  rw [← hget']
  exact List.isChain_iff_getElem.1 hchain dot hlt hget

namespace Linked

/-- Behind a document that is on top of the stack, nothing but the end of a composite has a
place. -/
theorem eq_blockEnd (grounded : automaton.isGrounded = true) {frame : Frame} {below : List Frame}
    (h : Linked automaton (frame :: below)) (hframe : frame.symbol = .nonterminal .document)
    {state : AutomatonState} (hstate : automaton[frame.state]? = some state) {item : Item}
    {lookahead : KindSet} (hitem : (item, lookahead) ∈ state.items) {symbol : Grammar.Symbol}
    (hnext : item.next? = some symbol) : symbol = .terminal .blockEnd := by
  obtain ⟨i, hi⟩ := List.mem_iff_getElem?.1 hitem
  induction i using Nat.strongRecOn generalizing item lookahead symbol with
  | ind i ih =>
    obtain ⟨p, dot⟩ := item
    cases dot with
    | zero =>
      -- The item is there for an earlier one, which waits for the end of a composite, not for a part.
      rcases Automaton.exists_waiting grounded hstate hi rfl with
        ⟨-, hzero⟩ | ⟨-, j, hj, other, kinds, hother, hwaits⟩
      · cases h.eq_nil grounded hzero
      · cases ih j hj (List.mem_of_getElem? hother) hwaits hother
    | succ dot =>
      obtain ⟨frames, lower, rest, hsupported⟩ := h.supports grounded hstate hitem
      cases frames with
      | nil => cases hsupported.length
      | cons top frames =>
        obtain ⟨rfl, -⟩ := List.cons.inj hsupported.stack
        have hlength : frames.length = dot := Nat.succ.inj hsupported.length
        have hlast := congrArg (fun symbols ↦ symbols[dot]?) hsupported.symbols
        simp [symbolsOf, ← hlength, hframe] at hlast
        exact eq_blockEnd_of_rhs p frames.length hlast.symm (hlength ▸ hnext)

/-- A stack weighs nothing or less, unless there is a document on top of it. -/
theorem excessOf_le (grounded : automaton.isGrounded = true) (h : Linked automaton stack) :
    excessOf stack ≤
      if stack.head?.map Frame.symbol = some (.nonterminal .document) then 1 else 0 := by
  induction h with
  | nil => simp
  | @cons frame below state h hstate hnext ih =>
    obtain ⟨item, lookahead, hitem, hwaits⟩ :=
      Automaton.exists_next_of_lookup grounded hstate hnext
    have hframe : Derivation.excess frame.symbol ≤
        if frame.symbol = .nonterminal .document then 1 else 0 := by
      generalize frame.symbol = symbol at hwaits
      cases symbol with
      | terminal kind => simp [Derivation.excess]
      | nonterminal part =>
        have hpart : part ≠ .accept := by
          rintro rfl
          exact accept_not_mem_rhs _ (List.mem_of_getElem? hwaits)
        cases part <;> first | exact absurd rfl hpart | decide
    simp only [excessOf_cons, List.head?_cons, Option.map_some, Option.some.injEq]
    by_cases hbelow : below.head?.map Frame.symbol = some (.nonterminal .document)
    · obtain ⟨top, htop, hdocument⟩ := Option.map_eq_some_iff.1 hbelow
      obtain ⟨lower, rfl⟩ := List.head?_eq_some_iff.1 htop
      have hend := h.eq_blockEnd grounded hdocument hstate hitem hwaits
      rw [if_pos hbelow] at ih
      simp only [hend, Derivation.excess, reduceCtorEq, if_false]
      omega
    · rw [if_neg hbelow] at ih
      omega

/-- No stack weighs more than one. -/
theorem excessOf_le_one (grounded : automaton.isGrounded = true) (h : Linked automaton stack) :
    excessOf stack ≤ 1 := by
  have := h.excessOf_le grounded
  split at this <;> omega

end Linked

/-! ### The steps of a run -/

/-- A run that is cut off has taken all its steps, each of which made the stack heavier or read a
token. -/
theorem exists_reaches_of_run_unfinished {fuel : Nat} (h : Reaches automaton tokens s before c)
    (hrun : run automaton tokens fuel c = .error .unfinished) :
    ∃ before' c', Reaches automaton tokens s before' c' ∧
      fuel + (6 * before.length + excessOf c.stack) ≤ 6 * before'.length + excessOf c'.stack := by
  induction fuel generalizing before c with
  | zero => exact ⟨before, c, h, by omega⟩
  | succ fuel ih =>
    rw [run] at hrun
    split at hrun
    · next failure hstep =>
      cases hrun
      rcases step_error_cases hstep with heq | ⟨_, -, -, heq⟩ | ⟨_, _, _, -, -, -, heq⟩ |
        ⟨_, _, _, _, _, -, -, -, heq⟩ <;> cases heq
    · cases hrun
    · next c₁ hstep =>
      rcases step_more_iff.1 hstep with hshift | hreduce
      · obtain ⟨before', c', hreaches, hle⟩ := ih (h.shift hshift) hrun
        have := hshift.excessOf_eq
        simp only [List.length_append, List.length_singleton] at hle
        exact ⟨before', c', hreaches, by omega⟩
      · obtain ⟨before', c', hreaches, hle⟩ := ih (h.reduce hreduce) hrun
        have := hreduce.lt_excessOf
        exact ⟨before', c', hreaches, by omega⟩

/-- A run ends when the tokens that it can read are bounded, after six steps for each of them. -/
theorem runFrom_ne_unfinished (grounded : automaton.isGrounded = true) {n fuel : Nat}
    (hlength : ∀ before c, Reaches automaton tokens s before c → before.length ≤ n)
    (hfuel : 6 * n + 2 ≤ fuel) : runFrom automaton tokens fuel s ≠ .error .unfinished := by
  intro h
  rw [runFrom] at h
  split at h
  · cases h
  · next first s' hfirst =>
    obtain ⟨before, c, hreaches, hle⟩ := exists_reaches_of_run_unfinished (.start hfirst) h
    have := (linked_of_reaches hreaches).excessOf_le_one grounded
    have := hlength before c hreaches
    simp only [List.length_nil, excessOf_nil] at hle
    omega

/-- The rules that are applied one behind the other are bounded by the height of the stack. -/
theorem length_le_of_reduces (grounded : automaton.isGrounded = true) {n : Nat}
    (configs : Nat → Config σ) (h : Reaches automaton tokens s before (configs 0))
    (hsteps : ∀ i < n, Reduces automaton (configs i) (configs (i + 1))) :
    n ≤ 5 * (configs 0).stack.length + 1 := by
  have hgrows : ∀ i ≤ n, Reaches automaton tokens s before (configs i) ∧
      i + excessOf (configs 0).stack ≤ excessOf (configs i).stack := by
    intro i hi
    induction i with
    | zero => exact ⟨h, by omega⟩
    | succ i ih =>
      obtain ⟨hreaches, hle⟩ := ih (by omega)
      have := (hsteps i hi).lt_excessOf
      exact ⟨hreaches.reduce (hsteps i hi), by omega⟩
  obtain ⟨hreaches, hle⟩ := hgrows n (Nat.le_refl n)
  have := (linked_of_reaches hreaches).excessOf_le_one grounded
  have := neg_le_excessOf (configs 0).stack
  omega

/-! ### Steps to spare -/

private theorem run_add {fuel : Nat} (h : run automaton tokens fuel c ≠ .error .unfinished)
    (extra : Nat) : run automaton tokens (fuel + extra) c = run automaton tokens fuel c := by
  induction fuel generalizing c with
  | zero => exact absurd rfl h
  | succ fuel ih =>
    rw [Nat.add_right_comm, run]
    rw [run] at h ⊢
    split
    · rfl
    · rfl
    · next c' hstep =>
      rw [hstep] at h
      exact ih h

/-- A run that comes to an end comes to the same one when it may take more steps. -/
theorem runFrom_eq_of_le {fuel fuel' : Nat}
    (h : runFrom automaton tokens fuel s ≠ .error .unfinished) (hle : fuel ≤ fuel') :
    runFrom automaton tokens fuel' s = runFrom automaton tokens fuel s := by
  obtain ⟨extra, rfl⟩ := Nat.exists_eq_add_of_le hle
  rw [runFrom] at h ⊢
  rw [runFrom]
  split
  · rfl
  · next first s' hfirst =>
    rw [hfirst] at h
    exact run_add h extra

/-! ### Lists of tokens -/

/-- The end of the input is not read. -/
theorem ne_endOfInput_of_shift (grounded : automaton.isGrounded = true) {q : Nat}
    {state : AutomatonState} (hstate : automaton[q]? = some state) {kind : Kind} {target : Nat}
    (haction : state.action kind = some (.shift target)) : kind ≠ .endOfInput := by
  rintro rfl
  obtain ⟨item, lookahead, -, hnext⟩ := Automaton.exists_next_of_lookup grounded hstate
    (AutomatonState.lookup_of_action_shift haction)
  exact endOfInput_not_mem_rhs _ (List.mem_of_getElem? hnext)

/-- A list of tokens is what has been read from it, the next token, and what is behind that. -/
theorem eq_append_of_reaches {ts : List Token} {c : Config (List Token)}
    (h : Reaches automaton listed ts before c) : ts = before ++ c.lookahead :: c.source := by
  have hlisted : ∀ {ts rest : List Token} {t : Token},
      listed ts = .ok (t, rest) → ts = t :: rest := by
    intro ts rest t h
    cases ts with
    | nil => cases h
    | cons t' ts =>
      cases h
      rfl
  induction h with
  | start h => exact hlisted h
  | shift h hstep ih =>
    cases hstep with
    | intro hstate haction htoken =>
      rw [ih, List.append_assoc, hlisted htoken]
      rfl
  | reduce h hstep ih =>
    cases hstep with
    | intro => exact ih

/-- What a run over tokens up to the end of the input fails with is a fault in them. -/
theorem exists_fault_of_listed (valid : automaton.isValid = true)
    (grounded : automaton.isGrounded = true) {ts : List Token} {eof : Token}
    (heof : eof.kind = .endOfInput) {fuel : Nat} {failure : Failure}
    (h : runFrom automaton listed fuel (ts ++ [eof]) = .error failure) :
    failure = .unfinished ∨
      ∃ fault, failure = .fault fault ∧ ∀ input, fault ≠ .unmatched input := by
  rcases runFrom_error_cases h with hcut | ⟨fault, hfirst, -⟩ | ⟨before, c, hreaches, hstep⟩
  · exact .inl hcut
  · cases ts <;> cases hfirst
  · rcases step_error_cases hstep with rfl | ⟨state, -, -, rfl⟩ |
      ⟨state, target, fault, hstate, haction, htoken, -⟩ |
      ⟨p, frames, values, span, fault, -, -, happly, rfl⟩
    · exact absurd hstep (isSafe_of_reaches valid grounded hreaches).ne_stuck
    · exact .inr ⟨_, rfl, fun _ ↦ Fault.noConfusion⟩
    · -- No token is left behind the last one, which is not read.
      have hsource : c.source = [] := by
        cases hsource : c.source with
        | nil => rfl
        | cons t rest =>
          rw [hsource] at htoken
          cases htoken
      have happend := eq_append_of_reaches hreaches
      rw [hsource] at happend
      obtain ⟨-, hlast⟩ := List.append_inj' happend rfl
      have hkind := ne_endOfInput_of_shift grounded hstate haction
      rw [← (List.cons.inj hlast).1] at hkind
      exact absurd heof hkind
    · refine .inr ⟨fault, rfl, ?_⟩
      rcases fault_of_apply p happly with ⟨t, rfl, -⟩ | ⟨⟨name, place, rfl⟩, -⟩
      · exact fun _ ↦ Fault.noConfusion
      · exact fun _ ↦ Fault.noConfusion

/-! ### Sources -/

/-- No more tokens are read from a source than it has characters. -/
theorem length_le_of_reaches (grounded : automaton.isGrounded = true) {s : Lexer.State}
    {c : Config Lexer.State} (h : Reaches automaton lexed s before c) :
    before.length ≤ s.rest.length := by
  obtain ⟨first, s', hfirst, hreads⟩ := reads_of_reaches h
  have hkinds := kind_ne_endOfInput_of_reaches grounded h
  generalize c.lookahead = next, c.source = s'' at hreads
  clear h
  induction hreads generalizing s with
  | nil => exact Nat.zero_le _
  | @cons t t' next s' s₂ s'' ts ht hts ih =>
    obtain ⟨hkind, hkinds⟩ := List.forall_mem_cons.1 hkinds
    have hlt := Lexer.State.next_length_lt (lexed_eq_ok_iff.1 hfirst) hkind
    have hle := ih ht hkinds
    rw [List.length_cons]
    omega

end Parser

open BlockDiagram.Parser Grammar

/-- Every source is read to an end. -/
theorem statements_ne_unfinished (source : String) : statements source ≠ .error .unfinished := by
  refine runFrom_ne_unfinished Automaton.ofGrammar_isGrounded (n := source.length)
    (fun before c h ↦ ?_) (by rw [fuelFor]; omega)
  have hsource : (Lexer.State.start source).rest.length = source.length := String.length_toList
  rw [← hsource]
  exact length_le_of_reaches Automaton.ofGrammar_isGrounded h

/-- A run over tokens up to the end of the input comes to statements or to a fault in the tokens,
whether they are a diagram or not, after a number of steps that the number of tokens bounds. The
rules that are applied before another token is read are bounded by what is on the stack. -/
theorem runFrom_listed_ends (ts : List Token) (text : String) (span : Source.Span) :
    (∃ result : Except Fault (List (Source.Located Statement)),
      (∀ input, result ≠ .error (.unmatched input)) ∧
      ∀ fuel, 6 * ts.length + 2 ≤ fuel →
        runFrom automaton listed fuel (ts ++ [⟨.endOfInput, text, span⟩]) =
          result.mapError .fault) ∧
    ∀ before (configs : Nat → Parser.Config (List Token)) (n : Nat),
      Reaches automaton listed (ts ++ [⟨.endOfInput, text, span⟩]) before (configs 0) →
      (∀ i < n, Reduces automaton (configs i) (configs (i + 1))) →
      n ≤ 5 * (configs 0).stack.length + 1 := by
  have hends : ∀ fuel, 6 * ts.length + 2 ≤ fuel →
      runFrom automaton listed fuel (ts ++ [⟨.endOfInput, text, span⟩]) ≠ .error .unfinished := by
    intro fuel hfuel
    refine runFrom_ne_unfinished Automaton.ofGrammar_isGrounded (fun before c h ↦ ?_) hfuel
    have hlength := congrArg List.length (eq_append_of_reaches h)
    simp only [List.length_append, List.length_cons, List.length_nil] at hlength
    omega
  refine ⟨?_, fun before configs n h hsteps ↦
    length_le_of_reduces Automaton.ofGrammar_isGrounded configs h hsteps⟩
  have hend := hends _ (Nat.le_refl _)
  cases hresult : runFrom automaton listed (6 * ts.length + 2)
      (ts ++ [⟨.endOfInput, text, span⟩]) with
  | ok ss =>
    refine ⟨.ok ss, fun _ ↦ by rintro ⟨⟩, fun fuel hfuel ↦ ?_⟩
    rw [runFrom_eq_of_le hend hfuel, hresult]
    rfl
  | error failure =>
    rcases exists_fault_of_listed Automaton.ofGrammar_isValid Automaton.ofGrammar_isGrounded rfl
      hresult with rfl | ⟨fault, rfl, hfault⟩
    · exact absurd hresult hend
    · refine ⟨.error fault, fun input h ↦ hfault input (Except.error.inj h), fun fuel hfuel ↦ ?_⟩
      rw [runFrom_eq_of_le hend hfuel, hresult]
      rfl

end BlockDiagram
