import BlockDiagram.Proofs.Grammar.Faults
import BlockDiagram.Proofs.Grammar.Followers
import BlockDiagram.Proofs.Parser.Stacks
import BlockDiagram.Proofs.Parser.Statements

/-!
# Where reading fails

A token that the grammar has no place for is found as soon as it is looked at: the tokens in front
of it are the front of some diagram (`continues_of_reaches`), and no diagram has it behind them
(`not_mayFollow`). The second holds because what the parser does until it looks at a token depends
on the tokens up to that one only, so it would fail on the diagram too.
-/

namespace BlockDiagram

open Token (Kind)

namespace Parser

open Grammar

variable {σ τ : Type} {automaton : Automaton} {tokens : TokenSource σ} {tokens' : TokenSource τ}
  {c c' : Config σ} {s : σ} {before : List Token}

/-! ### The tokens in front -/

/-- The symbols on the stack stand for the tokens that have been read. -/
theorem derives_of_reaches (h : Reaches automaton tokens s before c) :
    Derives (symbolsOf c.stack) (before.map Token.kind) := by
  induction h with
  | start => exact .done
  | shift h hstep ih =>
    rw [List.map_append]
    exact hstep.derives ih
  | reduce h hstep ih => exact hstep.derives ih

/-- The tokens that have been read are the front of a diagram. -/
theorem continues_of_reaches (grounded : automaton.isGrounded = true)
    (h : Reaches automaton tokens s before c) : Continues (before.map Token.kind) := by
  have hlinked := linked_of_reaches h
  obtain ⟨state, hstate⟩ := hlinked.exists_state grounded
  obtain ⟨⟨item, lookahead⟩, hitem⟩ := List.exists_mem_of_ne_nil _
    (Automaton.items_ne_nil grounded hstate)
  obtain ⟨frames, below, rest, hsupported⟩ := hlinked.supports grounded hstate hitem
  obtain ⟨kinds, hkinds⟩ := exists_derives (item.production.rhs.drop item.dot ++ rest)
  exact ⟨kinds, accepts_of_derives_accept
    (hsupported.completes_drop ((derives_of_reaches h).append hkinds))⟩

/-! ### The same steps on other tokens -/

/-- The same place in a run, with other tokens behind the next one. -/
def Config.withSource (c : Config σ) (s : τ) : Config τ :=
  ⟨c.stack, c.lookahead, s, c.anonymous⟩

/-- A run comes to the same place on every source that gives the same tokens up to there. -/
theorem Reaches.transfer (h : Reaches automaton tokens s before c) {s₀ s₁ s₂ : τ} {first : Token}
    (hfirst : tokens' s₀ = .ok (first, s₁))
    (hreads : Reads tokens' first s₁ before c.lookahead s₂) :
    Reaches automaton tokens' s₀ before (c.withSource s₂) := by
  induction h generalizing s₂ with
  | start h =>
    cases hreads with
    | nil => exact .start hfirst
  | @shift before c c' h hstep ih =>
    obtain ⟨s₃, hfront, hback⟩ := hreads.split
    cases hstep with
    | @intro state target token s' hstate haction htoken =>
      cases hback with
      | cons ht hrest =>
        cases hrest with
        | nil => exact (ih hfront).shift (.intro hstate haction ht)
  | reduce h hstep ih =>
    cases hstep with
    | intro hstate haction hstack hvalues happly htarget =>
      exact (ih hreads).reduce (.intro hstate haction hstack hvalues happly htarget)

/-- Tokens taken from a list, which has to hold all that are asked for. -/
def listed : TokenSource (List Token)
  | [] => .error (.unmatched ⟨' ', 0⟩)
  | t :: ts => .ok (t, ts)

private theorem reads_listed (ts : List Token) (next : Token) (rest : List Token) :
    ∃ first others, ts ++ next :: rest = first :: others ∧
      Reads listed first others ts next rest := by
  induction ts with
  | nil => exact ⟨next, rest, rfl, .nil⟩
  | cons t ts ih =>
    obtain ⟨first, others, heq, hreads⟩ := ih
    refine ⟨t, ts ++ next :: rest, rfl, ?_⟩
    rw [heq]
    exact .cons rfl hreads

/-- A run depends on the tokens that it has looked at, and not on what is behind them. -/
theorem Reaches.listed (h : Reaches automaton tokens s before c) (rest : List Token) :
    Reaches automaton listed (before ++ c.lookahead :: rest) before (c.withSource rest) := by
  obtain ⟨first, others, heq, hreads⟩ := reads_listed before c.lookahead rest
  rw [heq]
  exact h.transfer rfl hreads

/-- A run takes as many steps to what it reaches, however many may follow. -/
theorem exists_run_of_reaches (h : Reaches automaton tokens s before c) :
    ∃ first s' n, tokens s = .ok (first, s') ∧ ∀ fuel,
      run automaton tokens (n + fuel) ⟨[], first, s', 0⟩ = run automaton tokens fuel c := by
  induction h with
  | start h => exact ⟨_, _, 0, h, fun fuel ↦ by rw [Nat.zero_add]⟩
  | shift h hstep ih =>
    obtain ⟨first, s', n, hfirst, hrun⟩ := ih
    refine ⟨first, s', n + 1, hfirst, fun fuel ↦ ?_⟩
    rw [Nat.add_assoc, hrun, Nat.add_comm, run_succ_of_step (step_more_iff.2 (.inl hstep))]
  | reduce h hstep ih =>
    obtain ⟨first, s', n, hfirst, hrun⟩ := ih
    refine ⟨first, s', n + 1, hfirst, fun fuel ↦ ?_⟩
    rw [Nat.add_assoc, hrun, Nat.add_comm, run_succ_of_step (step_more_iff.2 (.inr hstep))]

/-- A token for which the automaton has no action is in no diagram behind what has been read. -/
theorem not_mayFollow (valid : automaton.isValid = true) (h : Reaches automaton tokens s before c)
    {state : AutomatonState} (hstate : automaton[stateOf c.stack]? = some state)
    (haction : state.action c.lookahead.kind = none) :
    ¬ MayFollow (before.map Token.kind) c.lookahead.kind := by
  rintro ⟨diagram, hdiagram, rest, hrest⟩
  -- The tokens of such a diagram: those that were read, and some of the right kinds behind them.
  let more : List Token := rest.map fun kind ↦ ⟨kind, "", .emptyAt 0⟩
  have hmore : more.map Token.kind = rest := by
    rw [List.map_map]
    exact List.map_id rest
  obtain ⟨body, eof, hbody⟩ : ∃ body eof, before ++ c.lookahead :: more = body ++ [eof] :=
    ⟨_, _, (List.dropLast_concat_getLast (by simp)).symm⟩
  have hkinds : body.map Token.kind ++ [eof.kind] = diagram ++ [.endOfInput] := by
    rw [← hrest, ← List.map_singleton, ← List.map_append, ← hbody, List.map_append, List.map_cons,
      hmore, List.append_assoc]
    rfl
  obtain ⟨hdiagram', heof⟩ := List.append_inj' hkinds rfl
  obtain ⟨d, hd⟩ := hdiagram.exists_derivation body hdiagram'
  -- The run on them comes to the same place, and fails there.
  have hreaches := h.listed more
  rw [hbody] at hreaches
  obtain ⟨first, others, n, hfirst, hrun⟩ := exists_run_of_reaches hreaches
  obtain ⟨first', others', heq, hreads⟩ := reads_listed body eof []
  rw [heq] at hfirst
  cases hfirst
  have hfuel : d.size < n + (d.size + 1) := by omega
  have hfail := run_derivation valid d (hd ▸ hreads) (List.cons.inj heof).1 hfuel
  have hstep : step automaton Parser.listed (c.withSource more) =
      .error (.fault (.unexpected c.lookahead state.expected)) := by
    simp only [step, Config.withSource, hstate, haction]
    rfl
  rw [hrun, run_succ_of_error hstep, statements_eq_backwards] at hfail
  cases hresult : (d.evaluate .backwards eof).run 0 with
  | error fault =>
    rw [hresult] at hfail
    cases hfail
    exact Derivation.ne_unexpected_of_evaluate hresult _ _ rfl
  | ok result =>
    rw [hresult] at hfail
    cases hfail

/-! ### Faults in runs -/

/-- A run has read the tokens that lie behind it, and one more to look ahead. -/
theorem reads_of_reaches (h : Reaches automaton tokens s before c) :
    ∃ first s', tokens s = .ok (first, s') ∧
      Reads tokens first s' before c.lookahead c.source := by
  induction h with
  | start h => exact ⟨_, _, h, .nil⟩
  | shift h hstep ih =>
    obtain ⟨first, s', hfirst, hreads⟩ := ih
    cases hstep with
    | intro hstate haction htoken => exact ⟨first, s', hfirst, hreads.append (.cons htoken .nil)⟩
  | reduce h hstep ih =>
    cases hstep with
    | intro => exact ih

/-- Holds for frames with tokens that satisfy `P`, and for those with other values. -/
def Frame.Holds (P : Kind → Token → Prop) : Frame → Prop
  | ⟨_, .terminal kind, token⟩ => P kind token.value
  | ⟨_, .nonterminal _, _⟩ => True

/-- What holds of all tokens of a source, as long as it keeps an invariant, holds of the next one and
of those on the stack. -/
theorem holds_of_reaches {P : Kind → Token → Prop} {I : σ → Prop}
    (hP : ∀ s t s', I s → tokens s = .ok (t, s') → P t.kind t ∧ I s') (hs : I s)
    (h : Reaches automaton tokens s before c) :
    P c.lookahead.kind c.lookahead ∧ (∀ frame ∈ c.stack, frame.Holds P) ∧ I c.source := by
  induction h with
  | start h =>
    obtain ⟨hfirst, hI⟩ := hP _ _ _ hs h
    exact ⟨hfirst, List.forall_mem_nil _, hI⟩
  | shift h hstep ih =>
    obtain ⟨hlookahead, hstack, hI⟩ := ih
    cases hstep with
    | intro hstate haction htoken =>
      obtain ⟨hnext, hI⟩ := hP _ _ _ hI htoken
      exact ⟨hnext, List.forall_mem_cons.2 ⟨hlookahead, hstack⟩, hI⟩
  | reduce h hstep ih =>
    obtain ⟨hlookahead, hstack, hI⟩ := ih
    cases hstep with
    | intro hstate haction hframes hvalues happly htarget =>
      refine ⟨hlookahead, List.forall_mem_cons.2 ⟨trivial, fun frame hframe ↦ hstack frame ?_⟩, hI⟩
      rw [hframes]
      exact List.mem_append_right _ hframe

/-- What holds of all tokens on a stack holds of those among the values of symbols. -/
theorem allTokens_of_valuesOf? {P : Kind → Token → Prop} {symbols : List Grammar.Symbol}
    {frames : List Frame} {values : Values symbols} (h : ∀ frame ∈ frames, frame.Holds P)
    (hvalues : valuesOf? symbols frames = some values) : AllTokens P symbols values := by
  induction symbols generalizing frames with
  | nil => trivial
  | cons symbol symbols ih =>
    cases frames with
    | nil => cases hvalues
    | cons frame frames =>
      obtain ⟨hframe, hframes⟩ := List.forall_mem_cons.1 h
      obtain ⟨state, symbol', value⟩ := frame
      rw [valuesOf?] at hvalues
      split at hvalues
      · next heq =>
        cases heq
        obtain ⟨rest, hrest, rfl⟩ := Option.map_eq_some_iff.1 hvalues
        cases symbol' with
        | terminal kind => exact ⟨hframe, ih hframes hrest⟩
        | nonterminal part => exact ih hframes hrest
      · cases hvalues

/-- A step that fails has no action for the next token, or reads it and has none behind it to look
at, or has a rule that cannot be applied, unless the run is stuck. -/
theorem step_error_cases {failure : Failure} (h : step automaton tokens c = .error failure) :
    failure = .stuck ∨
    (∃ state, automaton[stateOf c.stack]? = some state ∧ state.action c.lookahead.kind = none ∧
      failure = .fault (.unexpected c.lookahead state.expected)) ∨
    (∃ state target fault, automaton[stateOf c.stack]? = some state ∧
      state.action c.lookahead.kind = some (.shift target) ∧ tokens c.source = .error fault ∧
      failure = .fault fault) ∨
    ∃ (p : Production) (frames : List Frame) (values : Values p.rhs) (span : Source.Span)
      (fault : Fault), (∀ frame ∈ frames, frame ∈ c.stack) ∧ valuesOf? p.rhs frames = some values ∧
      (p.apply .backwards span values).run c.anonymous = .error fault ∧
      failure = .fault fault := by
  rw [step] at h
  split at h
  · exact .inl (Except.error.inj h).symm
  · next state hstate =>
    split at h
    · next target haction =>
      rw [shift] at h
      split at h
      · next fault htoken =>
        exact .inr (.inr (.inl ⟨state, target, fault, hstate, haction, htoken,
          (Except.error.inj h).symm⟩))
      · cases h
    · next p haction =>
      dsimp only [reduce] at h
      split at h
      · exact .inl (Except.error.inj h).symm
      · next values hvalues =>
        split at h
        · next fault happly =>
          refine .inr (.inr (.inr ⟨p, _, values, _, fault, fun frame hframe ↦ ?_, hvalues, happly,
            (Except.error.inj h).symm⟩))
          exact List.mem_of_mem_take (List.mem_reverse.1 hframe)
        · split at h
          · exact .inl (Except.error.inj h).symm
          · cases h
    · rw [accepted] at h
      split at h
      · cases h
      · exact .inl (Except.error.inj h).symm
    · next haction => exact .inr (.inl ⟨state, hstate, haction, (Except.error.inj h).symm⟩)

/-- A token from a source that states a direction names one. -/
theorem namesDirection_of_lexed {s s' : Lexer.State} {t : Token} (h : lexed s = .ok (t, s')) :
    NamesDirection t.kind t :=
  exists_directionIn (Lexer.State.origin_of_next (lexed_eq_ok_iff.1 h))

/-- Holds for faults of the grammar: a token out of place, or the end of the input. -/
def IsSyntax (fault : Fault) : Prop :=
  fault.code = .unexpectedToken ∨ fault.code = .unexpectedEnd

/-- A fault of the grammar is a token for which the automaton has no action. -/
theorem exists_reaches_of_isSyntax {s : Lexer.State} {fuel : Nat} {fault : Fault}
    (h : runFrom automaton lexed fuel s = .error (.fault fault)) (hfault : IsSyntax fault) :
    ∃ before c state, Reaches automaton lexed s before c ∧
      automaton[stateOf c.stack]? = some state ∧ state.action c.lookahead.kind = none ∧
      fault = .unexpected c.lookahead state.expected := by
  have hunmatched : ∀ {s}, lexed s ≠ .error fault := by
    intro s h
    obtain ⟨input, rfl⟩ := lexed_eq_unmatched h
    rcases hfault with h | h <;> cases h
  rcases runFrom_error_cases h with hcut | ⟨fault', hfirst, heq⟩ | ⟨before, c, hreaches, hstep⟩
  · cases hcut
  · cases heq
    exact absurd hfirst hunmatched
  · rcases step_error_cases hstep with heq | ⟨state, hstate, haction, heq⟩ |
      ⟨-, -, fault', -, -, htoken, heq⟩ |
      ⟨p, frames, values, span, fault', hframes, hvalues, happly, heq⟩
    · cases heq
    · cases heq
      exact ⟨before, c, state, hreaches, hstate, haction, rfl⟩
    · cases heq
      exact absurd htoken hunmatched
    · cases heq
      obtain ⟨-, hholds, -⟩ := holds_of_reaches
        (fun _ _ _ _ h ↦ ⟨namesDirection_of_lexed h, trivial⟩) (I := fun _ ↦ True) trivial hreaches
      have hall := allTokens_of_valuesOf? (fun frame hframe ↦ hholds frame (hframes frame hframe))
        hvalues
      rcases fault_of_apply p happly with ⟨t, rfl, -⟩ | ⟨-, hnot⟩
      · rcases hfault with h | h <;> cases h
      · exact absurd hall hnot

/-- Holds when the lexer takes tokens from the front of a source, and then one more. -/
def Opens (source : String) (before : List Token) (t : Token) : Prop :=
  ∃ first s s', lexed (Lexer.State.start source) = .ok (first, s) ∧ Reads lexed first s before t s'

/-- A run over a source has taken its tokens from the front of that. -/
theorem opens_of_reaches {source : String} {c : Config Lexer.State}
    (h : Reaches automaton lexed (Lexer.State.start source) before c) :
    Opens source before c.lookahead := by
  obtain ⟨first, s', hfirst, hreads⟩ := reads_of_reaches h
  exact ⟨first, s', c.source, hfirst, hreads⟩

/-- Tokens that are taken one by one, none of them the end of the input, are in front of the others
of the source. -/
theorem exists_append_of_opens {source : String} {ts : List Token} {t : Token}
    (h : Lexer.tokenize source = .ok ts) (hopens : Opens source before t)
    (hbefore : ∀ t ∈ before, t.kind ≠ .endOfInput) : ∃ after, ts = before ++ t :: after := by
  obtain ⟨first, s, s', hfirst, hreads⟩ := hopens
  rw [Lexer.tokenize] at h
  generalize Lexer.State.start source = start at h hfirst
  induction hreads generalizing start ts with
  | nil =>
    obtain ⟨t, s₁, hnext, hts⟩ := Lexer.State.tokens_cases h
    obtain ⟨rfl, -⟩ := Prod.mk.inj (Except.ok.inj (hnext.symm.trans (lexed_eq_ok_iff.1 hfirst)))
    rcases hts with ⟨-, rfl⟩ | ⟨-, rest, -, rfl⟩
    · exact ⟨[], rfl⟩
    · exact ⟨rest, rfl⟩
  | cons ht hrest ih =>
    obtain ⟨hkind, hkinds⟩ := List.forall_mem_cons.1 hbefore
    obtain ⟨t, s₁, hnext, hts⟩ := Lexer.State.tokens_cases h
    obtain ⟨rfl, rfl⟩ := Prod.mk.inj (Except.ok.inj (hnext.symm.trans (lexed_eq_ok_iff.1 hfirst)))
    rcases hts with ⟨hend, -⟩ | ⟨-, rest, hrest', rfl⟩
    · exact absurd hend hkind
    · obtain ⟨after, rfl⟩ := ih hkinds _ hrest' ht
      exact ⟨after, rfl⟩

/-- The end of the input is not among the tokens that have been read. -/
theorem kind_ne_endOfInput_of_reaches (grounded : automaton.isGrounded = true)
    (h : Reaches automaton tokens s before c) : ∀ t ∈ before, t.kind ≠ .endOfInput := by
  intro t ht hkind
  refine endOfInput_not_mem_of_continues (continues_of_reaches grounded h) ?_
  rw [← hkind]
  exact List.mem_map_of_mem ht

end Parser

open BlockDiagram.Parser Grammar

/-- A fault of the grammar is reported at the first token that is out of place: the tokens in front
of it are the front of a diagram, and no diagram has it behind them. -/
theorem statements_unexpected {source : String} {tokens : List Token} {fault : Fault}
    (htokens : Lexer.tokenize source = .ok tokens) (h : statements source = .error (.fault fault))
    (hcode : fault.code = .unexpectedToken ∨ fault.code = .unexpectedEnd) :
    ∃ i t expected, tokens[i]? = some t ∧ fault = .unexpected t expected ∧
      (∀ j t', tokens[j]? = some t' → t'.span = t.span → j = i) ∧
      Continues ((tokens.take i).map Token.kind) ∧
      ¬ MayFollow ((tokens.take i).map Token.kind) t.kind := by
  obtain ⟨before, c, state, hreaches, hstate, haction, rfl⟩ := exists_reaches_of_isSyntax h hcode
  obtain ⟨after, rfl⟩ := exists_append_of_opens htokens (opens_of_reaches hreaches)
    (kind_ne_endOfInput_of_reaches Automaton.ofGrammar_isGrounded hreaches)
  have hget : (before ++ c.lookahead :: after)[before.length]? = some c.lookahead := by
    rw [List.getElem?_append_right (Nat.le_refl _), Nat.sub_self]
    rfl
  refine ⟨before.length, c.lookahead, state.expected, hget, rfl, fun j t' hj hspan ↦ ?_, ?_, ?_⟩
  · have hpairs := (Lexer.State.pairwise_start_of_tokens htokens).2
    rw [List.pairwise_iff_getElem] at hpairs
    obtain ⟨hi, hget⟩ := List.getElem?_eq_some_iff.1 hget
    obtain ⟨hj, hget'⟩ := List.getElem?_eq_some_iff.1 hj
    have hstart : t'.span.start = c.lookahead.span.start := congrArg Source.Span.start hspan
    rw [← hget, ← hget'] at hstart
    rcases Nat.lt_trichotomy j before.length with hlt | heq | hlt
    · exact absurd hstart (Nat.ne_of_lt (hpairs _ _ hj hi hlt))
    · exact heq
    · exact absurd hstart.symm (Nat.ne_of_lt (hpairs _ _ hi hj hlt))
  · rw [List.take_left]
    exact continues_of_reaches Automaton.ofGrammar_isGrounded hreaches
  · rw [List.take_left]
    exact not_mayFollow Automaton.ofGrammar_isValid hreaches hstate haction

/-- A composite does not end where none has begun. -/
theorem not_mayFollow_blockEnd : ∃ tokens fault,
    Lexer.tokenize "block-beta end" = .ok tokens ∧
      statements "block-beta end" = .error (.fault fault) ∧ fault.code = .unexpectedToken ∧
      Continues [.diagram] ∧ ¬ MayFollow [.diagram] .blockEnd := by
  let opening : Token := ⟨.diagram, "block-beta", .between 0 10⟩
  let ending : Token := ⟨.blockEnd, "end", .between 11 14⟩
  let eof : Token := ⟨.endOfInput, "", .emptyAt 14⟩
  have htokenize : Lexer.tokenize "block-beta end" = .ok [opening, ending, eof] :=
    eq_ok_of_toOption (by decide +kernel)
  have hrun : (statements "block-beta end").map (fun _ ↦ ()) =
      .error (.fault (.unexpected ending [
        .block, .namedBlock, .columns, .space, .nodeId, .classDef, .applyClass, .applyStyle,
        .title, .description, .descriptionBlock, .endOfInput])) := by
    decide +kernel
  obtain ⟨i, t, expected, hi, hfault, -, hcontinues, hnot⟩ :=
    statements_unexpected htokenize (map_eq_error_iff.1 hrun) (.inl rfl)
  cases hfault
  match i with
  | 1 => exact ⟨_, _, htokenize, map_eq_error_iff.1 hrun, rfl, hcontinues, hnot⟩
  | 0 => cases congrArg Token.kind (Option.some.inj hi)
  | 2 => cases congrArg Token.kind (Option.some.inj hi)
  | i + 3 => cases hi

end BlockDiagram
