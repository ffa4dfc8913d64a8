import BlockDiagram.Proofs.Parser.Termination

/-!
# Tokens on demand

The parser asks for a token when the one before it has found its place, and not earlier. On a source
that can be cut into tokens that is the same as to cut it first, since a run depends on its source
for the tokens only (`run_eq_of_agree`). On another source there is a token behind which the lexer
fails; its failure is met when all tokens up to that one are read (`ReadsAll`), and otherwise a fault
in them is met first.
-/

namespace BlockDiagram

open Token (Kind)

namespace Parser

open Grammar

variable {σ τ : Type} {automaton : Automaton} {tokens : TokenSource σ} {tokens' : TokenSource τ}
  {c c' : Config σ} {s : σ} {before : List Token}

/-! ### Steps and sources -/

/-- The same step, with other tokens behind the next one. -/
def Step.withSource (s : τ) : Step σ → Step τ
  | .more c => .more (c.withSource s)
  | .done statements => .done statements

/-- Holds when the next token is the one that the automaton reads next. -/
def ReadsNext (automaton : Automaton) (c : Config σ) : Prop :=
  ∃ state target, automaton[stateOf c.stack]? = some state ∧
    state.action c.lookahead.kind = some (.shift target)

private theorem reduce_withSource (c : Config σ) (p : Production) (s : τ) :
    reduce automaton (c.withSource s) p =
      (reduce automaton c p).map (Config.withSource · s) := by
  dsimp only [reduce, Config.withSource]
  split
  · rfl
  · split
    · rfl
    · split <;> rfl

/-- A step that does not read the next token is the same, whatever is behind the token. -/
theorem step_withSource (tokens : TokenSource σ) (tokens' : TokenSource τ)
    (h : ¬ ReadsNext automaton c) (s : τ) :
    step automaton tokens' (c.withSource s) =
      (step automaton tokens c).map (Step.withSource s) := by
  have hstack : (c.withSource s).stack = c.stack := rfl
  have hlookahead : (c.withSource s).lookahead = c.lookahead := rfl
  rw [step, step, hstack, hlookahead]
  split
  · rfl
  · next state hstate =>
    split
    · next target haction => exact absurd ⟨state, target, hstate, haction⟩ h
    · next p haction =>
      rw [reduce_withSource]
      cases reduce automaton c p <;> rfl
    · have haccepted : accepted (c.withSource s) = accepted c := rfl
      rw [haccepted]
      cases accepted c <;> rfl
    · rfl

/-- A step that reads the next token fails when there is none behind it. -/
theorem step_of_readsNext (hreads : ReadsNext automaton c) {fault : Fault}
    (htoken : tokens c.source = .error fault) :
    step automaton tokens c = .error (.fault fault) := by
  obtain ⟨state, target, hstate, haction⟩ := hreads
  simp only [step, hstate, haction, shift, htoken]
  rfl

/-- A step that reads the next token fails for no other reason. -/
theorem step_error_of_readsNext {failure : Failure} (hreads : ReadsNext automaton c)
    (h : step automaton tokens c = .error failure) :
    ∃ fault, tokens c.source = .error fault ∧ failure = .fault fault := by
  cases htoken : tokens c.source with
  | error fault =>
    rw [step_of_readsNext hreads htoken] at h
    exact ⟨fault, rfl, (Except.error.inj h).symm⟩
  | ok result =>
    obtain ⟨state, target, hstate, haction⟩ := hreads
    rw [step_shift hstate haction htoken] at h
    cases h

/-! ### Sources that agree -/

/-- Holds when two sources fail in the same way, or give the same token and are related behind it,
unless it is the end of the input. -/
inductive Agree (R : σ → τ → Prop) : Except Fault (Token × σ) → Except Fault (Token × τ) → Prop where
  | error (fault : Fault) : Agree R (.error fault) (.error fault)
  | ok {t : Token} {s : σ} {s' : τ} (h : t.kind ≠ .endOfInput → R s s') :
      Agree R (.ok (t, s)) (.ok (t, s'))

variable {R : σ → τ → Prop}

/-- A run depends on what is behind the next token for the tokens only. -/
theorem run_eq_of_agree (grounded : automaton.isGrounded = true)
    (hR : ∀ s s', R s s' → Agree R (tokens s) (tokens' s')) {s' : τ}
    (h : c.lookahead.kind ≠ .endOfInput → R c.source s') (fuel : Nat) :
    run automaton tokens fuel c = run automaton tokens' fuel (c.withSource s') := by
  induction fuel generalizing c s' with
  | zero => rfl
  | succ fuel ih =>
    by_cases hreads : ReadsNext automaton c
    · have hreads' : ReadsNext automaton (c.withSource s') := hreads
      obtain ⟨state, target, hstate, haction⟩ := hreads
      have hagree := hR _ _ (h (ne_endOfInput_of_shift grounded hstate haction))
      generalize htoken : tokens c.source = r, htoken' : tokens' s' = r' at hagree
      cases hagree with
      | error fault =>
        rw [run_succ_of_error (step_of_readsNext ⟨state, target, hstate, haction⟩ htoken),
          run_succ_of_error (step_of_readsNext hreads' htoken')]
      | ok hrelated =>
        rw [run_succ_of_step (step_shift hstate haction htoken),
          run_succ_of_step (c := c.withSource s') (step_shift hstate haction htoken')]
        exact ih hrelated
    · rw [run, run, step_withSource tokens tokens' hreads]
      cases hstep : step automaton tokens c with
      | error failure => rfl
      | ok result =>
        cases result with
        | done statements => rfl
        | more c₁ =>
          refine ih fun hkind ↦ ?_
          rcases step_more_iff.1 hstep with ⟨hstate, haction, -⟩ | hreduce
          · exact absurd ⟨_, _, hstate, haction⟩ hreads
          · cases hreduce with
            | intro => exact h hkind

/-- Sources that give the same tokens are read to the same end. -/
theorem runFrom_eq_of_agree (grounded : automaton.isGrounded = true)
    (hR : ∀ s s', R s s' → Agree R (tokens s) (tokens' s')) {s' : τ} (h : R s s') (fuel : Nat) :
    runFrom automaton tokens fuel s = runFrom automaton tokens' fuel s' := by
  have hagree := hR _ _ h
  rw [runFrom, runFrom]
  generalize tokens s = r, tokens' s' = r' at hagree
  cases hagree with
  | error fault => rfl
  | ok hrelated => exact run_eq_of_agree grounded hR hrelated fuel

/-- The lexer agrees with the list of the tokens that it cuts. -/
theorem agree_of_tokens {s : Lexer.State} {ts : List Token} (h : s.tokens = .ok ts) :
    Agree (fun s ts ↦ s.tokens = .ok ts) (lexed s) (listed ts) := by
  obtain ⟨t, s', hnext, ⟨hkind, rfl⟩ | ⟨-, rest, hrest, rfl⟩⟩ := Lexer.State.tokens_cases h
  · rw [lexed_eq_ok_iff.2 hnext]
    exact .ok fun hne ↦ absurd hkind hne
  · rw [lexed_eq_ok_iff.2 hnext]
    exact .ok fun _ ↦ hrest

/-! ### Places that a run comes to -/

/-- The last token that has been read was the next one at a place in front, where the automaton
reads it. -/
theorem exists_readsNext_of_reaches {t : Token}
    (h : Reaches automaton tokens s (before ++ [t]) c) :
    ∃ c₀, Reaches automaton tokens s before c₀ ∧ c₀.lookahead = t ∧ ReadsNext automaton c₀ := by
  generalize hall : before ++ [t] = all at h
  induction h with
  | start => cases before <;> cases hall
  | @shift before' c₀ c' h hstep ih =>
    obtain ⟨rfl, hlast⟩ := List.append_inj' hall rfl
    cases hstep with
    | intro hstate haction htoken =>
      exact ⟨c₀, h, (List.cons.inj hlast).1.symm, _, _, hstate, haction⟩
  | reduce h hstep ih => exact ih hall

/-- A run that comes to an end ends where it comes to a step that fails. -/
theorem runFrom_eq_error_of_reaches (h : Reaches automaton tokens s before c) {failure : Failure}
    (hstep : step automaton tokens c = .error failure) {fuel : Nat}
    (hfuel : runFrom automaton tokens fuel s ≠ .error .unfinished) :
    runFrom automaton tokens fuel s = .error failure := by
  obtain ⟨first, s', n, hfirst, hrun⟩ := exists_run_of_reaches h
  have hmore : runFrom automaton tokens (n + (fuel + 1)) s = .error failure := by
    rw [runFrom, hfirst]
    exact (hrun (fuel + 1)).trans (run_succ_of_error hstep fuel)
  rw [← runFrom_eq_of_le hfuel (by omega : fuel ≤ n + (fuel + 1)), hmore]

/-! ### Sources that fail -/

/-- Holds when a source gives tokens one by one, and fails when it is asked for one more. -/
inductive FailsBehind (tokens : TokenSource σ) (fault : Fault) : List Token → σ → Prop where
  | nil {s : σ} (h : tokens s = .error fault) : FailsBehind tokens fault [] s
  | cons {t : Token} {ts : List Token} {s s' : σ} (ht : tokens s = .ok (t, s'))
      (hts : FailsBehind tokens fault ts s') : FailsBehind tokens fault (t :: ts) s

namespace FailsBehind

variable {fault : Fault} {ts : List Token}

/-- What a run has read are the first of the tokens. -/
theorem of_reaches (h : FailsBehind tokens fault ts s)
    (hreaches : Reaches automaton tokens s before c) :
    ∃ rest, ts = before ++ c.lookahead :: rest ∧ FailsBehind tokens fault rest c.source := by
  induction hreaches with
  | start hfirst =>
    cases h with
    | nil hfails => cases hfails.symm.trans hfirst
    | cons ht hts =>
      cases ht.symm.trans hfirst
      exact ⟨_, rfl, hts⟩
  | shift hreaches hstep ih =>
    obtain ⟨rest, rfl, hrest⟩ := ih
    cases hstep with
    | intro hstate haction htoken =>
      cases hrest with
      | nil hfails => cases hfails.symm.trans htoken
      | cons ht hts =>
        cases ht.symm.trans htoken
        exact ⟨_, List.append_cons _ _ _, hts⟩
  | reduce hreaches hstep ih =>
    cases hstep with
    | intro => exact ih

private theorem exists_reads {t : Token} (h : FailsBehind tokens fault (before ++ [t]) s) :
    ∃ first s₁ s₂, tokens s = .ok (first, s₁) ∧ Reads tokens first s₁ before t s₂ ∧
      tokens s₂ = .error fault := by
  induction before generalizing s with
  | nil =>
    cases h with
    | cons ht hts =>
      cases hts with
      | nil hfails => exact ⟨t, _, _, ht, .nil, hfails⟩
  | cons t' before ih =>
    cases h with
    | cons ht hts =>
      obtain ⟨first, s₁, s₂, hfirst, hreads, hfails⟩ := ih hts
      exact ⟨t', _, s₂, ht, .cons hfirst hreads, hfails⟩

end FailsBehind

/-- On a source that the lexer fails on, it does so behind some tokens. -/
theorem exists_failsBehind {s : Lexer.State} {u : Lexer.Unmatched} (h : s.tokens = .error u) :
    ∃ ts, FailsBehind lexed (.unmatched u) ts s ∧ ∀ t ∈ ts, t.kind ≠ .endOfInput := by
  fun_induction Lexer.State.tokens s with
  | case1 s unmatched hnext =>
    cases h
    refine ⟨[], .nil ?_, List.forall_mem_nil _⟩
    rw [lexed, hnext]
  | case2 => cases h
  | case3 s t s' hnext hkind ih =>
    obtain ⟨ts, hts, hkinds⟩ := ih (map_eq_error_iff.1 h)
    exact ⟨t :: ts, .cons (lexed_eq_ok_iff.2 hnext) hts, List.forall_mem_cons.2 ⟨hkind, hkinds⟩⟩

/-! ### The run on a list -/

/-- What is read from a list of tokens. -/
def driven (ts : List Token) : Except Failure (List (Source.Located Statement)) :=
  runFrom Parser.automaton listed (fuelFor ts.length) ts

/-- Holds when all the tokens are read, whatever is behind them. -/
def ReadsAll (ts : List Token) : Prop :=
  ∀ next more, ∃ c, Reaches Parser.automaton listed (ts ++ next :: more) ts c

/-- Holds when a fault is met in the tokens, whatever is behind them. -/
def Meets (ts : List Token) (fault : Fault) : Prop :=
  ∀ more, driven (ts ++ more) = .error (.fault fault)

private theorem driven_ne_unfinished (ts : List Token) : driven ts ≠ .error .unfinished := by
  refine runFrom_ne_unfinished Automaton.ofGrammar_isGrounded (n := ts.length)
    (fun before c h ↦ ?_) (by rw [fuelFor]; omega)
  have hlength := congrArg List.length (eq_append_of_reaches h)
  simp only [List.length_append, List.length_cons] at hlength
  omega

/-- On a source that the lexer fails on behind some tokens, all of them are read and the run fails
with the lexer, or a fault is met in them first. -/
theorem statements_failsBehind_cases {source : String} {u : Lexer.Unmatched} {ts : List Token}
    (h : FailsBehind lexed (.unmatched u) ts (Lexer.State.start source))
    (hkinds : ∀ t ∈ ts, t.kind ≠ .endOfInput) {failure : Failure}
    (hfailure : statements source = .error failure) :
    (failure = .fault (.unmatched u) ∧ ReadsAll ts) ∨
    ∃ fault, failure = .fault fault ∧
      (fault.code = .unexpectedToken ∨ fault.code = .invalidNumber) ∧ Meets ts fault := by
  rcases runFrom_error_cases hfailure with rfl | ⟨fault, hfirst, rfl⟩ | ⟨before, c, hreaches, hstep⟩
  · exact absurd hfailure (statements_ne_unfinished source)
  · cases h with
    | nil hfails =>
      cases hfails.symm.trans hfirst
      exact .inl ⟨rfl, fun next more ↦ ⟨_, .start rfl⟩⟩
    | cons ht hts => cases ht.symm.trans hfirst
  · obtain ⟨rest, rfl, hrest⟩ := h.of_reaches hreaches
    by_cases hreads : ReadsNext Parser.automaton c
    · left
      obtain ⟨fault, htoken, rfl⟩ := step_error_of_readsNext hreads hstep
      cases hrest with
      | cons ht hts => cases ht.symm.trans htoken
      | nil hfails =>
        cases hfails.symm.trans htoken
        refine ⟨rfl, fun next more ↦ ?_⟩
        obtain ⟨state, target, hstate, haction⟩ := hreads
        have hshift := (hreaches.listed (next :: more)).shift (.intro hstate haction rfl)
        rw [List.append_assoc, List.singleton_append]
        exact ⟨_, hshift⟩
    · right
      have hmeets : ∀ more, driven (before ++ c.lookahead :: rest ++ more) = .error failure := by
        intro more
        rw [List.append_assoc, List.cons_append]
        refine runFrom_eq_error_of_reaches (hreaches.listed (rest ++ more)) ?_
          (driven_ne_unfinished _)
        rw [step_withSource lexed listed hreads, hstep]
        rfl
      rcases step_error_cases hstep with rfl | ⟨state, hstate, haction, rfl⟩ |
        ⟨state, target, fault, hstate, haction, -, -⟩ |
        ⟨p, frames, values, span, fault, -, -, happly, rfl⟩
      · exact absurd hstep (isSafe_of_reaches Automaton.ofGrammar_isValid
          Automaton.ofGrammar_isGrounded hreaches).ne_stuck
      · refine ⟨_, rfl, .inl ?_, hmeets⟩
        exact if_neg (hkinds _ (List.mem_append_right _ List.mem_cons_self))
      · exact absurd ⟨state, target, hstate, haction⟩ hreads
      · refine ⟨fault, rfl, ?_, hmeets⟩
        rcases fault_of_apply p happly with ⟨t, rfl, -⟩ | ⟨⟨name, place, rfl⟩, -⟩
        · exact .inr rfl
        · exact .inl rfl

/-- When all tokens in front are read, the run fails where the lexer does. -/
theorem statements_eq_of_readsAll {source : String} {fault : Fault} {ts : List Token}
    (h : FailsBehind lexed fault ts (Lexer.State.start source)) (hall : ReadsAll ts) :
    statements source = .error (.fault fault) := by
  rcases List.eq_nil_or_concat ts with rfl | ⟨before, t, rfl⟩
  · cases h with
    | nil hfails =>
      rw [statements, runFrom, hfails]
      rfl
  · rw [List.concat_eq_append] at h hall
    obtain ⟨c, hreaches⟩ := hall ⟨.endOfInput, "", .emptyAt 0⟩ []
    obtain ⟨c₀, hreaches₀, rfl, hreads₀⟩ := exists_readsNext_of_reaches hreaches
    obtain ⟨first, s₁, s₂, hfirst, hreads, hfails⟩ := h.exists_reads
    have hnext : ReadsNext Parser.automaton (c₀.withSource s₂) := hreads₀
    exact runFrom_eq_error_of_reaches (hreaches₀.transfer hfirst hreads)
      (step_of_readsNext hnext hfails) (statements_ne_unfinished source)

end Parser

open BlockDiagram.Parser Grammar

/-- To take tokens as they are needed is as good as to cut the source first. When the source can be
cut, its statements are those of the list of its tokens. When it cannot, the failure of the lexer is
what reading fails with exactly if all tokens in front of it are read; otherwise a fault is met in
them first. -/
theorem statements_on_demand (source : String) :
    (∀ ts, Lexer.tokenize source = .ok ts → statements source = driven ts) ∧
    ∀ u, Lexer.tokenize source = .error u →
      ∃ ts, FailsBehind lexed (.unmatched u) ts (Lexer.State.start source) ∧
        (statements source = .error (.fault (.unmatched u)) ↔ ReadsAll ts) ∧
        (¬ ReadsAll ts → ∃ fault, statements source = .error (.fault fault) ∧
          (fault.code = .unexpectedToken ∨ fault.code = .invalidNumber) ∧ Meets ts fault) := by
  constructor
  · intro ts hts
    have hsame : ∀ fuel, runFrom automaton lexed fuel (Lexer.State.start source) =
        runFrom automaton listed fuel ts :=
      runFrom_eq_of_agree Automaton.ofGrammar_isGrounded (fun _ _ h ↦ agree_of_tokens h) hts
    have hcommon : ∀ fuel, fuelFor source.length ≤ fuel → fuelFor ts.length ≤ fuel →
        statements source = driven ts := by
      intro fuel hsource hlist
      rw [statements, driven, ← runFrom_eq_of_le (statements_ne_unfinished source) hsource,
        ← runFrom_eq_of_le (driven_ne_unfinished ts) hlist, hsame]
    exact hcommon _ (Nat.le_max_left _ _) (Nat.le_max_right _ _)
  · intro u hu
    obtain ⟨ts, hts, hkinds⟩ := exists_failsBehind hu
    have hfails : ∃ failure, statements source = .error failure := by
      cases hresult : statements source with
      | error failure => exact ⟨failure, rfl⟩
      | ok ss =>
        obtain ⟨body, eof, htokens, -⟩ := exists_tokens_of_statements hresult
        rw [hu] at htokens
        cases htokens
    obtain ⟨failure, hfailure⟩ := hfails
    have hcases := statements_failsBehind_cases hts hkinds hfailure
    refine ⟨ts, hts, ⟨fun hunmatched ↦ ?_, statements_eq_of_readsAll hts⟩, fun hnot ↦ ?_⟩
    · cases hfailure.symm.trans hunmatched
      rcases hcases with ⟨-, hall⟩ | ⟨fault, heq, hcode, -⟩
      · exact hall
      · cases heq
        rcases hcode with hcode | hcode <;> cases hcode
    · rcases hcases with ⟨-, hall⟩ | ⟨fault, rfl, hcode, hmeets⟩
      · exact absurd hall hnot
      · exact ⟨fault, hfailure, hcode, hmeets⟩

end BlockDiagram
