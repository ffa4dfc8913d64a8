import BlockDiagram.Proofs.Except
import BlockDiagram.Proofs.Grammar.Evaluation
import BlockDiagram.Proofs.Grammar.Gathering
import BlockDiagram.Proofs.Grammar.Parts
import BlockDiagram.Proofs.Parser.Soundness

/-!
# The statements of a source

The parser as a whole. On a source that is cut into tokens it succeeds exactly when the kinds of the
tokens make up a diagram and all numbers are in range, and then it has the statements that the
derivation of the tokens stands for, in the order of the source (`statements_of_tokenize`).
-/

namespace BlockDiagram

open Grammar
open Token (Kind)

namespace Parser

variable {σ : Type} {automaton : Automaton} {tokens : TokenSource σ}

/-- The tokens of a source are read one by one, up to the end of the input. -/
theorem reads_of_tokens {s : Lexer.State} {ts : List Token} (h : s.tokens = .ok ts) :
    ∃ first s' body eof s'', lexed s = .ok (first, s') ∧ ts = body ++ [eof] ∧
      eof.kind = .endOfInput ∧ (∀ t ∈ body, t.kind ≠ .endOfInput) ∧
      Reads lexed first s' body eof s'' ∧ body.length ≤ s.rest.length := by
  induction ts generalizing s with
  | nil =>
    obtain ⟨t, s', -, ⟨-, hts⟩ | ⟨-, rest, -, hts⟩⟩ := Lexer.State.tokens_cases h
    · cases hts
    · cases hts
  | cons t ts ih =>
    obtain ⟨first, s', hnext, ⟨hkind, hts⟩ | ⟨hkind, rest, hrest, hts⟩⟩ :=
      Lexer.State.tokens_cases h
    · have hlexed : lexed s = .ok (first, s') := by rw [lexed, hnext]
      obtain ⟨rfl, rfl⟩ := List.cons.inj hts
      exact ⟨t, s', [], t, s', hlexed, rfl, hkind, List.forall_mem_nil _, .nil, Nat.zero_le _⟩
    · have hlexed : lexed s = .ok (first, s') := by rw [lexed, hnext]
      have hlength := Lexer.State.next_length_lt hnext hkind
      obtain ⟨rfl, rfl⟩ := List.cons.inj hts
      obtain ⟨second, s₂, body, eof, s'', hsecond, rfl, heof, hbody, hreads, hle⟩ := ih hrest
      refine ⟨t, s', t :: body, eof, s'', hlexed, rfl, heof, List.forall_mem_cons.2 ⟨hkind, hbody⟩,
        .cons hsecond hreads, ?_⟩
      rw [List.length_cons]
      omega

/-- Tokens that are read one by one up to the end of the input are those of the source. -/
theorem tokens_of_reads {s s' s'' : Lexer.State} {first eof : Token} {body : List Token}
    (hfirst : lexed s = .ok (first, s')) (hreads : Reads lexed first s' body eof s'')
    (hbody : ∀ t ∈ body, t.kind ≠ .endOfInput) (heof : eof.kind = .endOfInput) :
    s.tokens = .ok (body ++ [eof]) := by
  have hnext : ∀ {s s' : Lexer.State} {t : Token}, lexed s = .ok (t, s') →
      s.next = .ok (t, s') := by
    intro s s' t h
    rw [lexed] at h
    split at h
    · next heq => rwa [Except.ok.inj h] at heq
    · cases h
  generalize hts : body = ts at hreads
  induction hreads generalizing s body with
  | nil => rw [Lexer.State.tokens_eq_of_next (hnext hfirst), if_pos heof, List.nil_append]
  | cons ht hrest ih =>
    obtain ⟨hkind, hkinds⟩ := List.forall_mem_cons.1 (hts ▸ hbody)
    rw [Lexer.State.tokens_eq_of_next (hnext hfirst), if_neg hkind, ih ht hkinds heof rfl]
    rfl

/-- A whole diagram stands for the same statements, whichever way they are gathered. -/
theorem statements_eq_backwards (d : Derivation [.nonterminal .start]) (next : Token) :
    d.statements next =
      ((d.evaluate .backwards next).run 0).map fun (values, _) ↦ values.1.value := by
  rw [Derivation.statements, run_evaluate_backwards]
  cases (d.evaluate .forwards next).run 0 with
  | error fault => rfl
  | ok result => rfl

/-- A run that starts in front of a whole diagram ends with the statements of the diagram, or with
the fault in it. -/
theorem run_derivation (valid : automaton.isValid = true) (d : Derivation [.nonterminal .start])
    {first eof : Token} {s s' : σ} (hreads : Reads tokens first s d.tokens eof s')
    (heof : eof.kind = .endOfInput) {fuel : Nat} (hfuel : d.size < fuel) :
    run automaton tokens fuel ⟨[], first, s, 0⟩ = (d.statements eof).mapError .fault := by
  obtain ⟨extra, rfl⟩ : ∃ extra, fuel = d.size + (extra + 1) :=
    ⟨fuel - d.size - 1, by omega⟩
  have hawaits := Automaton.awaits_initial valid
  rw [← heof] at hawaits
  have hpasses := passes_derivation valid d (c := ⟨[], first, s, 0⟩) hawaits rfl hreads
  rw [statements_eq_backwards]
  dsimp only at hpasses
  cases hresult : (d.evaluate .backwards eof).run 0 with
  | error fault =>
    rw [hresult] at hpasses
    exact hpasses (extra + 1)
  | ok result =>
    obtain ⟨values, anonymous⟩ := result
    rw [hresult] at hpasses
    obtain ⟨frames, hvalues, hcomplete, hrun⟩ := hpasses
    obtain ⟨state, hstate, haction⟩ := hcomplete.complete valid rfl
    have hreverse : frames.reverse = frames := by
      obtain ⟨frame, rfl⟩ := List.length_eq_one_iff.1
        ((List.length_reverse).symm.trans (length_of_valuesOf? hvalues))
      rfl
    rw [hreverse] at hvalues
    rw [List.append_nil] at hstate hrun
    rw [hrun, run]
    simp only [step, hstate, haction, AutomatonState.completion, accepted, hvalues]
    rfl

end Parser

open BlockDiagram.Parser

/-- On a source of tokens that make up a diagram, the parser does what the derivation says. -/
theorem statements_eq_of_derivation {source : String} {body : List Token} {eof : Token}
    (h : Lexer.tokenize source = .ok (body ++ [eof])) (d : Derivation [.nonterminal .start])
    (hd : d.tokens = body) : statements source = (d.statements eof).mapError .fault := by
  obtain ⟨first, s', body', eof', s'', hfirst, htokens, heof, -, hreads, hlength⟩ :=
    reads_of_tokens h
  obtain ⟨rfl, hlast⟩ := List.append_inj' htokens rfl
  obtain ⟨rfl, -⟩ := List.cons.inj hlast
  rw [statements, runFrom, hfirst]
  rw [← hd] at hreads
  refine run_derivation Automaton.ofGrammar_isValid d hreads heof ?_
  have hsize := d.size_le
  have hsource : (Lexer.State.start source).rest.length = source.length := String.length_toList
  rw [hsource] at hlength
  rw [fuelFor]
  rw [hd] at hsize
  omega

/-- What is parsed is a diagram, up to the end of the input. -/
theorem exists_tokens_of_statements {source : String} {ss : List (Source.Located Statement)}
    (hss : statements source = .ok ss) :
    ∃ body eof, Lexer.tokenize source = .ok (body ++ [eof]) ∧
      Grammar.Accepts (body.map Token.kind) := by
  rw [statements, runFrom] at hss
  split at hss
  · cases hss
  · next first s hfirst =>
    obtain ⟨body, eof, s', hreads, heof, hderives⟩ :=
      derives_of_run Automaton.ofGrammar_isValid hss Derives.done
    rw [List.nil_append] at hderives
    have hbody : ∀ t ∈ body, t.kind ≠ .endOfInput := by
      intro t ht hkind
      refine hderives.endOfInput_not_mem (by decide) ?_
      rw [← hkind]
      exact List.mem_map_of_mem ht
    exact ⟨body, eof, tokens_of_reads hfirst hreads hbody heof, hderives⟩

/-- The statements of a source are those of a derivation of its tokens. -/
theorem exists_derivation_of_statements {source : String} {ss : List (Source.Located Statement)}
    (hss : statements source = .ok ss) :
    ∃ (d : Derivation [.nonterminal .start]) (eof : Token),
      Lexer.tokenize source = .ok (d.tokens ++ [eof]) ∧ d.statements eof = .ok ss := by
  obtain ⟨body, eof, htokens, haccepts⟩ := exists_tokens_of_statements hss
  obtain ⟨d, rfl⟩ := haccepts.exists_derivation body rfl
  refine ⟨d, eof, htokens, ?_⟩
  rw [statements_eq_of_derivation htokens d rfl] at hss
  cases hresult : d.statements eof with
  | error fault =>
    rw [hresult] at hss
    cases hss
  | ok ss' =>
    rw [hresult] at hss
    cases hss
    rfl

/-- The statements of a source are well formed. -/
theorem wellFormed_of_statements {source : String} {ss : List (Source.Located Statement)}
    (hss : statements source = .ok ss) : WellFormed ss := by
  obtain ⟨d, eof, -, hd⟩ := exists_derivation_of_statements hss
  exact Derivation.wellFormed hd

/-- A derivation of the tokens of a source stands for statements when all numbers are in range. -/
theorem statements_ok_iff_inRange (d : Derivation [.nonterminal .start])
    (hd : ∀ t ∈ d.tokens, Lexer.HasOrigin t) (next : Token) :
    (∃ ss, d.statements next = .ok ss) ↔ ∀ t ∈ d.tokens, InRange t := by
  rw [statements_eq_backwards, ← run_evaluate_ok_iff .backwards d hd next 0]
  cases (d.evaluate .backwards next).run 0 with
  | error fault =>
    constructor
    · rintro ⟨ss, hss⟩
      cases hss
    · rintro ⟨values, m, hvalues, -⟩
      cases hvalues
  | ok result =>
    obtain ⟨values, m⟩ := result
    exact ⟨fun _ ↦ ⟨values, m, rfl, trivial⟩, fun _ ↦ ⟨_, rfl⟩⟩

/-- A source of tokens has statements when the kinds of its tokens, the end of the input apart, make
up a diagram and no number in them is too large. They are the statements that every derivation of
the tokens stands for. -/
theorem statements_of_tokenize {source : String} {tokens : List Token}
    (h : Lexer.tokenize source = .ok tokens) :
    ∃ body eof, tokens = body ++ [eof] ∧ eof.kind = .endOfInput ∧
      ((∃ ss, statements source = .ok ss) ↔
        Grammar.Accepts (body.map Token.kind) ∧ ∀ t ∈ body, InRange t) ∧
      ∀ ss, statements source = .ok ss →
        (∃ d : Derivation [.nonterminal .start], d.tokens = body) ∧
        ∀ d : Derivation [.nonterminal .start], d.tokens = body → d.statements eof = .ok ss := by
  obtain ⟨first, s', body, eof, s'', -, rfl, heof, -⟩ := reads_of_tokens h
  have horigin : ∀ t ∈ body, Lexer.HasOrigin t := fun t ht ↦
    Lexer.State.origin_of_mem_tokens h t (List.mem_append_left _ ht)
  have hresult : ∀ d : Derivation [.nonterminal .start], d.tokens = body → ∀ ss,
      statements source = .ok ss ↔ d.statements eof = .ok ss := by
    intro d hd ss
    rw [statements_eq_of_derivation h d hd]
    cases d.statements eof with
    | error fault =>
      constructor
      · intro h
        cases h
      · intro h
        cases h
    | ok ss' => exact ⟨fun h ↦ by cases h; rfl, fun h ↦ by cases h; rfl⟩
  have haccepts : ∀ ss, statements source = .ok ss → Grammar.Accepts (body.map Token.kind) := by
    intro ss hss
    obtain ⟨body', eof', htokens, haccepts⟩ := exists_tokens_of_statements hss
    rw [h] at htokens
    obtain ⟨rfl, -⟩ := List.append_inj' (Except.ok.inj htokens) rfl
    exact haccepts
  refine ⟨body, eof, rfl, heof, ⟨?_, ?_⟩, fun ss hss ↦ ⟨?_, fun d hd ↦ (hresult d hd ss).1 hss⟩⟩
  · rintro ⟨ss, hss⟩
    obtain ⟨d, hd⟩ := (haccepts ss hss).exists_derivation body rfl
    rw [← hd] at horigin
    have hrange := (statements_ok_iff_inRange d horigin eof).1 ⟨ss, (hresult d hd ss).1 hss⟩
    rw [hd] at hrange
    exact ⟨haccepts ss hss, hrange⟩
  · rintro ⟨haccepts, hrange⟩
    obtain ⟨d, hd⟩ := haccepts.exists_derivation body rfl
    rw [← hd] at horigin hrange
    obtain ⟨ss, hss⟩ := (statements_ok_iff_inRange d horigin eof).2 hrange
    exact ⟨ss, (hresult d hd ss).2 hss⟩
  · exact (haccepts ss hss).exists_derivation body rfl

/-- A column count makes up a diagram, and two columns are not too many. -/
theorem exists_statements_columns : ∃ ss, statements "block-beta columns 2" = .ok ss := by
  let opening : Token := ⟨.diagram, "block-beta", .between 0 10⟩
  let columns : Token := ⟨.columns, "columns 2", .between 11 20⟩
  let eof : Token := ⟨.endOfInput, "", .emptyAt 20⟩
  have htokenize : Lexer.tokenize "block-beta columns 2" = .ok [opening, columns, eof] :=
    eq_ok_of_toOption (by decide +kernel)
  obtain ⟨body, last, htokens, -, hiff, -⟩ := statements_of_tokenize htokenize
  change [opening, columns] ++ [eof] = body ++ [last] at htokens
  obtain ⟨rfl, -⟩ := List.append_inj' htokens rfl
  refine hiff.2 ⟨?_, ?_⟩
  · have hcolumns : Derives [.nonterminal .statement] [.columns] :=
      .nonterminal .columns (.terminal .done) .done
    have hdocument : Derives [.nonterminal .document] [.columns] :=
      .nonterminal .documentMore (hcolumns.append (.nonterminal .documentEnd .done .done)) .done
    exact .nonterminal .start (.terminal hdocument) .done
  · refine List.forall_mem_cons.2 ⟨fun limit hlimit ↦ ?_, List.forall_mem_singleton.2 ?_⟩
    · cases hlimit
    · rw [inRange_iff rfl]
      decide

end BlockDiagram
