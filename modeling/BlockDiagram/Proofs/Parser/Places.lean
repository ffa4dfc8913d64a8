import BlockDiagram.Proofs.Lexer.Bounds
import BlockDiagram.Proofs.Parser.Names
import BlockDiagram.Proofs.Parser.Termination

/-!
# Places of statements and faults

Where the statements of a source are, and the faults in it. The place of a part is from the first of
its symbols to the last, or in front of the next token when it has none, so it lies in the source
when its tokens do; a rule gives its statements this place or those that they have already
(`places_of_apply`). A fault is where the lexer fails or a token is (`exists_fault_of_statements`).
-/

namespace BlockDiagram

open Source (Located Span)

namespace Grammar

/-- The places of the statements in what a symbol stands for. -/
def Symbol.inner : (symbol : Symbol) → symbol.Meaning → List Span
  | .terminal _, _ => []
  | .nonterminal part, value =>
    match part, value with
    | .accept, statements | .start, statements | .document, statements | .statement, statements =>
      placesIn statements
    | .blockStatement, statement => placesIn [statement]
    | .nodeStatement, chain => placesIn chain.statements
    | .sizedNode, _ | .node, _ | .shape, _ | .directions, _ | .link, _ | .text, _ => []

/-- The places of the values of symbols, and of the statements in them. -/
def allPlaces : (symbols : List Symbol) → Values symbols → List Span
  | [], _ => []
  | symbol :: symbols, (value, values) =>
    value.span :: (symbol.inner value.value ++ allPlaces symbols values)

private theorem mem_allPlaces_of_mem_placesOf {symbols : List Symbol} {values : Values symbols}
    {place : Span} (h : place ∈ placesOf symbols values) : place ∈ allPlaces symbols values := by
  induction symbols with
  | nil => cases h
  | cons symbol symbols ih =>
    obtain ⟨value, values⟩ := values
    rcases List.mem_cons.1 h with rfl | hplace
    · exact List.mem_cons_self
    · exact List.mem_cons_of_mem _ (List.mem_append_right _ (ih hplace))

/-- The statements that a rule makes are where all of its symbols are, or where they were before. -/
theorem places_of_apply (p : Production) {span : Span} {values : Values p.rhs} {n m : Nat}
    {value : (Symbol.nonterminal p.lhs).Meaning}
    (h : (p.apply .forwards span values).run n = .ok (value, m)) :
    ∀ place ∈ (Symbol.nonterminal p.lhs).inner value,
      place = span ∨ place ∈ allPlaces p.rhs values := by
  cases p with
  | columns | space =>
    obtain ⟨token, ⟨⟩⟩ := values
    obtain ⟨count, rfl, rfl⟩ := eq_of_run_lift_map h
    exact List.forall_mem_singleton.2 (.inl rfl)
  | classDef | defaultClassDef | applyClass | applyStyle | title | description
  | descriptionBlock =>
    cases h
    exact List.forall_mem_singleton.2 (.inl rfl)
  | accept | start | block | nodes =>
    cases h
    intro place hplace
    simp only [Symbol.inner, allPlaces, List.mem_cons, List.mem_append] at hplace ⊢
    tauto
  | documentMore =>
    cases h
    intro place hplace
    simp only [Symbol.inner, Gathering.forwards, collect_append, allPlaces, List.mem_cons,
      List.mem_append] at hplace ⊢
    tauto
  | namedBlock | anonymousBlock =>
    cases h
    intro place hplace
    simp only [Symbol.inner, Gathering.forwards, composite, collect_composite, collect_nil, allPlaces,
      List.mem_cons, List.mem_append] at hplace ⊢
    tauto
  | chainStart =>
    cases h
    exact List.forall_mem_singleton.2 (.inr List.mem_cons_self)
  | chainLink =>
    cases h
    intro place hplace
    simp only [Symbol.inner, Chain.statements_more, collect_append, allPlaces, List.mem_append,
      List.mem_cons] at hplace ⊢
    rcases hplace with hplace | hplace
    · tauto
    · rcases List.mem_cons.1 hplace with hlink | hnode
      · tauto
      · have := List.mem_singleton.1 hnode
        tauto
  | documentEnd =>
    cases h
    exact List.forall_mem_nil _
  | sizedNode | lastDirection | moreDirections | unsizedNode | bareNode | shapedNode
  | labelledShape | emptyShape | arrowShape | plainLink | labelledLink | plainText
  | markdownText =>
    exact fun _ hplace ↦ by cases hplace

/-- Where parts that follow each other are lies in the source when the parts do. -/
theorem liesIn_cover {source : String} {places : List Span} {next : Token}
    (h : ∀ place ∈ places, place.LiesIn source) (hnext : next.span.LiesIn source) :
    (cover places next).LiesIn source := by
  rw [cover]
  split
  · next first last hfirst hlast =>
    exact (h first (List.mem_of_mem_head? hfirst)).union (h last (List.mem_of_mem_getLast? hlast))
  · exact hnext.emptyAt

/-- The values of a derivation are in the source, and the statements in them, when its tokens are. -/
theorem Derivation.liesIn_of_evaluate {source : String} {symbols : List Symbol}
    (d : Derivation symbols) (htokens : ∀ t ∈ d.tokens, t.span.LiesIn source) {next : Token}
    (hnext : next.span.LiesIn source) {n m : Nat} {values : Values symbols}
    (h : (d.evaluate .forwards next).run n = .ok (values, m)) :
    ∀ place ∈ allPlaces symbols values, place.LiesIn source := by
  induction d generalizing next n m with
  | nil => exact List.forall_mem_nil _
  | token t rest ih =>
    obtain ⟨ht, hrest⟩ := List.forall_mem_cons.1 htokens
    obtain ⟨others, hothers, rfl⟩ := run_evaluate_token_ok_iff.1 h
    exact List.forall_mem_cons.2 ⟨ht, ih hrest hnext hothers⟩
  | @rule symbols p inner rest hinner hrest =>
    obtain ⟨hleft, hright⟩ := List.forall_mem_append.1 htokens
    obtain ⟨parts, n₁, value, n₂, others, hparts, hvalue, hothers, rfl⟩ :=
      run_evaluate_rule_ok_iff.1 h
    have hfollowing : (rest.first next).span.LiesIn source := by
      rw [first]
      cases htokens : rest.tokens with
      | nil => exact hnext
      | cons t ts => exact hright t (htokens ▸ List.mem_cons_self)
    have hinside := hinner hleft hfollowing hparts
    have hcover := liesIn_cover (fun place hplace ↦
      hinside place (mem_allPlaces_of_mem_placesOf hplace)) hfollowing
    refine List.forall_mem_cons.2 ⟨hcover, List.forall_mem_append.2 ⟨fun place hplace ↦ ?_, ?_⟩⟩
    · rcases places_of_apply p hvalue place hplace with rfl | hplace
      · exact hcover
      · exact hinside place hplace
    · exact hrest hright hnext hothers

end Grammar

open BlockDiagram.Parser Grammar

/-- The statements of a source are in it, also those inside composites. -/
theorem liesIn_of_statements {source : String} {ss : List (Located Statement)}
    (hss : statements source = .ok ss) : ∀ place ∈ placesIn ss, place.LiesIn source := by
  obtain ⟨d, eof, htokens, hd⟩ := exists_derivation_of_statements hss
  obtain ⟨htokens, heof⟩ :=
    List.forall_mem_append.1 (Lexer.State.IsIn.tokens (.start source) htokens)
  obtain ⟨values, n, hvalues, rfl⟩ := Derivation.exists_evaluate_of_statements hd
  intro place hplace
  refine d.liesIn_of_evaluate htokens (heof eof (List.mem_singleton_self eof)) hvalues place ?_
  exact List.mem_cons_of_mem _ (List.mem_append_left _ hplace)

/-- What reading a source fails with is a fault, which lies in the source. One that is found in front
of the document states its line and column. -/
theorem exists_fault_of_statements {source : String} {failure : Failure}
    (h : statements source = .error failure) :
    ∃ fault, failure = .fault fault ∧ fault.span.LiesIn source ∧
      (fault.code.stage ≠ .semantic → fault.isPositioned = true) := by
  have hlexed : ∀ {s : Lexer.State} {fault : Fault}, s.IsIn source → lexed s = .error fault →
      fault.span.LiesIn source ∧ fault.isPositioned = true := by
    intro s fault hs hfault
    obtain ⟨u, hnext, rfl⟩ := lexed_eq_error_iff.1 hfault
    exact ⟨hs.unmatched hnext, rfl⟩
  have hstart := Lexer.State.IsIn.start source
  rcases runFrom_error_cases h with rfl | ⟨fault, hfirst, rfl⟩ | ⟨before, c, hreaches, hstep⟩
  · exact absurd h (statements_ne_unfinished source)
  · obtain ⟨hspan, hpositioned⟩ := hlexed hstart hfirst
    exact ⟨fault, rfl, hspan, fun _ ↦ hpositioned⟩
  · obtain ⟨hlookahead, hstack, hsource⟩ := holds_of_reaches
      (P := fun kind t ↦ NamesDirection kind t ∧ t.span.LiesIn source)
      (I := fun s ↦ s.IsIn source)
      (fun s t s' hs ht ↦ ⟨⟨namesDirection_of_lexed ht, (hs.next (lexed_eq_ok_iff.1 ht)).2⟩,
        (hs.next (lexed_eq_ok_iff.1 ht)).1⟩) hstart hreaches
    rcases step_error_cases hstep with rfl | ⟨state, -, -, rfl⟩ | ⟨_, _, fault, -, -, htoken, rfl⟩ |
      ⟨p, frames, values, span, fault, hframes, hvalues, happly, rfl⟩
    · exact absurd hstep (isSafe_of_reaches Automaton.ofGrammar_isValid
        Automaton.ofGrammar_isGrounded hreaches).ne_stuck
    · exact ⟨_, rfl, hlookahead.2, fun _ ↦ rfl⟩
    · obtain ⟨hspan, hpositioned⟩ := hlexed hsource htoken
      exact ⟨fault, rfl, hspan, fun _ ↦ hpositioned⟩
    · have hall := allTokens_of_valuesOf? (fun frame hframe ↦ hstack frame (hframes frame hframe))
        hvalues
      rcases fault_of_apply p happly with ⟨t, rfl, htoken⟩ | ⟨-, hnot⟩
      · obtain ⟨kind, -, hspan⟩ := htoken _ hall
        exact ⟨_, rfl, hspan, fun hstage ↦ absurd rfl hstage⟩
      · exact absurd (hall.imp fun _ _ h ↦ h.1) hnot

end BlockDiagram
