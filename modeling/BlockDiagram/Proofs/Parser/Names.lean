import BlockDiagram.Proofs.Parser.Statements

/-!
# The names in a source

Which names the statements of a source declare: those of its node id tokens, and one for every
composite that is written without a name (`exists_names_of_statements`). The names that are written
have no dash in them, so no one can write a name that is made up.
-/

namespace BlockDiagram

open Source (Located)

/-- The id of the node that a statement is, if it is one. -/
def Statement.nodes : Statement → List String
  | .node decl => [decl.id]
  | _ => []

/-- The ids of the nodes in statements, in order. -/
abbrev nodesIn (statements : List (Located Statement)) : List String :=
  collect (fun s ↦ s.value.nodes) statements

/-- The id of the composite that a statement is, if it is one. -/
def Statement.heads : Statement → List String
  | .composite head _ => [head.id]
  | _ => []

/-- The ids of the composites in statements, in order. -/
abbrev headsIn (statements : List (Located Statement)) : List String :=
  collect (fun s ↦ s.value.heads) statements

/-- What is declared are nodes and composites. -/
theorem perm_namesIn (ss : List (Located Statement)) :
    (namesIn ss).Perm (nodesIn ss ++ headsIn ss) := by
  have hnames : (fun s : Located Statement ↦ s.value.names) =
      fun s ↦ s.value.nodes ++ s.value.heads := by
    funext ⟨statement, span⟩
    cases statement <;> rfl
  rw [namesIn, hnames]
  exact collect_perm_append ss

/-- The statements of a chain declare no composites. -/
theorem Chain.headsIn_statements (chain : Chain) : headsIn chain.statements = [] := by
  induction chain with
  | first node => rfl
  | more chain link node ih =>
    rw [headsIn] at ih ⊢
    rw [statements_more, collect_append, ih]
    rfl

namespace Grammar

open Token (Kind)

/-- The ids of the nodes in what a symbol stands for. A token with an id in it counts as a node. -/
def Symbol.nodes : (symbol : Symbol) → symbol.Meaning → List String
  | .terminal kind, token => if kind = .nodeId then [token.text] else []
  | .nonterminal part, value =>
    match part, value with
    | .accept, statements | .start, statements | .document, statements | .statement, statements =>
      nodesIn statements
    | .blockStatement, statement => nodesIn [statement]
    | .nodeStatement, chain => nodesIn chain.statements
    | .sizedNode, node | .node, node => [node.id]
    | .shape, _ | .directions, _ | .link, _ | .text, _ => []

/-- The ids of the composites in what a symbol stands for. -/
def Symbol.heads : (symbol : Symbol) → symbol.Meaning → List String
  | .terminal _, _ => []
  | .nonterminal part, value =>
    match part, value with
    | .accept, statements | .start, statements | .document, statements | .statement, statements =>
      headsIn statements
    | .blockStatement, statement => headsIn [statement]
    | .nodeStatement, _ | .sizedNode, _ | .node, _ | .shape, _ | .directions, _ | .link, _
    | .text, _ => []

/-- The ids of the nodes in what a run of symbols stands for, in order. -/
def nodesOf : (symbols : List Symbol) → Values symbols → List String
  | [], _ => []
  | symbol :: symbols, (value, values) => symbol.nodes value.value ++ nodesOf symbols values

/-- The ids of the composites in what a run of symbols stands for, in order. -/
def headsOf : (symbols : List Symbol) → Values symbols → List String
  | [], _ => []
  | symbol :: symbols, (value, values) => symbol.heads value.value ++ headsOf symbols values

/-- The ids that are written in tokens, in order. -/
def writtenIds (tokens : List Token) : List String :=
  (tokens.filter fun t ↦ t.kind = .nodeId).map Token.text

/-- The number of composites without names that tokens begin. -/
def openings (tokens : List Token) : Nat :=
  (tokens.map Token.kind).count .block

/-- The names for `count` composites behind the first `n` ones. -/
def anonymousIds (n count : Nat) : List String :=
  (List.range' (n + 1) count).map anonymousId

/-- The name of a composite that is written without one ends in a dash and its number. -/
theorem toList_anonymousId (n : Nat) :
    (anonymousId n).toList = "block-".toList ++ Nat.toDigits 10 n := by
  simp [anonymousId, toString, Nat.toList_repr]

/-- Names that are given to composites without one have a dash in them. -/
theorem dash_mem_of_mem_anonymousIds {n count : Nat} {id : String}
    (h : id ∈ anonymousIds n count) : '-' ∈ id.toList := by
  obtain ⟨m, -, rfl⟩ := List.mem_map.1 h
  rw [toList_anonymousId]
  exact List.mem_append_left _ (by decide)

private theorem anonymousIds_append (n count more : Nat) :
    anonymousIds n count ++ anonymousIds (n + count) more = anonymousIds n (count + more) := by
  have hstart : n + count + 1 = n + 1 + count := by omega
  rw [anonymousIds, anonymousIds, anonymousIds, ← List.map_append, hstart, List.range'_append_1]

/-- Holds when the ids that are written are those of nodes and of some composites, and the other
composites have the given names. -/
def Accounts (nodes heads written anonymous : List String) : Prop :=
  ∃ named : List String, (nodes ++ named).Perm written ∧ heads.Perm (named ++ anonymous)

namespace Accounts

variable {nodes nodes' heads heads' written written' anonymous anonymous' : List String}

private theorem of_eq (hnodes : nodes = written) (hheads : heads = anonymous) :
    Accounts nodes heads written anonymous :=
  ⟨[], by rw [List.append_nil, hnodes], by rw [List.nil_append, hheads]⟩

/-- Names are accounted for when each one is as often. -/
theorem iff_exists_count : Accounts nodes heads written anonymous ↔
    ∃ named : List String, ∀ id, nodes.count id + named.count id = written.count id ∧
      heads.count id = named.count id + anonymous.count id := by
  simp only [Accounts, List.perm_iff_count, List.count_append, forall_and]

private theorem append (h : Accounts nodes heads written anonymous)
    (h' : Accounts nodes' heads' written' anonymous') :
    Accounts (nodes ++ nodes') (heads ++ heads') (written ++ written')
      (anonymous ++ anonymous') := by
  rw [iff_exists_count] at *
  obtain ⟨named, h⟩ := h
  obtain ⟨named', h'⟩ := h'
  refine ⟨named ++ named', fun id ↦ ?_⟩
  have := h id
  have := h' id
  simp only [List.count_append]
  omega

/-- What is counted as written in one step may be made up of parts before. -/
theorem trans (h : Accounts nodes heads nodes' (heads' ++ anonymous))
    (h' : Accounts nodes' heads' written anonymous') :
    Accounts nodes heads written (anonymous' ++ anonymous) := by
  rw [iff_exists_count] at *
  obtain ⟨named, h⟩ := h
  obtain ⟨named', h'⟩ := h'
  refine ⟨named ++ named', fun id ↦ ?_⟩
  have := h id
  have := h' id
  simp only [List.count_append] at *
  omega

/-- A name is written, or it is that of a composite without one. -/
theorem mem_or_mem {ss : List (Located Statement)}
    (h : Accounts (nodesIn ss) (headsIn ss) written anonymous) {id : String}
    (hid : id ∈ namesIn ss) : id ∈ written ∨ id ∈ anonymous := by
  obtain ⟨named, hwritten, hheads⟩ := h
  rw [(perm_namesIn ss).mem_iff, List.mem_append, hheads.mem_iff, List.mem_append] at hid
  rw [← hwritten.mem_iff, List.mem_append]
  tauto

end Accounts

/-- A rule makes a value with the names in the values of its symbols. Only for a composite without a
name there is a new one. -/
theorem accounts_of_apply (p : Production) {span : Source.Span} {values : Values p.rhs} {n m : Nat}
    {value : (Symbol.nonterminal p.lhs).Meaning}
    (h : (p.apply .forwards span values).run n = .ok (value, m)) :
    m = n + p.rhs.count (.terminal .block) ∧
      Accounts ((Symbol.nonterminal p.lhs).nodes value) ((Symbol.nonterminal p.lhs).heads value)
        (nodesOf p.rhs values)
        (headsOf p.rhs values ++ anonymousIds n (p.rhs.count (.terminal .block))) := by
  cases p with
  | columns =>
    obtain ⟨token, ⟨⟩⟩ := values
    obtain ⟨count, rfl, rfl⟩ := eq_of_run_lift_map h
    exact ⟨rfl, .of_eq rfl rfl⟩
  | space =>
    obtain ⟨token, ⟨⟩⟩ := values
    obtain ⟨count, rfl, rfl⟩ := eq_of_run_lift_map h
    exact ⟨rfl, .of_eq rfl rfl⟩
  | sizedNode =>
    obtain ⟨node, width, ⟨⟩⟩ := values
    obtain ⟨columns, rfl, rfl⟩ := eq_of_run_lift_map h
    exact ⟨rfl, .of_eq rfl rfl⟩
  | lastDirection =>
    obtain ⟨token, ⟨⟩⟩ := values
    obtain ⟨direction, rfl, rfl⟩ := eq_of_run_lift_map h
    exact ⟨rfl, .of_eq rfl rfl⟩
  | moreDirections =>
    obtain ⟨token, directions, ⟨⟩⟩ := values
    obtain ⟨direction, rfl, rfl⟩ := eq_of_run_lift_map h
    exact ⟨rfl, .of_eq rfl rfl⟩
  | accept | start | block =>
    cases h
    refine ⟨rfl, .of_eq (List.append_nil _).symm ?_⟩
    exact ((List.append_nil _).trans (List.append_nil _)).symm
  | nodes =>
    cases h
    exact ⟨rfl, .of_eq (List.append_nil _).symm (Chain.headsIn_statements _)⟩
  | documentMore =>
    obtain ⟨statement, document, ⟨⟩⟩ := values
    cases h
    refine ⟨rfl, .of_eq ?_ ?_⟩
    · change nodesIn (statement.value ++ document.value) =
        nodesIn statement.value ++ (nodesIn document.value ++ [])
      rw [nodesIn, collect_append, List.append_nil]
    · change headsIn (statement.value ++ document.value) =
        headsIn statement.value ++ (headsIn document.value ++ []) ++ []
      rw [headsIn, collect_append, List.append_nil, List.append_nil]
  | chainLink =>
    obtain ⟨chain, link, node, ⟨⟩⟩ := values
    cases h
    refine ⟨rfl, .of_eq ?_ rfl⟩
    change nodesIn (Chain.more chain.value link node).statements =
      nodesIn chain.value.statements ++ [node.value.id]
    rw [Chain.statements_more, nodesIn, collect_append]
    rfl
  | namedBlock =>
    obtain ⟨opening, head, body, closing, ⟨⟩⟩ := values
    cases h
    refine ⟨rfl, [head.value.id], ?_, ?_⟩
    · change ((nodesIn body.value ++ []) ++ [head.value.id]).Perm
        (head.value.id :: (nodesIn body.value ++ []))
      exact List.perm_append_singleton _ _
    · exact .of_eq (List.append_nil _).symm
  | anonymousBlock =>
    obtain ⟨opening, body, closing, ⟨⟩⟩ := values
    cases h
    refine ⟨rfl, [], ?_, ?_⟩
    · change ((nodesIn body.value ++ []) ++ []).Perm (nodesIn body.value ++ [])
      rw [List.append_nil]
    · change (anonymousId (n + 1) :: (headsIn body.value ++ [])).Perm
        ((headsIn body.value ++ []) ++ [anonymousId (n + 1)])
      exact (List.perm_append_singleton _ _).symm
  | _ =>
    cases h
    exact ⟨rfl, .of_eq rfl rfl⟩

private theorem writtenIds_append (front back : List Token) :
    writtenIds (front ++ back) = writtenIds front ++ writtenIds back := by
  rw [writtenIds, List.filter_append, List.map_append]
  rfl

private theorem openings_append (front back : List Token) :
    openings (front ++ back) = openings front + openings back := by
  rw [openings, List.map_append, List.count_append]
  rfl

private theorem writtenIds_singleton (t : Token) :
    writtenIds [t] = Symbol.nodes (.terminal t.kind) t := by
  simp only [writtenIds, Symbol.nodes, List.filter_cons, List.filter_nil, decide_eq_true_eq]
  split <;> rfl

private theorem openings_singleton (t : Token) :
    openings [t] = [Symbol.terminal t.kind].count (.terminal .block) := by
  rw [openings, List.map_singleton, List.count_singleton, List.count_singleton]
  by_cases hkind : t.kind = .block
  · rw [hkind]
    rfl
  · rw [if_neg (by simpa using hkind), if_neg (by simpa using hkind)]

/-- What symbols stand for has the names that their tokens write, and those made up on the way. -/
theorem Derivation.accounts_of_evaluate {symbols : List Symbol} (d : Derivation symbols)
    {next : Token} {n m : Nat} {values : Values symbols}
    (h : (d.evaluate .forwards next).run n = .ok (values, m)) :
    ∃ count, m = n + count ∧ openings d.tokens = count + symbols.count (.terminal .block) ∧
      Accounts (nodesOf symbols values) (headsOf symbols values) (writtenIds d.tokens)
        (anonymousIds n count) := by
  induction d generalizing next n m with
  | nil =>
    cases h
    exact ⟨0, rfl, rfl, .of_eq rfl rfl⟩
  | @token symbols t rest ih =>
    obtain ⟨others, hothers, rfl⟩ := run_evaluate_token_ok_iff.1 h
    obtain ⟨count, rfl, hopenings, haccounts⟩ := ih hothers
    have htoken : Accounts (Symbol.nodes (.terminal t.kind) t) [] (writtenIds [t]) [] :=
      .of_eq (writtenIds_singleton t).symm rfl
    refine ⟨count, rfl, ?_, ?_⟩
    · have hfirst : openings (t :: rest.tokens) = openings [t] + openings rest.tokens :=
        openings_append [t] rest.tokens
      have hsymbols : (Symbol.terminal t.kind :: symbols).count (.terminal .block) =
          [Symbol.terminal t.kind].count (.terminal .block) + symbols.count (.terminal .block) := by
        rw [← List.count_append, List.singleton_append]
      rw [tokens, hfirst, hopenings, openings_singleton, hsymbols]
      omega
    · have hfirst : writtenIds (t :: rest.tokens) = writtenIds [t] ++ writtenIds rest.tokens :=
        writtenIds_append [t] rest.tokens
      rw [tokens, hfirst]
      exact htoken.append haccounts
  | @rule symbols p inner rest hinner hrest =>
    obtain ⟨parts, n₁, value, n₂, others, hparts, hvalue, hothers, rfl⟩ :=
      run_evaluate_rule_ok_iff.1 h
    obtain ⟨count, rfl, hopenings, haccounts⟩ := hinner hparts
    obtain ⟨rfl, hmakes⟩ := accounts_of_apply p hvalue
    obtain ⟨count', rfl, hopenings', haccounts'⟩ := hrest hothers
    -- Names are made up for the parts of the rule first, then for the rule, then behind it.
    refine ⟨count + p.rhs.count (.terminal .block) + count', by omega, ?_, ?_⟩
    · rw [tokens, openings_append, hopenings, hopenings', List.count_cons_of_ne Symbol.noConfusion]
      omega
    · have hall := (hmakes.trans haccounts).append haccounts'
      rw [anonymousIds_append, Nat.add_assoc n, anonymousIds_append] at hall
      rw [tokens, writtenIds_append]
      exact hall

end Grammar

open Grammar

/-- The names in a source are those that are written in its tokens, of nodes and of some composites,
and one for every composite without a name. What is written has no dash in it. -/
theorem exists_names_of_statements {source : String} {ss : List (Located Statement)}
    (hss : statements source = .ok ss) :
    ∃ tokens, Lexer.tokenize source = .ok tokens ∧
      Accounts (nodesIn ss) (headsIn ss) (writtenIds tokens) (anonymousIds 0 (openings tokens)) ∧
      ∀ id ∈ writtenIds tokens, id ≠ "" ∧ '-' ∉ id.toList := by
  obtain ⟨d, eof, htokens, hd⟩ := exists_derivation_of_statements hss
  obtain ⟨_, _, body, eof', _, -, hbody, heof, -⟩ := Parser.reads_of_tokens htokens
  obtain ⟨rfl, hlast⟩ := List.append_inj' hbody rfl
  obtain ⟨rfl, -⟩ := List.cons.inj hlast
  have hend : writtenIds (d.tokens ++ [eof]) = writtenIds d.tokens ∧
      openings (d.tokens ++ [eof]) = openings d.tokens := by
    rw [writtenIds_append, openings_append, writtenIds_singleton, openings_singleton, heof]
    exact ⟨List.append_nil _, rfl⟩
  refine ⟨d.tokens ++ [eof], htokens, ?_, fun id hid ↦ ?_⟩
  · obtain ⟨values, n, hvalues, rfl⟩ := Derivation.exists_evaluate_of_statements hd
    obtain ⟨count, -, hopenings, haccounts⟩ := d.accounts_of_evaluate hvalues
    rw [hend.1, hend.2, hopenings]
    simpa [nodesOf, headsOf, Symbol.nodes, Symbol.heads] using haccounts
  · obtain ⟨t, ht, rfl⟩ := List.mem_map.1 hid
    obtain ⟨hmem, hkind⟩ := List.mem_filter.1 ht
    exact (Lexer.State.origin_of_mem_tokens htokens t hmem).nodeId_text (of_decide_eq_true hkind)

end BlockDiagram
