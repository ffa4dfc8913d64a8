import BlockDiagram.Proofs.Lexer.Pieces
import BlockDiagram.Proofs.Parser.Names
import BlockDiagram.Proofs.Parser.Phrases

/-!
# Statements are read from tokens

The statements of a source are read from its tokens, phrase by phrase (`areReadFrom_of_statements`).
A rule puts together what its symbols are read from (`isFaithful`), and its place is that of
its tokens since these lie one behind the other (`frames_cover`).
-/

namespace BlockDiagram

open Source (Located Span)
open Token (Kind)

/-- Holds for tokens that lie one behind the other. -/
def InOrder (ts : List Token) : Prop :=
  ts.Pairwise fun t t' ↦ t.span.stop ≤ t'.span.start

variable {ts front back : List Token}

namespace InOrder

/-- Tokens in order are in order in both parts, the first of which lies in front of the second. -/
theorem of_append (h : InOrder (front ++ back)) :
    InOrder front ∧ InOrder back ∧ ∀ t ∈ front, ∀ t' ∈ back, t.span.stop ≤ t'.span.start :=
  List.pairwise_append.1 h

/-- No token starts in front of the first one. -/
theorem start_le {first : Token} (h : InOrder ts) (hfirst : ts.head? = some first) :
    ∀ t ∈ ts, first.span.start ≤ t.span.start := by
  obtain ⟨rest, rfl⟩ := List.head?_eq_some_iff.1 hfirst
  have hrest := (List.pairwise_cons.1 h).1
  refine List.forall_mem_cons.2 ⟨Nat.le_refl _, fun t ht ↦ ?_⟩
  exact Nat.le_trans first.span.start_le_stop (hrest t ht)

/-- No token ends behind the last one. -/
theorem stop_le {last : Token} (h : InOrder ts) (hlast : ts.getLast? = some last) :
    ∀ t ∈ ts, t.span.stop ≤ last.span.stop := by
  obtain ⟨init, rfl⟩ := List.getLast?_eq_some_iff.1 hlast
  obtain ⟨-, -, hinit⟩ := h.of_append
  refine List.forall_mem_append.2 ⟨fun t ht ↦ ?_, List.forall_mem_singleton.2 (Nat.le_refl _)⟩
  exact Nat.le_trans (hinit t ht last (List.mem_singleton_self last)) last.span.start_le_stop

end InOrder

namespace Source.Span.Frames

variable {span other : Span}

/-- A place that frames tokens starts with the first of them. -/
theorem exists_start (h : span.Frames ts) :
    ∃ first, ts.head? = some first ∧ first.span.start = span.start :=
  Option.map_eq_some_iff.1 h.start_eq

/-- A place that frames tokens ends with the last of them. -/
theorem exists_stop (h : span.Frames ts) :
    ∃ last, ts.getLast? = some last ∧ last.span.stop = span.stop :=
  Option.map_eq_some_iff.1 h.stop_eq

/-- The place from the first part of a text to the last one is that of the whole. -/
theorem union (h : span.Frames front) (h' : other.Frames back) (hfront : front <+: ts)
    (hback : back <:+ ts) (hts : InOrder ts) : (span.union other).Frames ts := by
  obtain ⟨first, hfirst, hstart⟩ := h.exists_start
  obtain ⟨t, ht, hstop⟩ := h.exists_stop
  obtain ⟨t', ht', hstart'⟩ := h'.exists_start
  obtain ⟨last, hlast, hstop'⟩ := h'.exists_stop
  have hhead : ts.head? = some first := by
    obtain ⟨rest, rfl⟩ := hfront
    rw [List.head?_append, hfirst, Option.some_or]
  have hend : ts.getLast? = some last := by
    obtain ⟨init, rfl⟩ := hback
    rw [List.getLast?_append, hlast, Option.some_or]
  have hle := hts.start_le hhead t' (hback.subset (List.mem_of_mem_head? ht'))
  have hle' := hts.stop_le hend t (hfront.subset (List.mem_of_mem_getLast? ht))
  constructor
  · rw [hhead, start_union, Option.map_some, ← hstart, ← hstart', Nat.min_eq_left hle]
  · rw [hend, stop_union, Option.map_some, ← hstop, ← hstop', Nat.max_eq_right hle']

end Source.Span.Frames

namespace Grammar

/-- Holds for symbols that begin and end in tokens of their own. -/
def Symbol.isFramed : Symbol → Bool
  | .nonterminal .accept | .nonterminal .start | .nonterminal .document => false
  | _ => true

/-- Holds for what a symbol stands for if it is read from tokens. -/
def Symbol.IsReadFrom : (symbol : Symbol) → symbol.Meaning → List Token → Prop
  | .terminal kind, t, ts => ts = [t] ∧ t.kind = kind
  | .nonterminal part, value, ts =>
    match part, value with
    | .accept, ss | .start, ss =>
      ∃ opening rest, ts = opening :: rest ∧ opening.kind = .diagram ∧ AreReadFrom ss rest
    | .document, ss | .statement, ss => AreReadFrom ss ts
    | .blockStatement, s => AreReadFrom [s] ts
    | .nodeStatement, chain =>
      ∃ phrase : NodeStatement, phrase.tokens = ts ∧ phrase.Yields chain.statements
    | .sizedNode, node => node.IsReadFrom ts
    | .node, node => node.IsNamedBy ts
    | .shape, shape => shape.IsReadFrom ts
    | .directions, directions => AreDirections directions ts
    | .link, link => link.IsReadFrom ts
    | .text, label => label.IsReadFrom ts

/-- Holds for what a run of symbols stands for if it is read from tokens, one symbol behind the
other. -/
def AllReadFrom : (symbols : List Symbol) → Values symbols → List Token → Prop
  | [], _, ts => ts = []
  | symbol :: symbols, (value, values), ts => ∃ front back, ts = front ++ back ∧
      symbol.IsReadFrom value.value front ∧
      (symbol.isFramed = true → value.span.Frames front) ∧ AllReadFrom symbols values back

/-! ### Places -/

/-- The last of the places of symbols is that of the last tokens. -/
theorem AllReadFrom.exists_last {symbols : List Symbol} {values : Values symbols}
    (h : AllReadFrom symbols values ts) (hlast : symbols.getLast?.any Symbol.isFramed = true) :
    ∃ place back, (placesOf symbols values).getLast? = some place ∧ back <:+ ts ∧
      place.Frames back := by
  induction symbols generalizing ts with
  | nil => cases hlast
  | cons symbol symbols ih =>
    obtain ⟨value, values⟩ := values
    obtain ⟨front, back, rfl, -, hframes, hrest⟩ := h
    cases symbols with
    | nil =>
      obtain rfl : back = [] := hrest
      rw [List.append_nil]
      exact ⟨value.span, front, rfl, List.suffix_refl front, hframes hlast⟩
    | cons second symbols =>
      obtain ⟨value', values⟩ := values
      rw [List.getLast?_cons_cons] at hlast
      obtain ⟨place, last, hplace, hsuffix, hlast⟩ := ih hrest hlast
      refine ⟨place, last, ?_, hsuffix.trans (List.suffix_append front back), hlast⟩
      rw [placesOf, placesOf, List.getLast?_cons_cons]
      exact hplace

/-- The place of symbols is that of their tokens. -/
theorem frames_cover {symbols : List Symbol} {values : Values symbols}
    (h : AllReadFrom symbols values ts) (hfirst : symbols.head?.any Symbol.isFramed = true)
    (hlast : symbols.getLast?.any Symbol.isFramed = true) (hts : InOrder ts) (next : Token) :
    (cover (placesOf symbols values) next).Frames ts := by
  obtain ⟨place, back, hplace, hback, hend⟩ := h.exists_last hlast
  cases symbols with
  | nil => cases hfirst
  | cons symbol symbols =>
    -- The places between the first and the last one do not count: a document may have none.
    obtain ⟨value, values⟩ := values
    obtain ⟨front, rest, rfl, -, hframes, -⟩ := h
    rw [cover, hplace]
    exact (hframes hfirst).union hend (List.prefix_append front rest) hback hts

/-- A part that begins and ends in tokens of its own has them from the first and the last symbol of
its rule. -/
theorem isFramed_rhs (p : Production) (h : (Symbol.nonterminal p.lhs).isFramed = true) :
    p.rhs.head?.any Symbol.isFramed = true ∧ p.rhs.getLast?.any Symbol.isFramed = true := by
  cases p <;> first | decide | cases h

/-! ### Rules -/

section

variable {symbols : List Symbol} {kind : Kind} {span : Span}

private theorem AllReadFrom.token_cases {values : Values (.terminal kind :: symbols)}
    (h : AllReadFrom (.terminal kind :: symbols) values ts) :
    ∃ back, ts = values.1.value :: back ∧ values.1.value.kind = kind ∧
      AllReadFrom symbols values.2 back := by
  obtain ⟨front, back, rfl, ⟨rfl, hkind⟩, -, hrest⟩ := h
  exact ⟨back, rfl, hkind, hrest⟩

private theorem AllReadFrom.part_cases {part : Nonterminal}
    {values : Values (.nonterminal part :: symbols)}
    (h : AllReadFrom (.nonterminal part :: symbols) values ts) :
    ∃ front back, ts = front ++ back ∧ (Symbol.nonterminal part).IsReadFrom values.1.value front ∧
      AllReadFrom symbols values.2 back := by
  obtain ⟨front, back, rfl, hpart, -, hrest⟩ := h
  exact ⟨front, back, rfl, hpart, hrest⟩

private theorem AllReadFrom.two {kind' : Kind} {values : Values [.terminal kind, .terminal kind']}
    (h : AllReadFrom [.terminal kind, .terminal kind'] values ts) :
    ts = [values.1.value, values.2.1.value] ∧
      [values.1.value, values.2.1.value].map Token.kind = [kind, kind'] := by
  obtain ⟨_, rfl, hkind, h⟩ := h.token_cases
  obtain ⟨_, rfl, hkind', rfl⟩ := h.token_cases
  exact ⟨rfl, by rw [← hkind, ← hkind']; rfl⟩

private theorem AllReadFrom.three {kind' kind'' : Kind}
    {values : Values [.terminal kind, .terminal kind', .terminal kind'']}
    (h : AllReadFrom [.terminal kind, .terminal kind', .terminal kind''] values ts) :
    ts = [values.1.value, values.2.1.value, values.2.2.1.value] ∧
      [values.1.value, values.2.1.value, values.2.2.1.value].map Token.kind =
        [kind, kind', kind''] := by
  obtain ⟨_, rfl, hkind, h⟩ := h.token_cases
  obtain ⟨rfl, hkinds⟩ := h.two
  exact ⟨rfl, by rw [← hkind, ← hkinds]; rfl⟩

private theorem areReadFrom_single {statement : Statement} (h : statement.IsReadFrom ts)
    (hframes : span.Frames ts) : AreReadFrom (single statement span) ts := by
  have hsingle := AreReadFrom.single h hframes .nil
  rwa [List.append_nil] at hsingle

private theorem areReadFrom_composite {head : NodeDecl} {body : List (Located Statement)}
    {opening inside : List Token} {closing : Token} (hhead : head.IsOpenedBy opening)
    (hbody : AreReadFrom body inside) (hclosing : closing.kind = .blockEnd)
    (hframes : span.Frames (opening ++ (inside ++ [closing]))) :
    AreReadFrom [⟨.composite head body, span⟩] (opening ++ (inside ++ [closing])) := by
  rw [← List.append_assoc] at hframes ⊢
  have hcomposite := AreReadFrom.composite hhead hbody hclosing hframes .nil
  rwa [List.append_nil] at hcomposite

/-- Holds for rules that make what is read from their tokens when their symbols are read from
these. -/
def Production.IsFaithful (p : Production) : Prop :=
  ∀ {ts : List Token} {span : Span} {values : Values p.rhs} {n m : Nat}
    {value : (Symbol.nonterminal p.lhs).Meaning}, AllReadFrom p.rhs values ts →
    ((Symbol.nonterminal p.lhs).isFramed = true → span.Frames ts) →
    (p.apply .forwards span values).run n = .ok (value, m) →
    (Symbol.nonterminal p.lhs).IsReadFrom value ts

section

variable {p : Production}

/-- A document is the statements behind its keyword, one behind the other. -/
theorem isFaithful_document (hlhs : p.lhs = .accept ∨ p.lhs = .start ∨ p.lhs = .document) :
    p.IsFaithful := by
  intro ts span values n m value h hframes hvalue
  cases p with
  | accept =>
    obtain ⟨front, _, rfl, hpart, rfl⟩ := h.part_cases
    cases hvalue
    rw [List.append_nil]
    exact hpart
  | start =>
    obtain ⟨_, rfl, hopening, hrest⟩ := h.token_cases
    obtain ⟨document, _, rfl, hdocument, rfl⟩ := hrest.part_cases
    cases hvalue
    rw [List.append_nil]
    exact ⟨_, document, rfl, hopening, hdocument⟩
  | documentEnd =>
    obtain rfl : ts = [] := h
    cases hvalue
    exact .nil
  | documentMore =>
    obtain ⟨front, _, rfl, hstatement, hrest⟩ := h.part_cases
    obtain ⟨document, _, rfl, hdocument, rfl⟩ := hrest.part_cases
    cases hvalue
    rw [List.append_nil]
    exact hstatement.append hdocument
  | _ => rcases hlhs with hlhs | hlhs | hlhs <;> cases hlhs

/-- A single statement is made of its tokens, and its place is that of these. -/
theorem isFaithful_statement (hlhs : p.lhs = .statement) : p.IsFaithful := by
  intro ts span values n m value h hframes hvalue
  cases p with
  | block =>
    obtain ⟨front, _, rfl, hpart, rfl⟩ := h.part_cases
    cases hvalue
    rw [List.append_nil]
    exact hpart
  | nodes =>
    obtain ⟨_, _, rfl, ⟨phrase, rfl, hyields⟩, rfl⟩ := h.part_cases
    cases hvalue
    have hnodes := AreReadFrom.nodes hyields .nil
    rwa [List.append_nil] at hnodes
  | columns =>
    obtain ⟨token, ⟨⟩⟩ := values
    obtain ⟨_, rfl, hkind, rfl⟩ := h.token_cases
    obtain ⟨count, hcount, rfl, -⟩ := ok_of_run_lift_map hvalue
    exact areReadFrom_single (.columns hkind hcount) (hframes rfl)
  | space =>
    obtain ⟨token, ⟨⟩⟩ := values
    obtain ⟨_, rfl, hkind, rfl⟩ := h.token_cases
    obtain ⟨count, hcount, rfl, -⟩ := ok_of_run_lift_map hvalue
    exact areReadFrom_single (.space hkind hcount) (hframes rfl)
  | classDef =>
    obtain ⟨rfl, hkinds⟩ := h.three
    cases hvalue
    exact areReadFrom_single (.classDef hkinds) (hframes rfl)
  | defaultClassDef =>
    obtain ⟨rfl, hkinds⟩ := h.three
    cases hvalue
    exact areReadFrom_single (.defaultClassDef hkinds) (hframes rfl)
  | applyClass =>
    obtain ⟨rfl, hkinds⟩ := h.three
    cases hvalue
    exact areReadFrom_single (.applyClass hkinds) (hframes rfl)
  | applyStyle =>
    obtain ⟨rfl, hkinds⟩ := h.three
    cases hvalue
    exact areReadFrom_single (.applyStyles hkinds) (hframes rfl)
  | title =>
    obtain ⟨rfl, hkinds⟩ := h.two
    cases hvalue
    exact areReadFrom_single (.title hkinds) (hframes rfl)
  | description =>
    obtain ⟨rfl, hkinds⟩ := h.two
    cases hvalue
    exact areReadFrom_single (.description hkinds) (hframes rfl)
  | descriptionBlock =>
    obtain ⟨_, rfl, hkind, rfl⟩ := h.token_cases
    cases hvalue
    exact areReadFrom_single (.descriptionBlock hkind) (hframes rfl)
  | _ => cases hlhs

/-- A composite lies between the tokens that open and close it. -/
theorem isFaithful_blockStatement (hlhs : p.lhs = .blockStatement) : p.IsFaithful := by
  intro ts span values n m value h hframes hvalue
  cases p with
  | namedBlock =>
    obtain ⟨_, rfl, hopening, h⟩ := h.token_cases
    obtain ⟨_, _, rfl, hhead, h⟩ := h.part_cases
    obtain ⟨_, _, rfl, hbody, h⟩ := h.part_cases
    obtain ⟨_, rfl, hclosing, rfl⟩ := h.token_cases
    cases hvalue
    exact areReadFrom_composite (.named hopening hhead) hbody hclosing (hframes rfl)
  | anonymousBlock =>
    obtain ⟨_, rfl, hopening, h⟩ := h.token_cases
    obtain ⟨_, _, rfl, hbody, h⟩ := h.part_cases
    obtain ⟨_, rfl, hclosing, rfl⟩ := h.token_cases
    cases hvalue
    exact areReadFrom_composite (.anonymous hopening) hbody hclosing (hframes rfl)
  | _ => cases hlhs

/-- A chain goes on with a link and one more node. -/
theorem isFaithful_nodeStatement (hlhs : p.lhs = .nodeStatement) : p.IsFaithful := by
  intro ts span values n m value h hframes hvalue
  cases p with
  | chainStart =>
    obtain ⟨_, _, rfl, hnode, hnodeFrames, rfl⟩ := h
    cases hvalue
    exact ⟨⟨_, []⟩, rfl, NodeStatement.yields_first hnode (hnodeFrames rfl)⟩
  | chainLink =>
    obtain ⟨_, _, rfl, ⟨phrase, rfl, hyields⟩, hrest⟩ := h.part_cases
    obtain ⟨link, _, rfl, hlink, hlinkFrames, node, _, rfl, hnode, hnodeFrames, rfl⟩ := hrest
    cases hvalue
    refine ⟨phrase.extend link node, ?_,
      hyields.extend hlink (hlinkFrames rfl) hnode (hnodeFrames rfl)⟩
    rw [NodeStatement.tokens_extend, List.append_nil]
  | _ => cases hlhs

/-- A node may have a width behind it. -/
theorem isFaithful_sizedNode (hlhs : p.lhs = .sizedNode) : p.IsFaithful := by
  intro ts span values n m value h hframes hvalue
  cases p with
  | unsizedNode =>
    obtain ⟨front, _, rfl, hpart, rfl⟩ := h.part_cases
    cases hvalue
    rw [List.append_nil]
    exact .unsized hpart
  | sizedNode =>
    obtain ⟨node, width, ⟨⟩⟩ := values
    obtain ⟨_, _, rfl, hnode, h⟩ := h.part_cases
    obtain ⟨_, rfl, hkind, rfl⟩ := h.token_cases
    obtain ⟨count, hcount, rfl, -⟩ := ok_of_run_lift_map hvalue
    exact .sized hnode hkind hcount
  | _ => cases hlhs

/-- A node has its name first, and then its shape. -/
theorem isFaithful_node (hlhs : p.lhs = .node) : p.IsFaithful := by
  intro ts span values n m value h hframes hvalue
  cases p with
  | bareNode =>
    obtain ⟨_, rfl, hkind, rfl⟩ := h.token_cases
    cases hvalue
    exact .bare hkind
  | shapedNode =>
    obtain ⟨_, rfl, hkind, h⟩ := h.token_cases
    obtain ⟨_, _, rfl, hshape, rfl⟩ := h.part_cases
    cases hvalue
    rw [List.append_nil]
    exact .shaped hkind hshape
  | _ => cases hlhs

/-- A shape is what its brackets are, with the label between them. -/
theorem isFaithful_shape (hlhs : p.lhs = .shape) : p.IsFaithful := by
  intro ts span values n m value h hframes hvalue
  cases p with
  | labelledShape =>
    obtain ⟨_, rfl, hopening, h⟩ := h.token_cases
    obtain ⟨_, _, rfl, hlabel, h⟩ := h.part_cases
    obtain ⟨_, rfl, hclosing, rfl⟩ := h.token_cases
    cases hvalue
    exact .labelled hopening hlabel hclosing
  | emptyShape =>
    obtain ⟨_, rfl, hopening, h⟩ := h.token_cases
    obtain ⟨_, rfl, hclosing, rfl⟩ := h.token_cases
    cases hvalue
    exact .empty hopening hclosing
  | arrowShape =>
    obtain ⟨_, rfl, hopening, h⟩ := h.token_cases
    obtain ⟨_, _, rfl, hlabel, h⟩ := h.part_cases
    obtain ⟨_, _, rfl, hdirections, h⟩ := h.part_cases
    obtain ⟨_, rfl, hclosing, rfl⟩ := h.token_cases
    cases hvalue
    rw [← List.append_assoc]
    exact .arrow hopening hlabel hdirections hclosing
  | _ => cases hlhs

/-- Directions are named by one token each. -/
theorem isFaithful_directions (hlhs : p.lhs = .directions) : p.IsFaithful := by
  intro ts span values n m value h hframes hvalue
  cases p with
  | lastDirection =>
    obtain ⟨token, ⟨⟩⟩ := values
    obtain ⟨_, rfl, hkind, rfl⟩ := h.token_cases
    obtain ⟨direction, hdirection, rfl, -⟩ := ok_of_run_lift_map hvalue
    exact .cons ⟨hkind, hdirection⟩ .nil
  | moreDirections =>
    obtain ⟨token, directions, ⟨⟩⟩ := values
    obtain ⟨_, rfl, hkind, h⟩ := h.token_cases
    obtain ⟨_, _, rfl, hdirections, rfl⟩ := h.part_cases
    obtain ⟨direction, hdirection, rfl, -⟩ := ok_of_run_lift_map hvalue
    rw [List.append_nil]
    exact .cons ⟨hkind, hdirection⟩ hdirections
  | _ => cases hlhs

/-- A link is one token, or a label between two. -/
theorem isFaithful_link (hlhs : p.lhs = .link) : p.IsFaithful := by
  intro ts span values n m value h hframes hvalue
  cases p with
  | plainLink =>
    obtain ⟨_, rfl, hkind, rfl⟩ := h.token_cases
    cases hvalue
    exact .plain hkind
  | labelledLink =>
    obtain ⟨_, rfl, hopening, h⟩ := h.token_cases
    obtain ⟨_, rfl, hquote, h⟩ := h.token_cases
    obtain ⟨_, _, rfl, hlabel, h⟩ := h.part_cases
    obtain ⟨_, rfl, hclosing, rfl⟩ := h.token_cases
    cases hvalue
    exact .labelled hopening hquote hlabel hclosing
  | _ => cases hlhs

/-- A label is the text of one token. -/
theorem isFaithful_text (hlhs : p.lhs = .text) : p.IsFaithful := by
  intro ts span values n m value h hframes hvalue
  cases p with
  | plainText =>
    obtain ⟨_, rfl, hkind, rfl⟩ := h.token_cases
    cases hvalue
    exact .plain hkind
  | markdownText =>
    obtain ⟨_, rfl, hkind, rfl⟩ := h.token_cases
    cases hvalue
    exact .markdown hkind
  | _ => cases hlhs

/-- Every rule makes what is read from its tokens of what its symbols are read from. -/
theorem isFaithful (p : Production) : p.IsFaithful := by
  cases hlhs : p.lhs with
  | accept => exact isFaithful_document (.inl hlhs)
  | start => exact isFaithful_document (.inr (.inl hlhs))
  | document => exact isFaithful_document (.inr (.inr hlhs))
  | statement => exact isFaithful_statement hlhs
  | blockStatement => exact isFaithful_blockStatement hlhs
  | nodeStatement => exact isFaithful_nodeStatement hlhs
  | sizedNode => exact isFaithful_sizedNode hlhs
  | node => exact isFaithful_node hlhs
  | shape => exact isFaithful_shape hlhs
  | directions => exact isFaithful_directions hlhs
  | link => exact isFaithful_link hlhs
  | text => exact isFaithful_text hlhs

end

/-- What tokens in order derive is read from them. -/
theorem Derivation.allReadFrom_of_evaluate (d : Derivation symbols) (hd : InOrder d.tokens)
    {next : Token} {n m : Nat} {values : Values symbols}
    (h : (d.evaluate .forwards next).run n = .ok (values, m)) :
    AllReadFrom symbols values d.tokens := by
  induction d generalizing next n m with
  | nil => rfl
  | token t rest ih =>
    obtain ⟨others, hothers, rfl⟩ := run_evaluate_token_ok_iff.1 h
    obtain ⟨-, hrest⟩ := List.pairwise_cons.1 hd
    exact ⟨[t], rest.tokens, rfl, ⟨rfl, rfl⟩, fun _ ↦ ⟨rfl, rfl⟩, ih hrest hothers⟩
  | rule p inner rest hinner hrest =>
    obtain ⟨parts, n₁, value, n₂, others, hparts, hvalue, hothers, rfl⟩ :=
      run_evaluate_rule_ok_iff.1 h
    obtain ⟨hfront, hback, -⟩ := hd.of_append
    have hinside := hinner hfront hparts
    have hframes (hlhs : (Symbol.nonterminal p.lhs).isFramed = true) :
        (cover (placesOf p.rhs parts) (rest.first next)).Frames inner.tokens := by
      obtain ⟨hfirst, hlast⟩ := isFramed_rhs p hlhs
      exact frames_cover hinside hfirst hlast hfront _
    exact ⟨inner.tokens, rest.tokens, rfl, isFaithful p hinside hframes hvalue, hframes,
      hrest hback hothers⟩

end

end Grammar

open Grammar

/-- The tokens of a source lie one behind the other. -/
theorem inOrder_of_tokenize {source : String} (h : Lexer.tokenize source = .ok ts) : InOrder ts := by
  rcases Lexer.tokenize_cases source with ⟨-, htokens⟩ | ⟨u, rest, -, -, herror⟩
  · obtain rfl := Except.ok.inj (h.symm.trans htokens)
    exact Lexer.pairwise_tokens source
  · rw [h] at herror
    cases herror

/-- The statements of a source are read from its tokens behind the keyword that opens the diagram. -/
theorem areReadFrom_of_statements {source : String} {ss : List (Located Statement)}
    (hss : statements source = .ok ss) :
    ∃ opening ts eof, Lexer.tokenize source = .ok (opening :: ts ++ [eof]) ∧
      opening.kind = .diagram ∧ AreReadFrom ss ts := by
  obtain ⟨d, eof, htokens, hd⟩ := exists_derivation_of_statements hss
  obtain ⟨hbody, -, -⟩ := (inOrder_of_tokenize htokens).of_append
  obtain ⟨values, n, hvalues, rfl⟩ := Derivation.exists_evaluate_of_statements hd
  obtain ⟨front, _, hfront, ⟨opening, ts, rfl, hkind, hread⟩, rfl⟩ :=
    (d.allReadFrom_of_evaluate hbody hvalues).part_cases
  rw [hfront, List.append_nil] at htokens
  exact ⟨opening, ts, eof, htokens, hkind, hread⟩

end BlockDiagram
