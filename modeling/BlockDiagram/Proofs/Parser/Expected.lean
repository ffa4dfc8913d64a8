import BlockDiagram.Proofs.Parser.Prefixes

/-!
# Expected kinds

What a fault of the grammar lists. The list is read off the state that the parser stops in, so it
depends on what was done there with the token out of place. If that token never stands behind the
one in front of it, nothing was done: the kinds that are listed are those which do stand there, in
this diagram or in another (`isSome_action_iff_of_isFresh`). Otherwise rules may have been applied
in front of it, and a kind that only goes on without them is not listed; what is listed then may
follow here (`mayFollow_of_reduces`).
-/

namespace BlockDiagram

open Token (Kind)

namespace Grammar

/-! ### Checking states -/

namespace AutomatonState

/-- Holds when the kinds with a place in the state are those of a set. -/
def expects (state : AutomatonState) (kinds : KindSet) : Bool :=
  Kind.all.all fun kind ↦ (state.action kind).isSome = kinds.contains kind

/-- The kinds that are behind a rule in every diagram: only a whole diagram is always in front of
the end of the input. -/
def ending (p : Production) : KindSet :=
  if p = .start then .single .endOfInput else .empty

/-- Holds when each kind with a place in the state goes on with an item that is under way. -/
def isDecided (state : AutomatonState) : Bool :=
  state.expected.all fun kind ↦ state.items.any fun (item, _) ↦
    0 < item.dot && (beginnings.ofSymbols ⟨true, ending item.production⟩
      (item.production.rhs.drop item.dot)).first.contains kind

/-- Holds for a state behind a token if just the neighbours of the token have a place there, and for
a state behind a part if it is decided or no follower of the part is out of place. -/
def isExactBehind (state : AutomatonState) : Grammar.Symbol → Bool
  | .terminal kind => state.expects (neighbours (some kind))
  | .nonterminal part => state.isDecided ||
      Kind.all.all fun kind ↦ !(followers.of part).contains kind || (state.action kind).isSome

/-- Holds when rules are applied in front of followers of their parts only. -/
def followsRules (state : AutomatonState) : Bool :=
  state.items.all fun (item, lookahead) ↦
    item.next?.isSome || (followers.of item.production.lhs).includes lookahead

end AutomatonState

namespace Automaton

/-- Holds when the kinds with a place in each state are as they have to be. -/
def isExact (a : Automaton) : Bool :=
  a.toList.all (fun state ↦
    !state.expected.isEmpty && state.followsRules && state.next.all fun (symbol, q) ↦
      (a[q]?).any (·.isExactBehind symbol)) &&
    (a[0]?).any (·.expects (neighbours none))

/-- The automaton of the grammar passes the check. -/
theorem ofGrammar_isExact : ofGrammar.isExact = true := by
  decide +kernel

variable {a : Automaton} {q target : Nat} {state entered : AutomatonState} {kind : Kind}

private theorem isSome_action_iff_of_expects {last : Option Kind}
    (h : state.expects (neighbours last) = true) :
    (state.action kind).isSome = true ↔ MayTouch last kind := by
  rw [mayTouch_iff, ← of_decide_eq_true (List.all_eq_true.1 h kind kind.mem_all)]

private theorem state_of_isExact (h : a.isExact = true) (hq : a[q]? = some state) :
    state.expected ≠ [] ∧ state.followsRules = true ∧
      ∀ symbol target, (symbol, target) ∈ state.next →
        (a[target]?).any (·.isExactBehind symbol) = true := by
  have hstate := List.all_eq_true.1 (Bool.and_eq_true_iff.1 h).1 state
    (Array.mem_toList_iff.2 (Array.mem_of_getElem? hq))
  rw [Bool.and_eq_true, Bool.and_eq_true, Bool.not_eq_true', List.all_eq_true] at hstate
  obtain ⟨⟨hexpected, hrules⟩, hnext⟩ := hstate
  exact ⟨List.isEmpty_eq_false_iff.1 hexpected, hrules, fun symbol target hmem ↦
    hnext (symbol, target) hmem⟩

private theorem isExactBehind_of_lookup (h : a.isExact = true) (hq : a[q]? = some state)
    {symbol : Symbol} (hnext : state.next.lookup symbol = some target)
    (hentered : a[target]? = some entered) : entered.isExactBehind symbol = true := by
  have hbehind := (state_of_isExact h hq).2.2 symbol target (mem_of_lookup hnext)
  rwa [hentered, Option.any_some] at hbehind

private theorem expected_ne_nil (h : a.isExact = true) (hq : a[q]? = some state) :
    state.expected ≠ [] :=
  (state_of_isExact h hq).1

/-- At the start just what diagrams begin with has a place. -/
theorem isSome_action_initial_iff (h : a.isExact = true) (hq : a[0]? = some state) :
    (state.action kind).isSome = true ↔ MayTouch none kind := by
  have hinitial := (Bool.and_eq_true_iff.1 h).2
  rw [hq, Option.any_some] at hinitial
  exact isSome_action_iff_of_expects hinitial

/-- Behind a token just its neighbours have a place. -/
theorem isSome_action_iff_of_terminal (h : a.isExact = true) (hq : a[q]? = some state)
    {last : Kind} (hnext : state.next.lookup (.terminal last) = some target)
    (hentered : a[target]? = some entered) :
    (entered.action kind).isSome = true ↔ MayTouch (some last) kind :=
  isSome_action_iff_of_expects (isExactBehind_of_lookup h hq hnext hentered)

/-- Behind a part what has a place is under way, or all that may follow the part has a place. -/
theorem isDecided_or_of_nonterminal (h : a.isExact = true) (hq : a[q]? = some state)
    {part : Nonterminal} (hnext : state.next.lookup (.nonterminal part) = some target)
    (hentered : a[target]? = some entered) :
    entered.isDecided = true ∨ ∀ kind, (followers.of part).contains kind = true →
      (entered.action kind).isSome = true := by
  rcases Bool.or_eq_true_iff.1 (isExactBehind_of_lookup h hq hnext hentered) with hdecided | hall
  · exact .inl hdecided
  · refine .inr fun kind hkind ↦ ?_
    simpa [hkind] using List.all_eq_true.1 hall kind kind.mem_all

/-- A rule is applied in front of followers of its part only. -/
theorem contains_followers_of_action (h : a.isExact = true) (hq : a[q]? = some state)
    {p : Production} (haction : state.action kind = some (.reduce p)) :
    (followers.of p.lhs).contains kind = true := by
  obtain ⟨-, item, lookahead, hitem, hnext, hkind, rfl⟩ :=
    AutomatonState.item_of_action_reduce haction
  have hitem := List.all_eq_true.1 (state_of_isExact h hq).2.1 _ hitem
  dsimp only at hitem
  rw [hnext, Option.isSome_none, Bool.false_or] at hitem
  exact KindSet.contains_of_includes hitem hkind

end Automaton

end Grammar

namespace Parser

open Grammar

variable {σ : Type} {automaton : Automaton} {tokens : TokenSource σ} {c c' : Config σ} {s : σ}
  {before : List Token} {state : AutomatonState} {kind : Kind}

/-! ### Behind a token -/

/-- Where the parser stands when the last thing it did was to read a token, or nothing yet. -/
def IsFresh (stack : List Frame) : Prop :=
  ∀ frame ∈ stack.head?, ∃ kind, frame.symbol = .terminal kind

private theorem isFresh_nil : IsFresh [] :=
  fun _ hframe ↦ nomatch hframe

private theorem Shifts.isFresh (h : Shifts automaton tokens c c') : IsFresh c'.stack := by
  cases h with
  | intro =>
    intro frame hframe
    obtain rfl := Option.some.inj hframe
    exact ⟨_, rfl⟩

private theorem isFresh_or_exists_reduces (h : Reaches automaton tokens s before c) :
    IsFresh c.stack ∨ ∃ c', Reaches automaton tokens s before c' ∧ Reduces automaton c' c := by
  cases h with
  | start h => exact .inl isFresh_nil
  | shift h hstep => exact .inl hstep.isFresh
  | reduce h hstep => exact .inr ⟨_, h, hstep⟩

/-- Directly behind a token, a kind has a place if it stands there in some diagram. -/
theorem isSome_action_iff_of_isFresh (exact : automaton.isExact = true)
    (h : Reaches automaton tokens s before c) (hfresh : IsFresh c.stack)
    (hstate : automaton[stateOf c.stack]? = some state) :
    (state.action kind).isSome = true ↔ MayTouch (before.map Token.kind).getLast? kind := by
  cases h with
  | start h => exact Automaton.isSome_action_initial_iff exact hstate
  | shift h hstep =>
    cases hstep with
    | intro hbelow haction htoken =>
      rw [List.map_append, List.map_singleton, List.getLast?_concat]
      exact Automaton.isSome_action_iff_of_terminal exact hbelow
        (AutomatonState.lookup_of_action_shift haction) hstate
  | reduce h hstep =>
    cases hstep with
    | intro =>
      obtain ⟨kind, hkind⟩ := hfresh _ rfl
      cases hkind

/-- A token that the parser has a place for, or had one before it applied rules, stands behind the
one in front of it in some diagram. -/
theorem mayTouch_of_isSome_action (exact : automaton.isExact = true)
    (h : Reaches automaton tokens s before c)
    (hstate : automaton[stateOf c.stack]? = some state)
    (haction : (state.action c.lookahead.kind).isSome = true) :
    MayTouch (before.map Token.kind).getLast? c.lookahead.kind := by
  induction h generalizing state with
  | start h =>
    exact (isSome_action_iff_of_isFresh exact (.start h) isFresh_nil hstate).1 haction
  | shift h hstep =>
    exact (isSome_action_iff_of_isFresh exact (h.shift hstep) hstep.isFresh hstate).1 haction
  | reduce h hstep ih =>
    cases hstep with
    | intro hbefore hreduce => exact ih hbefore (by rw [hreduce]; rfl)

/-- So does a token that rules are applied in front of. -/
theorem mayTouch_of_reduces (exact : automaton.isExact = true)
    (h : Reaches automaton tokens s before c) (hstep : Reduces automaton c c') :
    MayTouch (before.map Token.kind).getLast? c'.lookahead.kind := by
  cases hstep with
  | intro hstate hreduce =>
    have htouch := mayTouch_of_isSome_action exact h hstate (by rw [hreduce]; rfl)
    exact htouch

/-! ### Behind a part -/

/-- Only the rule for whole sources waits for a diagram. -/
theorem eq_accept_of_next? {item : Item}
    (h : item.next? = some (.nonterminal .start)) : item = ⟨.accept, 0⟩ := by
  obtain ⟨p, dot⟩ := item
  have hmem : Grammar.Symbol.nonterminal .start ∈ p.rhs := List.mem_of_getElem? h
  have hp : p = .accept := by
    cases p <;> first | rfl | exact absurd hmem (by decide)
  subst hp
  cases dot with
  | zero => rfl
  | succ dot => cases h

/-- A whole diagram is under way at the start only. -/
theorem SupportedBy.below_eq_nil (grounded : automaton.isGrounded = true) {stack : List Frame}
    {item : Item} {frames below : List Frame} {rest : List Grammar.Symbol}
    (h : SupportedBy automaton stack item frames below rest) (hlinked : Linked automaton stack)
    (hitem : item.production = .start) : below = [] := by
  obtain ⟨lower, kinds, hlower, hstarted⟩ := h.started
  obtain ⟨i, hi⟩ := List.mem_iff_getElem?.1 hstarted
  rw [hitem] at hi
  rcases Automaton.exists_waiting grounded hlower hi rfl with
    ⟨haccept, -⟩ | ⟨-, j, -, other, kinds', hother, hwaits⟩
  · cases haccept
  · obtain rfl := eq_accept_of_next? hwaits
    rcases Automaton.exists_waiting grounded hlower hother rfl with ⟨-, hzero⟩ | ⟨hne, -⟩
    · rw [h.stack] at hlinked
      exact hlinked.of_append.eq_nil grounded hzero
    · exact absurd rfl hne

/-- What has a place in a state that is decided may follow the tokens that have been read. -/
theorem mayFollow_of_isDecided (grounded : automaton.isGrounded = true)
    (h : Reaches automaton tokens s before c)
    (hstate : automaton[stateOf c.stack]? = some state) (hdecided : state.isDecided = true)
    (haction : (state.action kind).isSome = true) : MayFollow (before.map Token.kind) kind := by
  have hexpected : kind ∈ state.expected := List.mem_filter.2 ⟨kind.mem_all, haction⟩
  obtain ⟨⟨item, lookahead⟩, hitem, hkind⟩ :=
    List.any_eq_true.1 (List.all_eq_true.1 hdecided kind hexpected)
  have hlinked := linked_of_reaches h
  have hderives := derives_of_reaches h
  obtain ⟨frames, below, rest, hsupported⟩ := hlinked.supports grounded hstate hitem
  rcases (beginnings_isSound.ofSymbols _ _).first kind (Bool.and_eq_true_iff.1 hkind).2 with
    ⟨others, hothers⟩ | ⟨hempty, hending⟩
  · obtain ⟨behind, hbehind⟩ := exists_derives rest
    exact mayFollow_of_accepts (others ++ behind) (accepts_of_derives_accept
      (hsupported.completes_drop (hderives.append (hothers.append hbehind))))
  · rw [AutomatonState.ending] at hending
    split at hending
    · next hstart =>
      rw [KindSet.contains_single, decide_eq_true_eq] at hending
      obtain rfl := hsupported.below_eq_nil grounded hlinked hstart
      rw [hsupported.stack, List.append_nil, hsupported.symbols] at hderives
      have hwhole := hderives.append hempty
      rw [List.take_append_drop, List.append_nil, hstart] at hwhole
      rw [hending]
      exact mayFollow_endOfInput_iff.2 (.of_production .start hwhole)
    · rw [KindSet.contains_empty] at hending
      cases hending

/-- Where a token is out of place that rules were applied in front of, what has a place may follow
the tokens that have been read. -/
theorem mayFollow_of_reduces (exact : automaton.isExact = true)
    (grounded : automaton.isGrounded = true) (h : Reaches automaton tokens s before c)
    (hstep : Reduces automaton c c') (hstate : automaton[stateOf c'.stack]? = some state)
    (hnone : state.action c'.lookahead.kind = none) (haction : (state.action kind).isSome = true) :
    MayFollow (before.map Token.kind) kind := by
  refine mayFollow_of_isDecided grounded (h.reduce hstep) hstate ?_ haction
  cases hstep with
  | intro hbefore hreduce hstack hvalues happly htarget =>
    obtain ⟨lower, hlower, hnext⟩ := Option.bind_eq_some_iff.1 htarget
    rcases Automaton.isDecided_or_of_nonterminal exact hlower hnext hstate with hdecided | hall
    · exact hdecided
    · have hfollows := hall _ (Automaton.contains_followers_of_action exact hbefore hreduce)
      rw [hnone] at hfollows
      cases hfollows

end Parser

open BlockDiagram.Parser Grammar

/-- A fault of the grammar always lists some kinds. If the token out of place never stands behind a
token like the one in front of it, they are those that do, with all that may follow here among them.
Otherwise all of them may follow here. -/
theorem expected_of_statements {source : String} {fault : Fault}
    (h : statements source = .error (.fault fault))
    (hcode : fault.code = .unexpectedToken ∨ fault.code = .unexpectedEnd) :
    ∃ before t expected, fault = .unexpected t expected ∧ Opens source before t ∧ expected ≠ [] ∧
      (¬ MayTouch (before.map Token.kind).getLast? t.kind → ∀ kind,
        (kind ∈ expected ↔ MayTouch (before.map Token.kind).getLast? kind) ∧
          (MayFollow (before.map Token.kind) kind → kind ∈ expected)) ∧
      (MayTouch (before.map Token.kind).getLast? t.kind → ∀ kind ∈ expected,
        MayFollow (before.map Token.kind) kind) := by
  obtain ⟨before, c, state, hreaches, hstate, hnone, rfl⟩ := exists_reaches_of_isSyntax h hcode
  have exact := Automaton.ofGrammar_isExact
  have hlisted := Automaton.expected_ne_nil exact hstate
  have hmem : ∀ kind, kind ∈ state.expected ↔ (state.action kind).isSome = true := fun kind ↦
    List.mem_filter.trans (and_iff_right kind.mem_all)
  rcases isFresh_or_exists_reduces hreaches with hfresh | ⟨c', hreaches', hstep⟩
  · have htouch (kind : Kind) : kind ∈ state.expected ↔
        MayTouch (before.map Token.kind).getLast? kind :=
      (hmem kind).trans (isSome_action_iff_of_isFresh exact hreaches hfresh hstate)
    refine ⟨before, c.lookahead, state.expected, rfl, opens_of_reaches hreaches, hlisted,
      fun _ kind ↦ ⟨htouch kind, fun hfollows ↦ (htouch kind).2 hfollows.mayTouch⟩,
      fun htoken ↦ ?_⟩
    have haction := (hmem _).1 ((htouch c.lookahead.kind).2 htoken)
    rw [hnone] at haction
    cases haction
  · have htoken := mayTouch_of_reduces exact hreaches' hstep
    exact ⟨before, c.lookahead, state.expected, rfl, opens_of_reaches hreaches, hlisted,
      fun hnot ↦ absurd htoken hnot,
      fun _ kind hkind ↦ mayFollow_of_reduces exact Automaton.ofGrammar_isGrounded hreaches' hstep
        hstate hnone ((hmem kind).1 hkind)⟩

/-! ### Two sources -/

private theorem statements_unopenedEnd : statements "block-beta a end" =
    .error (.fault (.unexpected ⟨.blockEnd, "end", .between 13 16⟩ [.endOfInput])) := by
  refine (map_eq_error_iff (f := fun _ ↦ ())).1 ?_
  decide +kernel

private theorem statements_reopened : ∃ expected, .blockEnd ∈ expected ∧
    statements "block-beta a block-beta" =
      .error (.fault (.unexpected ⟨.diagram, "block-beta", .between 13 23⟩ expected)) := by
  refine ⟨[.block, .namedBlock, .blockEnd, .columns, .space, .nodeId, .width, .shapeOpen,
    .arrowOpen, .link, .labelledLink, .classDef, .applyClass, .applyStyle, .title, .description,
    .descriptionBlock, .endOfInput], by decide, (map_eq_error_iff (f := fun _ ↦ ())).1 ?_⟩
  decide +kernel

/-- A composite ends where none has begun: the list is not empty, and its kind may follow. -/
theorem expected_of_unopenedEnd : ∃ fault before t expected,
    statements "block-beta a end" = .error (.fault fault) ∧ fault.code = .unexpectedToken ∧
      fault = .unexpected t expected ∧ Opens "block-beta a end" before t ∧ expected ≠ [] ∧
      (¬ MayTouch (before.map Token.kind).getLast? t.kind → ∀ kind,
        (kind ∈ expected ↔ MayTouch (before.map Token.kind).getLast? kind) ∧
          (MayFollow (before.map Token.kind) kind → kind ∈ expected)) ∧
      (MayTouch (before.map Token.kind).getLast? t.kind → ∀ kind ∈ expected,
        MayFollow (before.map Token.kind) kind) := by
  obtain ⟨before, t, expected, hrest⟩ := expected_of_statements statements_unopenedEnd (.inl rfl)
  exact ⟨_, before, t, expected, statements_unopenedEnd, rfl, hrest⟩

private theorem eq_of_third {x y t z : Token} {before after : List Token}
    (h : [x, y, t, z] = before ++ t :: after) (hx : x ≠ t) (hy : y ≠ t) (hz : z ≠ t) :
    before = [x, y] := by
  rcases List.cons_eq_append_iff.1 h with ⟨-, heq⟩ | ⟨others, rfl, h₁⟩
  · exact absurd (List.cons.inj heq).1.symm hx
  rcases List.cons_eq_append_iff.1 h₁ with ⟨-, heq⟩ | ⟨others, rfl, h₂⟩
  · exact absurd (List.cons.inj heq).1.symm hy
  rcases List.cons_eq_append_iff.1 h₂ with ⟨rfl, -⟩ | ⟨others, rfl, h₃⟩
  · rfl
  rcases List.cons_eq_append_iff.1 h₃ with ⟨-, heq⟩ | ⟨others, rfl, h₄⟩
  · exact absurd (List.cons.inj heq).1.symm hz
  · cases (List.append_eq_nil_iff.1 h₄.symm).2

private theorem before_of_third {source : String} {x y t z : Token} {expected : List Kind}
    (htokens : Lexer.tokenize source = .ok [x, y, t, z]) (hx : x ≠ t) (hy : y ≠ t) (hz : z ≠ t)
    (h : statements source = .error (.fault (.unexpected t expected))) :
    Opens source [x, y] t ∧ ¬ MayFollow [x.kind, y.kind] t.kind := by
  have hcode : IsSyntax (.unexpected t expected) := by
    rw [IsSyntax, Fault.code]
    split
    · exact .inr rfl
    · exact .inl rfl
  obtain ⟨before, c, state, hreaches, hstate, hnone, hfault⟩ := exists_reaches_of_isSyntax h hcode
  obtain ⟨rfl, -⟩ := Fault.unexpected.inj hfault
  have hopens := opens_of_reaches hreaches
  obtain ⟨after, happend⟩ := exists_append_of_opens htokens hopens
    (kind_ne_endOfInput_of_reaches Automaton.ofGrammar_isGrounded hreaches)
  obtain rfl := eq_of_third happend hx hy hz
  exact ⟨hopens, not_mayFollow Automaton.ofGrammar_isValid hreaches hstate hnone⟩

/-- The kinds that are listed are not the kinds that may follow: behind a node, the name of another
node is not listed where a composite ends that has not begun, and where a diagram begins again the
end of a composite is. -/
theorem expected_ne_mayFollow :
    (∃ before t, statements "block-beta a end" =
        .error (.fault (.unexpected t [.endOfInput])) ∧
      Opens "block-beta a end" before t ∧ MayFollow (before.map Token.kind) .nodeId) ∧
    ∃ before t expected, statements "block-beta a block-beta" =
        .error (.fault (.unexpected t expected)) ∧
      Opens "block-beta a block-beta" before t ∧
      .blockEnd ∈ expected ∧ ¬ MayFollow (before.map Token.kind) .blockEnd := by
  let opening : Token := ⟨.diagram, "block-beta", .between 0 10⟩
  let node : Token := ⟨.nodeId, "a", .between 11 12⟩
  have hend : Lexer.tokenize "block-beta a end" =
      .ok [opening, node, ⟨.blockEnd, "end", .between 13 16⟩, ⟨.endOfInput, "", .emptyAt 16⟩] :=
    eq_ok_of_toOption (by decide +kernel)
  have hopening : Lexer.tokenize "block-beta a block-beta" =
      .ok [opening, node, ⟨.diagram, "block-beta", .between 13 23⟩,
        ⟨.endOfInput, "", .emptyAt 23⟩] :=
    eq_ok_of_toOption (by decide +kernel)
  obtain ⟨hopens, hnot⟩ := before_of_third hend (by decide) (by decide) (by decide)
    statements_unopenedEnd
  obtain ⟨expected, hmem, hrun⟩ := statements_reopened
  have hopens' := (before_of_third hopening (by decide) (by decide) (by decide) hrun).1
  refine ⟨⟨_, _, statements_unopenedEnd, hopens, ?_⟩, _, _, expected, hrun, hopens', hmem, hnot⟩
  have hnode : Derives [.nonterminal .statement] [.nodeId] :=
    .of_production .nodes (.of_production .chainStart (.of_production .unsizedNode
      (.of_production .bareNode (.terminal .done))))
  have hdocument : Derives [.nonterminal .document] [.nodeId, .nodeId] :=
    .of_production .documentMore (hnode.append (.of_production .documentMore
      (hnode.append (.of_production .documentEnd .done))))
  exact mayFollow_of_accepts [] (.of_production .start (.terminal hdocument))

end BlockDiagram
