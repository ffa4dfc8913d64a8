import BlockDiagram.Proofs.Parser.Leftmost
import BlockDiagram.Proofs.Parser.Readings

/-!
# Nesting of places

The statements of a source come in its order, each at the place from its first token to its last one,
and those in the body of a composite lie inside the place of this (`spans_of_statements`).
-/

namespace BlockDiagram

open Source (Located Span)
open Grammar (Production nodeRules headRules)

mutual

/-- Holds for a statement at a place if the statements in its body lie there, and are well nested. -/
def Statement.NestsIn (span : Span) : Statement → Prop
  | .composite _ body =>
    (∀ inner ∈ body, span.start ≤ inner.span.start ∧ inner.span.stop ≤ span.stop) ∧ WellNested body
  | _ => True

/-- Holds for statements that lie one behind the other, as do those in the bodies of composites, and
the latter inside the composites. -/
def WellNested : List (Located Statement) → Prop
  | [] => True
  | ⟨statement, span⟩ :: rest =>
    statement.NestsIn span ∧ (∀ later ∈ rest, span.stop ≤ later.span.start) ∧ WellNested rest

end

variable {ss rest : List (Located Statement)} {ts own back : List Token}

namespace Source.Span.Frames

variable {span other : Span}

/-- The place of some of the tokens is inside that of all. -/
theorem encloses (h : span.Frames ts) (h' : other.Frames own) (hown : own ⊆ ts) (hts : InOrder ts) :
    span.start ≤ other.start ∧ other.stop ≤ span.stop := by
  obtain ⟨first, hfirst, hstart⟩ := h.exists_start
  obtain ⟨last, hlast, hstop⟩ := h.exists_stop
  obtain ⟨t, ht, hstart'⟩ := h'.exists_start
  obtain ⟨t', ht', hstop'⟩ := h'.exists_stop
  rw [← hstart, ← hstart', ← hstop, ← hstop']
  exact ⟨hts.start_le hfirst t (hown (List.mem_of_mem_head? ht)),
    hts.stop_le hlast t' (hown (List.mem_of_mem_getLast? ht'))⟩

/-- The place of tokens ends in front of the tokens behind them. -/
theorem stop_le_start (h : span.Frames own) (h' : other.Frames back)
    (hback : ∀ t ∈ own, ∀ t' ∈ back, t.span.stop ≤ t'.span.start) : span.stop ≤ other.start := by
  obtain ⟨t, ht, hstop⟩ := h.exists_stop
  obtain ⟨t', ht', hstart⟩ := h'.exists_start
  rw [← hstop, ← hstart]
  exact hback t (List.mem_of_mem_getLast? ht) t' (List.mem_of_mem_head? ht')

end Source.Span.Frames

private theorem WellNested.append {front back : List (Located Statement)} (h : WellNested front)
    (h' : WellNested back) (hback : ∀ s ∈ front, ∀ s' ∈ back, s.span.stop ≤ s'.span.start) :
    WellNested (front ++ back) := by
  induction front with
  | nil => exact h'
  | cons s front ih =>
    obtain ⟨hs, hlater, hfront⟩ := h
    obtain ⟨hfirst, hothers⟩ := List.forall_mem_cons.1 hback
    exact ⟨hs, List.forall_mem_append.2 ⟨hlater, hfirst⟩, ih hfront hothers⟩

/-! ### Chains -/

/-- Statements that are placed at runs of tokens, one each, are placed at some of all tokens. -/
theorem exists_frames_of_mem {parts : List (List Token)}
    (h : List.Forall₂ (fun ts s ↦ s.span.Frames ts) parts ss) :
    ∀ s ∈ ss, ∃ own ⊆ parts.flatten, s.span.Frames own := by
  induction h with
  | nil => exact List.forall_mem_nil _
  | @cons ts s parts ss hfirst _ ih =>
    rw [List.flatten_cons]
    refine List.forall_mem_cons.2 ⟨⟨ts, List.subset_append_left _ _, hfirst⟩, fun s' hs' ↦ ?_⟩
    obtain ⟨own, hown, hframes⟩ := ih s' hs'
    exact ⟨own, List.subset_append_of_subset_right _ hown, hframes⟩

/-- Statements without bodies that are placed at runs of tokens are well nested. -/
theorem wellNested_of_frames {parts : List (List Token)}
    (h : List.Forall₂ (fun ts s ↦ s.span.Frames ts) parts ss) (hparts : InOrder parts.flatten)
    (hnests : ∀ s ∈ ss, s.value.NestsIn s.span) : WellNested ss := by
  induction h with
  | nil => trivial
  | @cons ts s parts ss hfirst hrest ih =>
    obtain ⟨hs, hnests⟩ := List.forall_mem_cons.1 hnests
    obtain ⟨-, hbehind, hbetween⟩ := hparts.of_append
    refine ⟨hs, fun later hlater ↦ ?_, ih hbehind hnests⟩
    obtain ⟨own, hown, hframes⟩ := exists_frames_of_mem hrest later hlater
    exact hfirst.stop_le_start hframes fun t ht t' ht' ↦ hbetween t ht t' (hown ht')

/-- The statements of a chain are nodes and edges, which have no bodies. -/
theorem NodeStatement.Yields.nestsIn {phrase : NodeStatement} (h : phrase.Yields ss) :
    ∀ s ∈ ss, s.value.NestsIn s.span := by
  intro s hs
  obtain ⟨j, hj⟩ := List.mem_iff_getElem?.1 hs
  have hlt : j < phrase.parts.length := by
    rw [h.frames.length_eq]
    exact (List.getElem?_eq_some_iff.1 hj).1
  have hpart := List.getElem?_eq_getElem hlt
  rcases Nat.even_or_odd' j with ⟨i, rfl | rfl⟩
  · obtain ⟨node, span, hnode, -⟩ := h.node_at i _ hpart
    obtain rfl := Option.some.inj (hj.symm.trans hnode)
    trivial
  · obtain ⟨edge, span, hedge, -⟩ := h.edge_at i _ hpart
    obtain rfl := Option.some.inj (hj.symm.trans hedge)
    trivial

/-! ### Statements -/

/-- Statements that are read from tokens are placed at some of them. -/
theorem AreReadFrom.exists_frames (h : AreReadFrom ss ts) :
    ∀ s ∈ ss, ∃ own ⊆ ts, s.span.Frames own := by
  induction h with
  | nil => exact List.forall_mem_nil _
  | nodes hchain _ ih =>
    refine List.forall_mem_append.2 ⟨fun s hs ↦ ?_, fun s hs ↦ ?_⟩
    · obtain ⟨own, hown, hframes⟩ := exists_frames_of_mem hchain.frames s hs
      exact ⟨own, List.subset_append_of_subset_left _ hown, hframes⟩
    · obtain ⟨own, hown, hframes⟩ := ih s hs
      exact ⟨own, List.subset_append_of_subset_right _ hown, hframes⟩
  | composite _ _ _ hframes _ _ ih | single _ hframes _ ih =>
    refine List.forall_mem_cons.2 ⟨⟨_, List.subset_append_left _ _, hframes⟩, fun s hs ↦ ?_⟩
    obtain ⟨own, hown, hframes⟩ := ih s hs
    exact ⟨own, List.subset_append_of_subset_right _ hown, hframes⟩

/-- Statements that are read from tokens in order are well nested. -/
theorem AreReadFrom.wellNested (h : AreReadFrom ss ts) (hts : InOrder ts) : WellNested ss := by
  induction h with
  | nil => trivial
  | nodes hchain hrest ih =>
    obtain ⟨hfront, hback, hbetween⟩ := hts.of_append
    refine .append (wellNested_of_frames hchain.frames hfront hchain.nestsIn) (ih hback) ?_
    intro s hs s' hs'
    obtain ⟨own, hown, hframes⟩ := exists_frames_of_mem hchain.frames s hs
    obtain ⟨own', hown', hframes'⟩ := hrest.exists_frames s' hs'
    exact hframes.stop_le_start hframes' fun t ht t' ht' ↦ hbetween t (hown ht) t' (hown' ht')
  | composite _ hbody _ hframes hrest ihbody ih =>
    obtain ⟨hfront, hback, hbetween⟩ := hts.of_append
    obtain ⟨hopened, -, -⟩ := hfront.of_append
    obtain ⟨-, hinside, -⟩ := hopened.of_append
    refine ⟨⟨fun inner hinner ↦ ?_, ihbody hinside⟩, fun later hlater ↦ ?_, ih hback⟩
    · obtain ⟨own, hown, hinnerFrames⟩ := hbody.exists_frames inner hinner
      refine hframes.encloses hinnerFrames ?_ hfront
      exact List.subset_append_of_subset_left _ (List.subset_append_of_subset_right _ hown)
    · obtain ⟨own, hown, hlaterFrames⟩ := hrest.exists_frames later hlater
      exact hframes.stop_le_start hlaterFrames fun t ht t' ht' ↦ hbetween t ht t' (hown ht')
  | single hstatement hframes hrest ih =>
    obtain ⟨hown, hback, hbetween⟩ := hts.of_append
    refine ⟨?_, fun later hlater ↦ ?_, ih hback⟩
    · cases hstatement <;> trivial
    · obtain ⟨own, hown, hlaterFrames⟩ := hrest.exists_frames later hlater
      exact hframes.stop_le_start hlaterFrames fun t ht t' ht' ↦ hbetween t ht t' (hown ht')

/-- The statements of a source are read from its tokens in order, each at the place from the first of
its tokens to the last. They lie one behind the other, and those in the body of a composite do so
inside of it. -/
theorem spans_of_statements {source : String} (hss : statements source = .ok ss) :
    (∃ opening ts eof, Lexer.tokenize source = .ok (opening :: ts ++ [eof]) ∧
      opening.kind = .diagram ∧ InOrder ts ∧ AreReadFrom ss ts) ∧ WellNested ss := by
  obtain ⟨opening, ts, eof, htokens, hkind, hread⟩ := areReadFrom_of_statements hss
  obtain ⟨hbody, -, -⟩ := (inOrder_of_tokenize htokens).of_append
  have hts : InOrder ts := (List.pairwise_cons.1 hbody).2
  exact ⟨⟨opening, ts, eof, htokens, hkind, hts, hread⟩, hread.wellNested hts⟩

/-- A composite with a chain in it, between a node and a spacer. -/
def enclosed : String :=
  "block-beta a block:g b --> c end space"

/-- The rules that derive it. -/
def enclosedRules : List Production :=
  [.start] ++ nodeRules ++ headRules ++
    [.documentMore, .nodes, .chainLink, .chainStart, .unsizedNode, .bareNode, .plainLink,
      .unsizedNode, .bareNode, .documentEnd, .documentMore, .space, .documentEnd]

/-- The composite has all that is written in it inside of its place. -/
theorem spans_of_statements_enclosed :
    ∃ ss, statements enclosed = .ok ss ∧ WellNested ss ∧
      (placesIn ss).map (fun place ↦ (place.start, place.stop)) =
        [(11, 12), (13, 33), (21, 22), (22, 27), (27, 28), (33, 38)] := by
  have hdecide : (statementsAlong enclosedRules enclosed).map (fun ss ↦
      (placesIn ss).map fun place ↦ (place.start, place.stop)) =
        some [(11, 12), (13, 33), (21, 22), (22, 27), (27, 28), (33, 38)] := by
    decide +kernel
  obtain ⟨ss, hfound, hplaces⟩ := Option.map_eq_some_iff.1 hdecide
  have hss := statements_of_along hfound
  exact ⟨ss, hss, (spans_of_statements hss).2, hplaces⟩

end BlockDiagram
