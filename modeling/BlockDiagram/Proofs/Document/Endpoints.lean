import BlockDiagram.Proofs.Document.Edges
import BlockDiagram.Proofs.Document.Performing
import BlockDiagram.Proofs.Parser.Leftmost
import BlockDiagram.Proofs.Parser.Readings

/-!
# Endpoints of edges

Every name that statements declare is that of a block in the end (`contains_of_build`), so both ends
of an edge are. That holds of all sources since edges are written in chains, between the nodes that
they connect (`chains_of_statements`).
-/

namespace BlockDiagram

open Source (Located)
open Grammar (Production headRules nodeRules)

namespace Builder

variable {limit : Nat} {b b' : Builder} {composite : BlockId} {children children' : List BlockId}
  {ss : List (Located Statement)} {d : Document}

/-- A statement without a body registers the block that it names, if it names one. -/
theorem contains_perform {span : Source.Span} {statement : Statement}
    (hbody : statement.isComposite = false)
    (h : (perform limit composite span children statement).run b = .ok (children', b')) :
    ∀ id ∈ statement.names, b'.document.contains id = true := by
  cases statement with
  | composite head body => cases hbody
  | node node =>
    obtain ⟨b₁, hdeclare, -, hplace⟩ := node_cases h
    refine List.forall_mem_singleton.2 ?_
    rw [(place_cases hplace).1]
    exact contains_of_declare hdeclare
  | _ => exact List.forall_mem_nil _

private theorem accumulates_contains (limit : Nat) :
    Accumulates limit (fun s ↦ s.value.names) fun names d d' ↦
      d.Keeps names d' ∧ ∀ id ∈ names, d'.contains id = true where
  refl d := ⟨.refl d, List.forall_mem_nil _⟩
  trans h h' := ⟨h.1.trans h'.1,
    List.forall_mem_append.2 ⟨fun id hid ↦ h'.1.contains (h.2 id hid), h'.2⟩⟩
  head h := ⟨keeps_declare h, List.forall_mem_singleton.2 (contains_of_declare h)⟩
  fill d id more := ⟨d.keeps_setChildren_append id more, List.forall_mem_nil _⟩
  step hbody hb h := ⟨keeps_perform hbody hb h, contains_perform hbody h⟩

/-- A run registers all blocks that its statements name. -/
theorem Carries.contains (h : Carries limit composite b children ss b' children') :
    ∀ id ∈ namesIn ss, b'.document.contains id = true :=
  (h.accumulates (accumulates_contains limit)).2

/-- A document has a block for every name that its statements declare. -/
theorem contains_of_build (h : build limit ss = .ok d) :
    ∀ id ∈ namesIn ss, d.contains id = true := by
  obtain ⟨b, children, hcarries, rfl⟩ := exists_carries_of_build h
  intro id hid
  exact (b.document.keeps_setChildren_append _ _).contains (hcarries.contains id hid)

end Builder

namespace Document

variable {limit : Nat} {source : String} {ss : List (Located Statement)} {d : Document}

/-- Both ends of an edge are blocks. -/
theorem contains_ends_of_parse (hss : statements source = .ok ss) (hd : parse limit source = .ok d) :
    ∀ e ∈ d.edges.toList, d.contains e.start = true ∧ d.contains e.target = true := by
  have hbuild := build_of_parse hss hd
  have hcontains := Builder.contains_of_build hbuild
  intro e he
  obtain ⟨decl, hdecl, hmakes⟩ := exists_makes_of_mem (Builder.makes_of_build hbuild) he
  obtain ⟨hstart, htarget⟩ := (wellFormed_of_statements hss).ends decl hdecl
  rw [hmakes]
  exact ⟨hcontains _ hstart, hcontains _ htarget⟩

/-- The statements of a source are read from its tokens. A node with any number of links and nodes
behind it is read as statements for the nodes and the links in turn, where the statement for a link
has all that is read from the link and connects the nodes on both sides of it. So the edges of a
document connect blocks of the document. -/
theorem chains_of_statements (hss : statements source = .ok ss) :
    (∃ opening ts eof, Lexer.tokenize source = .ok (opening :: ts ++ [eof]) ∧
      opening.kind = .diagram ∧ AreReadFrom ss ts) ∧
    ∀ limit d, parse limit source = .ok d →
      ∀ e ∈ d.edges.toList, d.contains e.start = true ∧ d.contains e.target = true :=
  ⟨areReadFrom_of_statements hss, fun _ _ hd ↦ contains_ends_of_parse hss hd⟩

/-- A chain of three nodes, the first of which is inside a composite already, and one label. -/
def chained : String :=
  "block-beta block:g a end a --> b -- \"t\" --x c"

/-- The rules that derive it. -/
def chainedRules : List Production :=
  [.start] ++ headRules ++ nodeRules ++ [.documentEnd, .documentMore, .nodes, .chainLink, .chainLink,
    .chainStart, .unsizedNode, .bareNode, .plainLink, .unsizedNode, .bareNode, .labelledLink,
    .plainText, .unsizedNode, .bareNode, .documentEnd]

/-- All blocks that its links connect are there. -/
theorem chains_of_statements_chained :
    ∃ ss d, statements chained = .ok ss ∧ parse 9 chained = .ok d ∧ ss.length = 6 ∧
      d.edges.toList.map (fun e ↦ (e.ends, e.label, e.endMarker)) =
        [(("a", "b"), none, .point), (("b", "c"), some "t", .cross)] ∧
      ∀ e ∈ d.edges.toList, d.contains e.start = true ∧ d.contains e.target = true := by
  have hdecide : ((statementsAlong chainedRules chained).bind fun ss ↦
      (Builder.build 9 ss).toOption.map fun d ↦
        (ss.length, d.edges.toList.map fun e ↦ (e.ends, e.label, e.endMarker))) =
        some (6, [(("a", "b"), none, .point), (("b", "c"), some "t", .cross)]) := by
    decide +kernel
  obtain ⟨ss, d, hss, -, hd, hresult⟩ := parse_of_along hdecide
  obtain ⟨hlength, hedges⟩ := Prod.mk.inj hresult
  exact ⟨ss, d, hss, hd, hlength, hedges, (chains_of_statements hss).2 9 d hd⟩

end Document

end BlockDiagram
