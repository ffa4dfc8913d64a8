import BlockDiagram.Proofs.Document.Carrying
import BlockDiagram.Proofs.Parser.Leftmost
import BlockDiagram.Proofs.Parser.Names

/-!
# Labels

Which label a block has in the end, however often and wherever it is declared: that of its last
declaration with a label of its own, unless the block is declared as a composite without a label
behind it (`label_of_parse`). All other mentions leave labels as they are.
-/

namespace BlockDiagram

open Source (Located)
open Grammar (Production headRules labelRules nodeRules)
open Builder (labelOf)

/-- The node or the head of a composite that a statement declares. -/
def Statement.decls : Statement → List NodeDecl
  | .node decl => [decl]
  | .composite head _ => [head]
  | _ => []

/-- The nodes and the heads of composites in statements, in the order in which they are carried
out. -/
abbrev declsIn (statements : List (Located Statement)) : List NodeDecl :=
  collect (fun s ↦ s.value.decls) statements

private theorem map_id_declsIn (ss : List (Located Statement)) :
    (declsIn ss).map NodeDecl.id = namesIn ss := by
  have hnames : (fun s : Located Statement ↦ s.value.decls.map NodeDecl.id) =
      fun s ↦ s.value.names := by
    funext ⟨statement, span⟩
    cases statement <;> rfl
  rw [declsIn, map_collect, hnames]

namespace NodeDecl

variable {node : NodeDecl} {label : Label}

/-- Holds for the label that a declaration states if it says something else than the id. -/
def States (node : NodeDecl) (label : Label) : Prop :=
  node.label = some label ∧ label.text ≠ node.id

/-- Holds for composites that are declared without a label, which are given an empty one. -/
def isBare (node : NodeDecl) : Bool :=
  node.label.isNone && node.shape = .composite

/-- Holds for declarations that change the label of a block. -/
def Relabels (node : NodeDecl) : Prop :=
  (labelOf node).text ≠ node.id

private theorem States.labelOf_eq (h : node.States label) : labelOf node = label := by
  rw [labelOf, h.1]

private theorem labelOf_of_isBare (h : node.isBare = true) : labelOf node = ⟨"", false⟩ := by
  obtain ⟨hlabel, hshape⟩ := Bool.and_eq_true_iff.1 h
  rw [labelOf, Option.isNone_iff_eq_none.1 hlabel]
  simp only [of_decide_eq_true hshape, if_true]

private theorem States.relabels (h : node.States label) : node.Relabels := by
  rw [Relabels, h.labelOf_eq]
  exact h.2

private theorem relabels_of_isBare (h : node.isBare = true) (hid : node.id ≠ "") :
    node.Relabels := by
  rw [Relabels, labelOf_of_isBare h]
  exact hid.symm

/-- The label of a block changes for a label that is stated, and for a composite without one. -/
theorem Relabels.cases (h : node.Relabels) : (∃ label, node.States label) ∨ node.isBare = true := by
  cases hlabel : node.label with
  | some label =>
    have hstates : labelOf node = label := by rw [labelOf, hlabel]
    exact .inl ⟨label, hlabel, by rwa [Relabels, hstates] at h⟩
  | none =>
    right
    rw [isBare, hlabel, Option.isNone_none, Bool.true_and, decide_eq_true_eq]
    by_contra hshape
    rw [Relabels, labelOf, hlabel] at h
    exact h (if_neg hshape)

end NodeDecl

namespace Document

variable {d d' d'' : Document} {decls decls' : List NodeDecl}

/-- Holds for the label of a block. -/
def HasLabel (d : Document) (id : BlockId) (label : Label) : Prop :=
  ∃ b, d.block? id = some b ∧ b.label = label.text ∧ b.markdown = label.markdown

/-- Holds when blocks have the labels of the last declarations that change them, and keep their
labels where there are none. -/
structure Relabels (d : Document) (decls : List NodeDecl) (d' : Document) : Prop where
  last : ∀ node later, node :: later <:+ decls → node.Relabels →
    (∀ other ∈ later, other.id = node.id → ¬ other.Relabels) → d'.HasLabel node.id (labelOf node)
  kept : ∀ id label, (∀ other ∈ decls, other.id = id → ¬ other.Relabels) → d.HasLabel id label →
    d'.HasLabel id label

private theorem Relabels.trans (h : d.Relabels decls d') (h' : d'.Relabels decls' d'') :
    d.Relabels (decls ++ decls') d'' where
  last node later hsuffix hnode hlater := by
    obtain ⟨earlier, hsuffix⟩ := hsuffix
    obtain ⟨middle, rfl, hmiddle⟩ | ⟨middle, -, rfl⟩ := List.append_eq_append_iff.1 hsuffix
    · obtain ⟨rfl, rfl⟩ | ⟨middle, rfl, rfl⟩ := List.cons_eq_append_iff.1 hmiddle
      · exact h'.last node later List.suffix_rfl hnode hlater
      · obtain ⟨hfront, hback⟩ := List.forall_mem_append.1 hlater
        exact h'.kept node.id _ hback (h.last node middle (List.suffix_append _ _) hnode hfront)
    · exact h'.last node later (List.suffix_append _ _) hnode hlater
  kept id label hdecls hlabel := by
    obtain ⟨hfront, hback⟩ := List.forall_mem_append.1 hdecls
    exact h'.kept id label hback (h.kept id label hfront hlabel)

private theorem Keeps.relabels (h : d.Keeps [] d') : d.Relabels [] d' where
  last node later hsuffix := by cases List.eq_nil_of_suffix_nil hsuffix
  kept id label _ hlabel := by
    obtain ⟨b, hb, htext, hmarkdown⟩ := hlabel
    obtain ⟨b', hb', hsame⟩ := h.block id b hb
    obtain ⟨hlabel', hmarkdown', -⟩ := hsame List.not_mem_nil
    exact ⟨b', hb', hlabel'.trans htext, hmarkdown'.trans hmarkdown⟩

end Document

namespace Builder

variable {b b' : Builder} {limit : Nat}

private theorem label_merge_of_relabels {node : NodeDecl} (h : node.Relabels) (block : Block) :
    (merge node block).label = (labelOf node).text ∧
      (merge node block).markdown = (labelOf node).markdown := by
  rw [merge, if_neg h]
  exact ⟨rfl, rfl⟩

private theorem label_merge_of_not_relabels {node : NodeDecl} (h : ¬ node.Relabels)
    (block : Block) :
    (merge node block).label = block.label ∧ (merge node block).markdown = block.markdown := by
  rw [merge, if_pos (not_not.1 h)]
  split <;> exact ⟨rfl, rfl⟩

private theorem relabels_declare {node : NodeDecl} {span : Source.Span} {u : Unit}
    (h : (declare limit node span).run b = .ok (u, b')) :
    b.document.Relabels [node] b'.document := by
  obtain ⟨-, -, hblock⟩ := declare_cases h
  constructor
  · intro other later hsuffix hother _
    obtain rfl : other = node :=
      List.mem_singleton.1 (hsuffix.subset List.mem_cons_self)
    refine ⟨_, (hblock other.id).trans (if_pos rfl), ?_⟩
    cases b.document.block? other.id with
    | none => exact ⟨rfl, rfl⟩
    | some block => exact label_merge_of_relabels hother block
  · intro id label hdecls hlabel
    obtain ⟨block, hbefore, htext, hmarkdown⟩ := hlabel
    by_cases hid : node.id = id
    · obtain ⟨hsame, hsame'⟩ :=
        label_merge_of_not_relabels (hdecls node (List.mem_singleton_self _) hid) block
      refine ⟨merge node block, ?_, hsame.trans htext, hsame'.trans hmarkdown⟩
      rw [hblock, if_pos hid, hbefore]
      rfl
    · exact ⟨block, by rw [hblock, if_neg hid, hbefore], htext, hmarkdown⟩

/-- A statement without a body relabels the block that it declares, if it declares one. -/
theorem relabels_perform {composite : BlockId} {children children' : List BlockId}
    {span : Source.Span} {statement : Statement} (hbody : statement.isComposite = false)
    (hb : b.PlacesKnown)
    (h : (perform limit composite span children statement).run b = .ok (children', b')) :
    b.document.Relabels statement.decls b'.document := by
  obtain ⟨node, b₁, rfl, hdeclare, -, hplace⟩ | ⟨count, names, rfl, -, hspaces, -⟩ |
    ⟨hother, hstep, -⟩ := perform_cases hbody hb h
  · rw [(place_cases hplace).1]
    exact relabels_declare hdeclare
  · exact hspaces.keeps.relabels
  · have hnone : statement.decls = [] := by
      cases statement <;> first | rfl | cases hother
    rw [hnone]
    exact hstep.document.keeps.relabels

private theorem accumulates_relabels (limit : Nat) :
    Accumulates limit (fun s ↦ s.value.decls) fun decls d d' ↦ d.Relabels decls d' where
  refl _ := (Document.Keeps.refl _).relabels
  trans := .trans
  head := relabels_declare
  fill d id more := (d.keeps_setChildren_append id more).relabels
  step := relabels_perform

/-- A run leaves blocks with the labels of their last declarations that change them. -/
theorem Carries.relabels {composite : BlockId} {children children' : List BlockId}
    {ss : List (Located Statement)} (h : Carries limit composite b children ss b' children') :
    b.document.Relabels (declsIn ss) b'.document :=
  h.accumulates (accumulates_relabels limit)

end Builder

private theorem exists_last {α : Type} {p : α → Prop} {xs : List α} (h : ∃ x ∈ xs, p x) :
    ∃ x later, x :: later <:+ xs ∧ p x ∧ ∀ y ∈ later, ¬ p y := by
  induction xs with
  | nil =>
    obtain ⟨x, hx, -⟩ := h
    cases hx
  | cons first xs ih =>
    by_cases hlater : ∃ y ∈ xs, p y
    · obtain ⟨x, later, hsuffix, hx⟩ := ih hlater
      exact ⟨x, later, hsuffix.trans (List.suffix_cons first xs), hx⟩
    · obtain ⟨x, hx, hp⟩ := h
      rcases List.mem_cons.1 hx with rfl | hx
      · exact ⟨x, xs, List.suffix_rfl, hp, fun y hy hpy ↦ hlater ⟨y, hy, hpy⟩⟩
      · exact absurd ⟨x, hx, hp⟩ hlater

namespace Document

variable {limit : Nat} {source : String} {ss : List (Located Statement)} {d : Document}

/-- Blocks have the labels of their last declarations in the source that change them. -/
theorem relabels_of_parse (hss : statements source = .ok ss) (hd : parse limit source = .ok d) :
    Builder.start.document.Relabels (declsIn ss) d := by
  obtain ⟨b, children, hcarries, rfl⟩ := Builder.exists_carries_of_build (build_of_parse hss hd)
  have hset := (b.document.keeps_setChildren_append BlockId.root children.reverse).relabels
  have hall := hcarries.relabels.trans hset
  rwa [List.append_nil] at hall

private theorem id_ne_empty_of_mem_declsIn (hss : statements source = .ok ss) {node : NodeDecl}
    (hnode : node ∈ declsIn ss) : node.id ≠ "" := by
  have hname : node.id ∈ namesIn ss := map_id_declsIn ss ▸ List.mem_map_of_mem hnode
  obtain ⟨tokens, -, haccounts, hwritten⟩ := exists_names_of_statements hss
  rcases haccounts.mem_or_mem hname with hid | hid
  · exact (hwritten node.id hid).1
  · intro hempty
    have hdash := Grammar.dash_mem_of_mem_anonymousIds hid
    rw [hempty] at hdash
    cases hdash

/-- A block that is declared with a label of its own has that of the last such declaration in the
end, whatever it is mentioned in behind it, unless it is declared as a composite without a label
there: then its label is empty. -/
theorem label_of_parse (hss : statements source = .ok ss) (hd : parse limit source = .ok d)
    {node : NodeDecl} {label : Label} (hnode : node ∈ declsIn ss) (hlabel : node.States label) :
    ∃ last later stated, last :: later <:+ declsIn ss ∧ last.id = node.id ∧ last.States stated ∧
      (∀ other ∈ later, other.id = node.id → ∀ label, ¬ other.States label) ∧
      d.HasLabel node.id
        (if later.any fun other ↦ other.id = node.id && other.isBare then ⟨"", false⟩
        else stated) := by
  have hrelabels := relabels_of_parse hss hd
  obtain ⟨last, later, hsuffix, ⟨hid, stated, hstated⟩, hlater⟩ :=
    exists_last (p := fun other : NodeDecl ↦ other.id = node.id ∧ ∃ label, other.States label)
      ⟨node, hnode, rfl, label, hlabel⟩
  have hnone : ∀ other ∈ later, other.id = node.id → ∀ label, ¬ other.States label :=
    fun other hother hid label hstates ↦ hlater other hother ⟨hid, label, hstates⟩
  refine ⟨last, later, stated, hsuffix, hid, hstated, hnone, ?_⟩
  -- Behind the last label that is stated only bare composites change the label, all to the same one.
  split
  · next hbare =>
    rw [List.any_eq_true] at hbare
    obtain ⟨bare, rest, hrest, hbare, hnobare⟩ := exists_last hbare
    have hwhole := (hrest.trans (List.suffix_cons last later)).trans hsuffix
    obtain ⟨hbareid, hbare⟩ := Bool.and_eq_true_iff.1 hbare
    have hne := id_ne_empty_of_mem_declsIn hss (hwhole.subset List.mem_cons_self)
    have hlabel := hrelabels.last bare rest hwhole (NodeDecl.relabels_of_isBare hbare hne)
    rw [of_decide_eq_true hbareid, NodeDecl.labelOf_of_isBare hbare] at hlabel
    refine hlabel fun other hother hid' hchanges ↦ ?_
    rcases hchanges.cases with ⟨label, hstates⟩ | hisbare
    · exact hnone other (hrest.subset (List.mem_cons_of_mem _ hother)) hid' label hstates
    · exact hnobare other hother (by rw [decide_eq_true hid', hisbare]; rfl)
  · next hbare =>
    have hlabel := hrelabels.last last later hsuffix hstated.relabels
    rw [hid, hstated.labelOf_eq] at hlabel
    refine hlabel fun other hother hid' hchanges ↦ ?_
    rcases hchanges.cases with ⟨label, hstates⟩ | hisbare
    · exact hnone other hother hid' label hstates
    · exact hbare (List.any_eq_true.2 ⟨other, hother, by rw [decide_eq_true hid', hisbare]; rfl⟩)

/-- A source that mentions a node with a label again, and opens a composite with a label again
without one. -/
def reopenedBare : String :=
  "block-beta a[\"Hub\"] block:g[\"Group\"] a end block:g b end"

/-- The rules that derive it. -/
def reopenedBareRules : List Production :=
  [.start, .documentMore, .nodes, .chainStart, .unsizedNode] ++ labelRules ++
    [.documentMore, .block, .namedBlock, .unsizedNode] ++ labelRules ++
    nodeRules ++ [.documentEnd] ++ headRules ++ nodeRules ++ [.documentEnd, .documentEnd]

/-- The node with a label. -/
def hub : NodeDecl :=
  { id := "a", label := some ⟨"Hub", false⟩, shape := .square }

/-- The composite with a label. -/
def group : NodeDecl :=
  { id := "g", label := some ⟨"Group", false⟩, shape := .composite }

/-- What is declared behind them. -/
def repeated : List NodeDecl :=
  [{ id := "a" }, { id := "g", shape := .composite }, { id := "b" }]

private theorem exists_reopenedBare : ∃ ss d, statements reopenedBare = .ok ss ∧
    parse 9 reopenedBare = .ok d ∧ declsIn ss = hub :: group :: repeated ∧
      (d.block? "g").map Block.label = some "" := by
  have hdecide : ((statementsAlong reopenedBareRules reopenedBare).bind fun ss ↦
      (Builder.build 9 ss).toOption.map fun d ↦
        (declsIn ss, (d.block? "g").map Block.label)) =
          some (hub :: group :: repeated, some "") := by
    decide +kernel
  obtain ⟨ss, d, hss, -, hd, hresult⟩ := parse_of_along hdecide
  obtain ⟨hdecls, hlabel⟩ := Prod.mk.inj hresult
  exact ⟨ss, d, hss, hd, hdecls, hlabel⟩

/-- The node keeps its label. -/
theorem hasLabel_hub : ∃ d, parse 9 reopenedBare = .ok d ∧ d.HasLabel "a" ⟨"Hub", false⟩ := by
  obtain ⟨ss, d, hss, hd, hdecls, -⟩ := exists_reopenedBare
  have hstates : hub.States ⟨"Hub", false⟩ := ⟨rfl, by decide⟩
  obtain ⟨last, later, stated, hsuffix, hid, hstated, -, hlabel⟩ :=
    label_of_parse hss hd (hdecls ▸ List.mem_cons_self) hstates
  rw [hdecls] at hsuffix
  have hbare : ∀ other ∈ hub :: group :: repeated,
      (other.id = hub.id && other.isBare) = false := by decide
  have hnobare : ¬ (later.any fun other ↦ other.id = hub.id && other.isBare) = true := by
    intro hany
    obtain ⟨other, hother, hisbare⟩ := List.any_eq_true.1 hany
    rw [hbare other (hsuffix.subset (List.mem_cons_of_mem last hother))] at hisbare
    cases hisbare
  have hstatedLabel : ∀ other ∈ hub :: group :: repeated, other.id = hub.id → other.label ≠ none →
      other.label = some ⟨"Hub", false⟩ := by decide
  have hlast : last.label = some ⟨"Hub", false⟩ :=
    hstatedLabel last (hsuffix.subset List.mem_cons_self) hid (by rw [hstated.1]; exact nofun)
  rw [if_neg hnobare, ← Option.some.inj (hlast.symm.trans hstated.1)] at hlabel
  exact ⟨d, hd, hlabel⟩

/-- The composite loses its label. -/
theorem label_reopenedBare : ∃ ss d node later, statements reopenedBare = .ok ss ∧
    parse 9 reopenedBare = .ok d ∧ node :: later <:+ declsIn ss ∧ node.States ⟨"Group", false⟩ ∧
      (∀ other ∈ later, other.id = node.id → other.label = none) ∧
        ¬ d.HasLabel node.id ⟨"Group", false⟩ := by
  obtain ⟨ss, d, hss, hd, hdecls, hlabel⟩ := exists_reopenedBare
  have hsuffix : group :: repeated <:+ declsIn ss := hdecls ▸ List.suffix_cons hub _
  refine ⟨ss, d, group, repeated, hss, hd, hsuffix, ⟨rfl, by decide⟩, by decide, ?_⟩
  rintro ⟨b, hb, htext, -⟩
  have hgroup : d.block? "g" = some b := hb
  rw [hgroup, Option.map_some, htext] at hlabel
  exact absurd (Option.some.inj hlabel) (by decide)

end Document

end BlockDiagram
