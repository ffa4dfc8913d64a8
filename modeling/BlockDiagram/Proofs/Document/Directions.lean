import BlockDiagram.Proofs.Document.Edges
import BlockDiagram.Proofs.Document.Revisions
import BlockDiagram.Proofs.Parser.Chains
import BlockDiagram.Proofs.Parser.Leftmost

/-!
# Directions of edges

An edge has the directions of the node behind its link, and a block those of its first mention,
which may be one without any: a later mention is merged, and a merge leaves directions as they are.
So an edge has the directions of the block that it leads to exactly if that block was first
mentioned with the directions that are written behind the link (`directions_of_parse`).
-/

namespace BlockDiagram

open Source (Located)
open Grammar (Production)

/-- The blocks that a statement mentions itself by name, in order, each with the directions that it
states. To give a class to a block states none. -/
def Statement.stated : Statement → List (BlockId × List Direction)
  | .node decl => [(decl.id, decl.directions)]
  | .composite head _ => [(head.id, head.directions)]
  | .applyClass targets _ => (Builder.targetsOf targets).map fun id ↦ (id, [])
  | _ => []

/-- The blocks that statements mention by name, in order, each with the directions that they
state. -/
abbrev statedIn (statements : List (Located Statement)) : List (BlockId × List Direction) :=
  collect (fun s ↦ s.value.stated) statements

/-- The directions that the first mention of a block states; the root is there from the start. -/
def firstDirections? (ss : List (Located Statement)) (id : BlockId) : Option (List Direction) :=
  ((BlockId.root, []) :: statedIn ss).lookup id

/-- A link leads to a node, and has directions that are stated for it. -/
theorem AllLead.target_mem {ss : List (Located Statement)} (h : AllLead ss) :
    ∀ e ∈ edgesIn ss, e.target ∈ nodesIn ss ∧ (e.target, e.directions) ∈ statedIn ss := by
  induction ss using statements_induction with
  | nil => exact List.forall_mem_nil _
  | composite head body span ss ihbody ih =>
    intro e he
    simp only [collect_composite, Statement.edges, Statement.nodes, Statement.stated,
      List.nil_append, List.cons_append, List.mem_append, List.mem_cons] at he ⊢
    rcases he with he | he
    · obtain ⟨hnode, hstated⟩ := ihbody h.1 e he
      exact ⟨.inl hnode, .inr (.inl hstated)⟩
    · obtain ⟨hnode, hstated⟩ := ih h.2 e he
      exact ⟨.inr hnode, .inr (.inr hstated)⟩
  | other statement span ss hother ih =>
    intro e he
    simp only [collect_of_not_composite hother, List.mem_append] at he ⊢
    rcases he with he | he
    · cases statement with
      | edge decl =>
        obtain rfl := List.mem_singleton.1 he
        obtain ⟨node, span, behind, rfl, htarget, hdirections⟩ := h.1
        rw [htarget, hdirections]
        exact ⟨.inr List.mem_cons_self, .inr List.mem_cons_self⟩
      | composite head body => cases hother
      | _ => cases he
    · obtain ⟨hnode, hstated⟩ := ih h.2 e he
      exact ⟨.inr hnode, .inr hstated⟩

namespace Document

variable {d d' d'' : Document} {stated stated' : List (BlockId × List Direction)}

/-- Holds when blocks keep their directions, and new ones get those that are first stated for them.
The names of spacers have a dash in them, which no name in a source has. -/
def Orients (d : Document) (stated : List (BlockId × List Direction)) (d' : Document) : Prop :=
  ∀ id, '-' ∉ id.toList → (d'.block? id).map Block.directions =
    ((d.block? id).map Block.directions).or (stated.lookup id)

namespace Orients

private theorem of_eq (h : ∀ id, '-' ∉ id.toList →
      (d'.block? id).map Block.directions = (d.block? id).map Block.directions) :
    d.Orients [] d' := by
  intro id hid
  rw [h id hid, List.lookup_nil, Option.or_none]

private theorem of_blocks_eq (h : d'.blocks = d.blocks) : d.Orients [] d' :=
  .of_eq fun id _ ↦ by rw [block?, block?, h]

private theorem trans (h : d.Orients stated d') (h' : d'.Orients stated' d'') :
    d.Orients (stated ++ stated') d'' := by
  intro id hid
  rw [h' id hid, h id hid, List.lookup_append, Option.or_assoc]

/-- A change to a block that leaves its directions as they are. -/
theorem of_modifyBlock (d : Document) (changed : BlockId) {f : Block → Block}
    (hf : ∀ block, (f block).directions = block.directions) :
    d.Orients [] (d.modifyBlock changed f) := by
  refine .of_eq fun id _ ↦ ?_
  rw [block?_modifyBlock]
  split
  · rw [Option.map_map, Function.comp_def]
    simp only [hf]
  · rfl

private theorem of_insertBlock (d : Document) (block : Block) :
    d.Orients [(block.id, block.directions)] (d.insertBlock block) := by
  intro id _
  rw [block?_insertBlock, contains_eq_isSome, List.lookup_cons, List.lookup_nil]
  by_cases hid : block.id = id
  · subst hid
    cases d.block? block.id <;> simp
  · have hne : (id == block.id) = false := by simpa using Ne.symm hid
    simp [hid, hne]

/-- A new spacer is of no account. -/
theorem of_insertSpacer (d : Document) (composite : BlockId) (n : Nat) :
    d.Orients [] (d.insertBlock (Block.ofShape (composite.numbered n) .space)) := by
  refine .of_eq fun id hid ↦ ?_
  rw [block?_insertBlock, if_neg]
  rintro ⟨-, rfl⟩
  refine hid ?_
  change '-' ∈ (composite.numbered n).toList
  rw [Builder.toList_numbered]
  exact List.mem_append_right _ List.mem_cons_self

end Orients

end Document

namespace Builder

variable {limit : Nat} {b b' : Builder} {composite : BlockId} {span : Source.Span}
  {children children' : List BlockId}

private theorem orients_declare {node : NodeDecl} {u : Unit}
    (h : (declare limit node span).run b = .ok (u, b')) :
    b.document.Orients [(node.id, node.directions)] b'.document := by
  rw [eq_of_declare h]
  exact (Document.Orients.of_insertBlock _ (blockOf node)).trans (.of_modifyBlock _ _ fun _ ↦ rfl)

private theorem orients_applyClass {name : String} {ids : List BlockId} {u : Unit}
    (h : (applyClass limit name span ids).run b = .ok (u, b')) :
    b.document.Orients (ids.map fun id ↦ (id, [])) b'.document := by
  have hsame (block : Block) : (block.addClass name).directions = block.directions := by
    rw [Block.addClass_eq]
  obtain ⟨d, rfl, hd⟩ := applyClass_induction
    (P := fun ids d d' ↦ d.Orients (ids.map fun id ↦ (id, [])) d') h
    (fun _ ↦ .of_blocks_eq rfl) fun id ids d d' hrest ↦ by
      have hnew := Document.Orients.of_insertBlock d (.ofShape id .unknown)
      exact (hnew.trans (.of_modifyBlock _ id hsame)).trans hrest
  exact hd

private theorem orients_applyStyles {declarations : List String} {ids : List BlockId} {u : Unit}
    (h : (applyStyles declarations span ids).run b = .ok (u, b')) :
    b.document.Orients [] b'.document := by
  have hsame (block : Block) :
      (declarations.foldl Block.addStyle block).directions = block.directions := by
    rw [Block.foldl_addStyle]
  obtain ⟨d, rfl, hd⟩ := applyStyles_induction (P := fun d d' ↦ d.Orients [] d') h
    (fun _ ↦ .of_blocks_eq rfl) fun id d d' hrest ↦
      (Document.Orients.of_modifyBlock d id hsame).trans hrest
  exact hd

private theorem orients_addSpacers {count : Nat}
    (h : (addSpacers composite count children).run b = .ok (children', b')) :
    b.document.Orients [] b'.document := by
  induction count generalizing b children with
  | zero =>
    cases h
    exact .of_blocks_eq rfl
  | succ count ih =>
    rw [addSpacers, run_bind_ok_iff] at h
    obtain ⟨children₁, b₁, hfirst, h⟩ := h
    obtain ⟨n, -, hplace⟩ := addSpacer_cases hfirst
    have horients : b.document.Orients [] b₁.document := by
      rw [(place_cases hplace).1]
      exact .of_insertSpacer _ _ _
    exact horients.trans (ih h)

/-- A statement without a body states directions for the blocks that it mentions. -/
theorem orients_perform {statement : Statement} (hother : statement.isComposite = false)
    (h : (perform limit composite span children statement).run b = .ok (children', b')) :
    b.document.Orients statement.stated b'.document := by
  cases statement with
  | composite head body => cases hother
  | node node =>
    obtain ⟨b₁, hdeclare, -, hplace⟩ := node_cases h
    rw [(place_cases hplace).1]
    exact orients_declare hdeclare
  | space count =>
    exact orients_addSpacers (space_cases h).2
  | columns count =>
    cases h
    exact .of_modifyBlock _ _ fun _ ↦ rfl
  | edge e | title text | description text =>
    cases h
    exact .of_blocks_eq rfl
  | classDef name declarations =>
    obtain ⟨normal, -, rfl, rfl⟩ := classDef_cases h
    exact .of_blocks_eq rfl
  | applyClass targets name =>
    exact orients_applyClass (applyClass_cases h).1
  | applyStyles targets declarations =>
    obtain ⟨normal, -, hstyles, -⟩ := applyStyles_cases h
    exact orients_applyStyles hstyles

private theorem accumulates_orients (limit : Nat) :
    Accumulates limit (fun s ↦ s.value.stated) fun stated d d' ↦ d.Orients stated d' where
  refl _ := .of_blocks_eq rfl
  trans := .trans
  head := orients_declare
  fill _ _ _ := .of_modifyBlock _ _ fun _ ↦ rfl
  step hother _ := orients_perform hother

/-- Blocks have the directions of their first mentions, in a run over statements too. -/
theorem Carries.orients {ss : List (Located Statement)}
    (h : Carries limit composite b children ss b' children') :
    b.document.Orients (statedIn ss) b'.document :=
  h.accumulates (accumulates_orients limit)

/-- Blocks have the directions of their first mentions. -/
theorem directions_of_build {ss : List (Located Statement)} {d : Document}
    (h : build limit ss = .ok d) {id : BlockId} (hid : '-' ∉ id.toList) :
    (d.block? id).map Block.directions = firstDirections? ss id := by
  obtain ⟨b, children, hcarries, rfl⟩ := exists_carries_of_build h
  have hclosed : b.document.Orients [] (b.closed children) := .of_modifyBlock _ _ fun _ ↦ rfl
  have hstart : (start.document.block? id).map Block.directions =
      [(BlockId.root, [])].lookup id := by
    rw [start, Document.block?_empty, List.lookup_cons, List.lookup_nil]
    by_cases hroot : BlockId.root = id
    · subst hroot
      rfl
    · have hne : (id == BlockId.root) = false := by simpa using Ne.symm hroot
      rw [if_neg hroot, hne]
      rfl
  rw [(hcarries.orients.trans hclosed) id hid, hstart, List.append_nil,
    ← List.lookup_append]
  rfl

end Builder

namespace Document

variable {limit : Nat} {source : String} {ss : List (Located Statement)} {d : Document}

/-- No node in a source has a dash in its name. -/
theorem dash_not_mem_of_mem_nodesIn (hss : statements source = .ok ss) {id : String}
    (hid : id ∈ nodesIn ss) : '-' ∉ id.toList := by
  obtain ⟨tokens, -, ⟨named, hwritten, -⟩, hdash⟩ := exists_names_of_statements hss
  exact (hdash id (hwritten.mem_iff.1 (List.mem_append_left _ hid))).2

/-- Every link in a source stands in front of the node that it leads to. Its edge has the directions
that are stated there, and the block at its end those that are stated first for that block, so both
are the same exactly if these are. -/
theorem directions_of_parse (hss : statements source = .ok ss) (hd : parse limit source = .ok d) :
    AllLead ss ∧ List.Forall₂ EdgeDecl.Makes (edgesIn ss) d.edges.toList ∧
      ∀ e ∈ d.edges.toList, (e.target, e.directions) ∈ statedIn ss ∧
        ∃ block, d.block? e.target = some block ∧
          firstDirections? ss e.target = some block.directions ∧
          (e.directions = block.directions ↔
            firstDirections? ss e.target = some e.directions) := by
  have hbuild := build_of_parse hss hd
  have hlead := (written_of_statements hss).allLead
  have hmakes := Builder.makes_of_build hbuild
  refine ⟨hlead, hmakes, fun e he ↦ ?_⟩
  obtain ⟨decl, hdecl, hmake⟩ := exists_makes_of_mem hmakes he
  have htarget : e.target = decl.target := congrArg Edge.target hmake
  have hdirections : e.directions = decl.directions := congrArg Edge.directions hmake
  obtain ⟨hnode, hstated⟩ := hlead.target_mem decl hdecl
  rw [← htarget] at hnode hstated
  rw [← hdirections] at hstated
  have hfirst := Builder.directions_of_build hbuild (dash_not_mem_of_mem_nodesIn hss hnode)
  cases hblock : d.block? e.target with
  | none =>
    rw [hblock, Option.map_none, eq_comm, firstDirections?, List.lookup_eq_none_iff] at hfirst
    have hne := hfirst _ (List.mem_cons_of_mem _ hstated)
    exact absurd hne (by simp)
  | some block =>
    rw [hblock, Option.map_some] at hfirst
    refine ⟨hstated, block, rfl, hfirst.symm, ?_⟩
    rw [← hfirst, Option.some_inj, eq_comm]

/-- A source that links to a block twice, and states directions for it the first time only. -/
def turned : String :=
  "block-beta c --> b<[\"x\"]>(right) a --> b"

/-- The rules that derive it. -/
def turnedRules : List Production :=
  [.start, .documentMore, .nodes, .chainLink, .chainStart, .unsizedNode, .bareNode, .plainLink,
    .unsizedNode, .shapedNode, .arrowShape, .plainText, .lastDirection, .documentMore, .nodes,
    .chainLink, .chainStart, .unsizedNode, .bareNode, .plainLink, .unsizedNode, .bareNode,
    .documentEnd]

private theorem exists_turned : ∃ ss d, statements turned = .ok ss ∧ parse 9 turned = .ok d ∧
    d.edges.toList.map (fun e ↦ (e.target, e.directions)) = [("b", [.right]), ("b", [])] ∧
      firstDirections? ss "b" = some [.right] ∧
        (d.block? "b").map Block.directions = some [.right] := by
  have hdecide : ((statementsAlong turnedRules turned).bind fun ss ↦
      (Builder.build 9 ss).toOption.map fun d ↦
        (d.edges.toList.map fun e ↦ (e.target, e.directions), firstDirections? ss "b",
          (d.block? "b").map Block.directions)) =
            some ([("b", [.right]), ("b", [])], some [.right], some [.right]) := by
    decide +kernel
  obtain ⟨ss, d, hss, -, hd, hresult⟩ := parse_of_along hdecide
  simp only [Prod.mk.injEq] at hresult
  exact ⟨ss, d, hss, hd, hresult⟩

/-- The first edge has the directions of the block. -/
theorem directions_turned : ∃ d e block, parse 9 turned = .ok d ∧ e ∈ d.edges.toList ∧
    d.block? e.target = some block ∧ e.directions = [.right] ∧ block.directions = [.right] := by
  obtain ⟨ss, d, hss, hd, hedges, hfirst, -⟩ := exists_turned
  have hmem : ("b", [Direction.right]) ∈ d.edges.toList.map fun e ↦ (e.target, e.directions) :=
    hedges ▸ List.mem_cons_self
  obtain ⟨e, he, hpair⟩ := List.mem_map.1 hmem
  obtain ⟨htarget, hdirections⟩ := Prod.mk.inj hpair
  obtain ⟨-, -, hall⟩ := directions_of_parse hss hd
  obtain ⟨-, block, hblock, -, hiff⟩ := hall e he
  rw [htarget, hdirections] at hiff
  exact ⟨d, e, block, hd, he, hblock, hdirections, (hiff.2 hfirst).symm⟩

/-- The second edge has none. -/
theorem exists_directions_ne : ∃ d, parse 9 turned = .ok d ∧
    ¬ ∀ e ∈ d.edges.toList, ∀ block, d.block? e.target = some block →
      e.directions = block.directions := by
  obtain ⟨ss, d, -, hd, hedges, -, hdirections⟩ := exists_turned
  have hmem : ("b", []) ∈ d.edges.toList.map fun e ↦ (e.target, e.directions) :=
    hedges ▸ List.mem_cons_of_mem _ List.mem_cons_self
  obtain ⟨e, he, hpair⟩ := List.mem_map.1 hmem
  obtain ⟨htarget, hnone⟩ := Prod.mk.inj hpair
  obtain ⟨block, hblock, hright⟩ := Option.map_eq_some_iff.1 hdirections
  refine ⟨d, hd, fun hall ↦ ?_⟩
  have heq := hall e he block (by rw [htarget, hblock])
  rw [hnone, hright] at heq
  cases heq

end Document

end BlockDiagram
