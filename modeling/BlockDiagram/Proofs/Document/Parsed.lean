import BlockDiagram.Proofs.Document.Acyclic
import BlockDiagram.Proofs.Parser.Leftmost

/-!
# Documents of sources

What is known of the document of a source that does not declare the root: its blocks form the tree
that the mentions in the source ask for, and its edges are those of the source
(`Document.Describes`).
-/

namespace BlockDiagram

open Source (Located)
open Grammar (Production headRules nodeRules)

namespace Builder

/-- In front of the first statement the root is known, and nothing else. -/
theorem knows_start : start.Knows [BlockId.root] where
  mem_iff id := by
    rw [List.mem_singleton]
    simp [start]
  contains := List.forall_mem_singleton.2 (by decide +kernel)

end Builder

namespace Document

/-- An empty document has no block but the root. -/
theorem block?_empty (id : BlockId) :
    empty.block? id =
      if BlockId.root = id then some (Block.ofShape BlockId.root .composite) else none := by
  rw [block?, empty, OrderedMap.get?_insert, OrderedMap.get?_empty]

/-- The root is all that an empty document knows. -/
theorem contains_empty_iff {id : BlockId} : empty.contains id = true ↔ id = BlockId.root := by
  rw [contains_eq_isSome, block?_empty]
  split
  · next heq => simp [heq]
  · next hne => simp [Ne.symm hne]

private theorem children_empty (id : BlockId) : empty.children id = [] := by
  rw [children, block?_empty]
  split <;> rfl

private theorem sound_empty : empty.Sound where
  block id b hb := by
    rw [block?_empty] at hb
    split at hb
    · next heq =>
      cases hb
      exact heq ▸ Builder.isSound_ofShape BlockId.root .composite
    · cases hb
  spacer id _ := children_empty id

private theorem not_isSpacer_root : ¬ empty.IsSpacer BlockId.root := by
  rintro ⟨b, hb, hspace⟩
  rw [block?_empty, if_pos rfl] at hb
  cases hb
  cases hspace

end Document

/-- What is known of a document that holds what statements mention. -/
structure Document.Describes (d : Document) (ss : List (Located Statement))
    (mentions : List Mention) : Prop where
  mentioned : Mentions [BlockId.root] BlockId.root ss mentions
  /-- The root and the composites around a statement are not mentioned in it. -/
  root : BlockId.root ∉ idsOf mentions
  listed : d.ListedBy (firsts [BlockId.root] mentions)
  sound : d.Sound
  root_ne_space : ¬ d.IsSpacer BlockId.root
  edges : d.edges.toList.map Edge.ends = (edgesIn ss).map EdgeDecl.ends
  /-- A block that is not mentioned is there for a class. -/
  added : ∀ id, d.contains id = true →
    id = BlockId.root ∨ id ∈ idsOf mentions ∨ id ∈ classedIn ss

namespace Builder

/-- The document that statements make up is as they describe it. -/
theorem describes_of_build {limit : Nat} {ss : List (Located Statement)} {d : Document}
    (hproper : AllProper ss) (hroot : BlockId.root ∉ namesIn ss) (h : build limit ss = .ok d) :
    ∃ mentions, d.Describes ss mentions := by
  obtain ⟨b, children, hcarries, rfl⟩ := exists_carries_of_build h
  obtain ⟨mentions, hmentions, hperforms⟩ := hcarries.performs hproper hroot (.inl rfl) knows_start
  have hnotroot : BlockId.root ∉ idsOf mentions := fun hmem ↦ (hperforms.apart _ hmem).1 rfl
  have hrootcontains : b.document.contains BlockId.root = true :=
    hperforms.contains _ (.inr (knows_start.contains _ List.mem_cons_self))
  have hrootspacer : ¬ b.document.IsSpacer BlockId.root := fun hspacer ↦
    Document.not_isSpacer_root
      (hperforms.spacer _ (knows_start.contains _ List.mem_cons_self) hspacer)
  refine ⟨mentions, {
    mentioned := hmentions
    root := hnotroot
    listed := {
      children := fun id ↦ ?_
      rooted := (hmentions.rooted List.mem_cons_self).firsts
      nodup := nodup_idsOf_firsts
      root := fun hmem ↦ hnotroot (mem_idsOf_firsts_iff.1 hmem).1
      contains := fun id hid ↦ ?_ }
    sound := (hperforms.sound Document.sound_empty).setChildren hrootspacer _
    root_ne_space := fun hspacer ↦ hrootspacer (Document.isSpacer_setChildren_iff.1 hspacer)
    edges := hperforms.edges
    added := fun id hid ↦ ?_ }⟩
  · by_cases heq : id = BlockId.root
    · have hown : b.document.children BlockId.root = [] :=
        hperforms.own.trans (Document.children_empty _)
      rw [heq, closed, Document.children_setChildren_self hrootcontains, hown, hperforms.children]
      rfl
    · have hempty : start.document.children id = [] := Document.children_empty id
      rw [closed, Document.children_setChildren_of_ne heq, hperforms.held id heq, hempty]
      rfl
  · rw [closed, Document.contains_setChildren]
    rcases List.mem_cons.1 hid with rfl | hmem
    · exact hrootcontains
    · exact hperforms.contains id (.inl (mem_idsOf_firsts_iff.1 hmem).1)
  · rw [closed, Document.contains_setChildren] at hid
    refine (hperforms.added id hid).imp_left fun hstart ↦ ?_
    rwa [← Document.contains_empty_iff]

end Builder

namespace Document

variable {limit : Nat} {source : String} {ss : List (Located Statement)} {d : Document}

/-- The document of a source is as its statements describe it. -/
theorem describes_of_parse (hss : statements source = .ok ss) (hd : parse limit source = .ok d)
    (hroot : BlockId.root ∉ namesIn ss) : ∃ mentions, d.Describes ss mentions :=
  Builder.describes_of_build (wellFormed_of_statements hss).proper hroot (build_of_parse hss hd)

/-- Every block that is mentioned is mentioned for the first time once. -/
theorem Describes.mem_listed_iff {mentions : List Mention} (h : d.Describes ss mentions)
    {id : BlockId} : id ∈ idsOf (firsts [BlockId.root] mentions) ↔ id ∈ idsOf mentions := by
  rw [mem_idsOf_firsts_iff, List.mem_singleton]
  constructor
  · exact And.left
  · intro hid
    refine ⟨hid, ?_⟩
    rintro rfl
    exact h.root hid

/-- The walk comes to what is mentioned. -/
theorem Describes.mem_walk_iff {mentions : List Mention} (h : d.Describes ss mentions)
    {id : BlockId} : id ∈ d.walk.map Block.id ↔ id ∈ idsOf mentions := by
  rw [(h.listed.map_id_walk h.sound).2, h.mem_listed_iff]

/-- Both ends of every edge are mentioned. -/
theorem Describes.ends_mem {mentions : List Mention} (h : d.Describes ss mentions)
    (hss : WellFormed ss) : ∀ e ∈ d.edges.toList, ∀ id ∈ [e.start, e.target],
      id ∈ idsOf mentions := by
  intro e he id hid
  obtain ⟨decl, hdecl, hends⟩ := List.mem_map.1 (h.edges ▸ List.mem_map_of_mem he)
  obtain ⟨hstart, htarget⟩ := Prod.mk.inj hends
  have hnames := hss.ends decl hdecl
  rw [hstart, htarget] at hnames
  refine h.mentioned.names_subset ?_
  rcases List.mem_pair.1 hid with rfl | rfl
  · exact hnames.1
  · exact hnames.2

/-- The blocks of a source that does not declare the root form one tree below the root. A composite
holds the blocks that are first mentioned in its body, in the order of the source; a declared block
is held once, and by one composite; nothing else is held, and no block is below itself. The walk over
the document ends and comes to every declared block once. -/
theorem tree_of_parse (hss : statements source = .ok ss) (hd : parse limit source = .ok d)
    (hroot : BlockId.root ∉ namesIn ss) :
    ∃ mentions, Mentions [BlockId.root] BlockId.root ss mentions ∧
      namesIn ss ⊆ idsOf mentions ∧
      (∀ id, d.children id = heldBy id (firsts [BlockId.root] mentions)) ∧
      (∀ id ∈ idsOf mentions, ∃ composite, (d.children composite).count id = 1 ∧
        ∀ other, other ≠ composite → id ∉ d.children other) ∧
      BlockId.root ∉ idsOf mentions ∧
      (∀ id, id ∉ idsOf mentions → ∀ other, id ∉ d.children other) ∧
      (∀ id, ¬ Relation.TransGen (fun id child ↦ child ∈ d.children id) id id) ∧
      d.Visits (d.children BlockId.root) d.walk ∧
      (d.walk.map Block.id).Nodup ∧ ∀ id, id ∈ d.walk.map Block.id ↔ id ∈ idsOf mentions := by
  obtain ⟨mentions, h⟩ := describes_of_parse hss hd hroot
  refine ⟨mentions, h.mentioned, h.mentioned.names_subset, h.listed.children, ?_, h.root, ?_,
    h.listed.not_transGen_self, h.listed.visits_walk, (h.listed.map_id_walk h.sound).1,
    fun _ ↦ h.mem_walk_iff⟩
  · intro id hid
    exact h.listed.exists_count_eq_one (h.mem_listed_iff.2 hid)
  · intro id hid other hchild
    exact hid (h.mem_listed_iff.1 (h.listed.mem_idsOf_of_mem_children hchild))

/-- What is found of all keys is known of all blocks. -/
theorem forall_of_all_keys {p : Block → Bool}
    (h : (d.blocks.keys.toList.all fun id ↦ (d.block? id).all p) = true) {id : BlockId} {b : Block}
    (hb : d.block? id = some b) : p b = true := by
  have hkey := (OrderedMap.contains_iff_mem_keys d.blocks id).1 (contains_of_block? hb)
  have hall := List.all_eq_true.1 h id (Array.mem_toList_iff.2 hkey)
  rwa [hb] at hall

/-- A source that opens a composite twice, with a spacer and an edge behind it. -/
def reopened : String :=
  "block-beta block:g a end block:g b end space a --> b"

/-- The rules that derive it. -/
def reopenedRules : List Production :=
  [.start] ++ headRules ++ nodeRules ++ [.documentEnd] ++ headRules ++ nodeRules ++
    [.documentEnd, .documentMore, .space, .documentMore, .nodes, .chainLink, .chainStart,
      .unsizedNode, .bareNode, .plainLink, .unsizedNode, .bareNode, .documentEnd]

/-- The composite holds the blocks of both of its bodies, and the edge is there once. -/
theorem exists_reopened : ∃ ss d, statements reopened = .ok ss ∧ parse 9 reopened = .ok d ∧
    BlockId.root ∉ namesIn ss ∧ d.children "g" = ["a", "b"] ∧ d.size = 5 ∧ ¬ d.IsSpacer "a" ∧
      (∀ id b, d.block? id = some b → b.columns ≠ 0) ∧
      d.edges.toList.map Edge.ends = [("a", "b")] := by
  have hdecide : ((statementsAlong reopenedRules reopened).bind fun ss ↦
      (Builder.build 9 ss).toOption.map fun d ↦
        (namesIn ss, d.children "g", d.size, (d.block? "a").any Block.isSpace,
          decide (d.edges.toList.map Edge.ends = [("a", "b")]) &&
            d.blocks.keys.toList.all fun id ↦ (d.block? id).all fun b ↦ b.columns ≠ 0)) =
        some (["g", "a", "g", "b", "a", "b"], ["a", "b"], 5, false, true) := by
    decide +kernel
  obtain ⟨ss, d, hss, -, hd, hresult⟩ := parse_of_along hdecide
  simp only [Prod.mk.injEq, Bool.and_eq_true, decide_eq_true_eq] at hresult
  obtain ⟨hnames, hchildren, hsize, hshape, hedges, hcolumns⟩ := hresult
  refine ⟨ss, d, hss, hd, by rw [hnames]; decide, hchildren, hsize, ?_, fun id b hb ↦ ?_, hedges⟩
  · rintro ⟨b, hb, hspace⟩
    rw [hb, Option.any_some, Block.isSpace, hspace] at hshape
    cases hshape
  · exact of_decide_eq_true (forall_of_all_keys hcolumns hb)

/-- What both bodies of a composite mention is found in its children, in order. -/
theorem heldBy_reopened : ∃ (ss : List (Located Statement)) (mentions : List Mention),
    statements reopened = .ok ss ∧ Mentions [BlockId.root] BlockId.root ss mentions ∧
      heldBy "g" (firsts [BlockId.root] mentions) = ["a", "b"] := by
  obtain ⟨ss, d, hss, hd, hroot, hchildren, -⟩ := exists_reopened
  obtain ⟨mentions, hmentions, -, hheld, -⟩ := tree_of_parse hss hd hroot
  exact ⟨ss, mentions, hss, hmentions, (hheld "g").symm.trans hchildren⟩

end Document

end BlockDiagram
