import BlockDiagram.Proofs.Document.Mentions

/-!
# Runs over statements

A run over statements taken apart: which steps it consists of (`Carries`, `carries_of_performAll`),
and what each of them does to single blocks (`perform_cases`). What single steps say about a document
adds up to what a run says (`Carries.accumulates`).
-/

namespace BlockDiagram

open Source (Located Span)

/-- Holds when a block differs from another one in its style and its columns at most. -/
structure Block.Resembles (b b' : Block) : Prop where
  label : b'.label = b.label
  markdown : b'.markdown = b.markdown
  shape : b'.shape = b.shape
  children : b'.children = b.children

namespace Block.Resembles

private theorem refl (b : Block) : b.Resembles b := ⟨rfl, rfl, rfl, rfl⟩

private theorem trans {b b' b'' : Block} (h : b.Resembles b') (h' : b'.Resembles b'') :
    b.Resembles b'' where
  label := h'.label.trans h.label
  markdown := h'.markdown.trans h.markdown
  shape := h'.shape.trans h.shape
  children := h'.children.trans h.children

end Block.Resembles

namespace Document

variable {d d' d'' : Document} {classed classed' : List BlockId}

/-- Holds when blocks change in their style and their columns only, and new ones are there for a
class. -/
structure Decorates (d : Document) (classed : List BlockId) (d' : Document) : Prop where
  kept : ∀ id b, d.block? id = some b → ∃ b', d'.block? id = some b' ∧ b.Resembles b'
  new : ∀ id b, d.block? id = none → d'.block? id = some b →
    id ∈ classed ∧ b.shape = .unknown ∧ b.children = []

namespace Decorates

private theorem refl (d : Document) : d.Decorates [] d where
  kept _ b hb := ⟨b, hb, .refl b⟩
  new id b hnone hb := by
    rw [hnone] at hb
    cases hb

private theorem trans (h : d.Decorates classed d') (h' : d'.Decorates classed' d'') :
    d.Decorates (classed ++ classed') d'' where
  kept id b hb := by
    obtain ⟨b', hb', hresembles⟩ := h.kept id b hb
    obtain ⟨b'', hb'', hresembles'⟩ := h'.kept id b' hb'
    exact ⟨b'', hb'', hresembles.trans hresembles'⟩
  new id b hnone hb := by
    cases hmiddle : d'.block? id with
    | none =>
      obtain ⟨hid, hblock⟩ := h'.new id b hmiddle hb
      exact ⟨List.mem_append_right _ hid, hblock⟩
    | some b' =>
      obtain ⟨hid, hshape, hchildren⟩ := h.new id b' hnone hmiddle
      obtain ⟨b'', hb'', hresembles⟩ := h'.kept id b' hmiddle
      rw [hb] at hb''
      obtain rfl := Option.some.inj hb''
      exact ⟨List.mem_append_left _ hid, hresembles.shape.trans hshape,
        hresembles.children.trans hchildren⟩

end Decorates

private theorem decorates_modifyBlock (d : Document) (changed : BlockId) {f : Block → Block}
    (h : ∀ b : Block, b.Resembles (f b)) : d.Decorates [] (d.modifyBlock changed f) where
  kept id b hb := by
    rw [block?_modifyBlock, hb]
    split
    · exact ⟨f b, rfl, h b⟩
    · exact ⟨b, rfl, .refl b⟩
  new id b hnone hb := by
    rw [block?_modifyBlock, hnone] at hb
    split at hb <;> cases hb

/-- A block that is registered for a class. -/
theorem decorates_insertBlock (d : Document) (id : BlockId) :
    d.Decorates [id] (d.insertBlock (Block.ofShape id .unknown)) where
  kept other b hb := by
    refine ⟨b, ?_, .refl b⟩
    rw [block?_insertBlock, if_neg]
    · exact hb
    · rintro ⟨hcontains, rfl⟩
      rw [contains_of_block? hb] at hcontains
      cases hcontains
  new other b hnone hb := by
    rw [block?_insertBlock] at hb
    split at hb
    · next hid =>
      obtain rfl := Option.some.inj hb
      exact ⟨List.mem_singleton.2 hid.2.symm, rfl, rfl⟩
    · rw [hnone] at hb
      cases hb

private theorem decorates_of_blocks_eq (h : d'.blocks = d.blocks) : d.Decorates [] d' where
  kept id b hb := ⟨b, by rw [block?, h]; exact hb, .refl b⟩
  new id b hnone hb := by
    rw [block?, h] at hb
    rw [block?, hb] at hnone
    cases hnone

/-- Holds when no block is lost or holds less than before, and blocks of other than the given names
look as before. -/
structure Keeps (d : Document) (names : List BlockId) (d' : Document) : Prop where
  block : ∀ id b, d.block? id = some b → ∃ b', d'.block? id = some b' ∧
    (id ∉ names → b'.label = b.label ∧ b'.markdown = b.markdown ∧ b'.shape = b.shape)
  children : ∀ id, d.children id ⊆ d'.children id

namespace Keeps

variable {names names' : List BlockId}

/-- A document keeps all of its own blocks. -/
theorem refl (d : Document) : d.Keeps [] d where
  block _ b hb := ⟨b, hb, fun _ ↦ ⟨rfl, rfl, rfl⟩⟩
  children _ := List.Subset.refl _

/-- What two steps keep is kept by both together. -/
theorem trans (h : d.Keeps names d') (h' : d'.Keeps names' d'') :
    d.Keeps (names ++ names') d'' where
  block id b hb := by
    obtain ⟨b', hb', hsame⟩ := h.block id b hb
    obtain ⟨b'', hb'', hsame'⟩ := h'.block id b' hb'
    refine ⟨b'', hb'', fun hid ↦ ?_⟩
    rw [List.mem_append, not_or] at hid
    obtain ⟨hlabel, hmarkdown, hshape⟩ := hsame hid.1
    obtain ⟨hlabel', hmarkdown', hshape'⟩ := hsame' hid.2
    exact ⟨hlabel'.trans hlabel, hmarkdown'.trans hmarkdown, hshape'.trans hshape⟩
  children id := List.Subset.trans (h.children id) (h'.children id)

private theorem mono (h : d.Keeps names d') (hnames : names ⊆ names') : d.Keeps names' d' where
  block id b hb := by
    obtain ⟨b', hb', hsame⟩ := h.block id b hb
    exact ⟨b', hb', fun hid ↦ hsame fun hmem ↦ hid (hnames hmem)⟩
  children := h.children

/-- A block that is kept stays registered. -/
theorem contains (h : d.Keeps names d') {id : BlockId} (hid : d.contains id = true) :
    d'.contains id = true := by
  obtain ⟨b, hb⟩ := exists_block?_of_contains hid
  obtain ⟨b', hb', -⟩ := h.block id b hb
  exact contains_of_block? hb'

end Keeps

/-- What a block holds is kept if it is kept for the blocks that are known. -/
theorem children_subset {id : BlockId}
    (h : ∀ b, d.block? id = some b → b.children ⊆ d'.children id) :
    d.children id ⊆ d'.children id := by
  cases hb : d.block? id with
  | none =>
    rw [children_eq_nil hb]
    exact List.nil_subset _
  | some b =>
    rw [children_of_block? hb]
    exact h b hb

/-- Blocks that are decorated are kept. -/
theorem Decorates.keeps (h : d.Decorates classed d') : d.Keeps [] d' where
  block id b hb := by
    obtain ⟨b', hb', hresembles⟩ := h.kept id b hb
    exact ⟨b', hb', fun _ ↦ ⟨hresembles.label, hresembles.markdown, hresembles.shape⟩⟩
  children id := by
    refine children_subset fun b hb ↦ ?_
    obtain ⟨b', hb', hresembles⟩ := h.kept id b hb
    rw [children_of_block? hb', hresembles.children]
    exact List.Subset.refl _

/-- Putting more blocks into a block keeps all blocks. -/
theorem keeps_setChildren_append (d : Document) (id : BlockId) (more : List BlockId) :
    d.Keeps [] (d.setChildren id (d.children id ++ more)) where
  block other b hb := by
    rw [block?_setChildren, hb]
    split
    · exact ⟨_, rfl, fun _ ↦ ⟨rfl, rfl, rfl⟩⟩
    · exact ⟨b, rfl, fun _ ↦ ⟨rfl, rfl, rfl⟩⟩
  children other := by
    refine children_subset fun b hb ↦ ?_
    rw [← children_of_block? hb]
    by_cases heq : other = id
    · rw [heq, children_setChildren_self (heq ▸ contains_of_block? hb)]
      exact List.subset_append_left _ _
    · rw [children_setChildren_of_ne heq]
      exact List.Subset.refl _

end Document

namespace Builder

/-! ### Single steps -/

section

variable {b b₁ b' : Builder} {composite : BlockId} {children children' : List BlockId} {limit : Nat}
  {span : Span}

/-- Holds for steps that place nothing and decorate blocks. -/
structure Decorates (b : Builder) (classed : List BlockId) (b' : Builder) : Prop where
  placed : b'.placed = b.placed
  enclosing : b'.enclosing = b.enclosing
  document : b.document.Decorates classed b'.document

/-- A change of the document decorates what it decorates in the document. -/
theorem Decorates.of_document {classed : List BlockId} {d : Document}
    (h : b.document.Decorates classed d) : b.Decorates classed { b with document := d } :=
  ⟨rfl, rfl, h⟩

private theorem resembles_addClass (name : String) (block : Block) :
    block.Resembles (block.addClass name) := by
  rw [Block.addClass_eq]
  exact ⟨rfl, rfl, rfl, rfl⟩

private theorem resembles_foldl_addStyle (declarations : List String) (block : Block) :
    block.Resembles (declarations.foldl Block.addStyle block) := by
  rw [Block.foldl_addStyle]
  exact ⟨rfl, rfl, rfl, rfl⟩

private theorem decorates_applyClass {name : String} {ids : List BlockId} {u : Unit}
    (h : (applyClass limit name span ids).run b = .ok (u, b')) : b.Decorates ids b' := by
  obtain ⟨d, rfl, hd⟩ := applyClass_induction (P := fun ids d d' ↦ d.Decorates ids d') h .refl
    fun id ids d d' hrest ↦ by
      have hnew := d.decorates_insertBlock id
      exact (hnew.trans (Document.decorates_modifyBlock _ id (resembles_addClass name))).trans hrest
  exact .of_document hd

private theorem decorates_applyStyles {declarations : List String} {ids : List BlockId} {u : Unit}
    (h : (applyStyles declarations span ids).run b = .ok (u, b')) : b.Decorates [] b' := by
  obtain ⟨d, rfl, hd⟩ := applyStyles_induction (P := fun d d' ↦ d.Decorates [] d') h .refl
    fun id d d' hrest ↦
      (d.decorates_modifyBlock id (resembles_foldl_addStyle declarations)).trans hrest
  exact .of_document hd

/-- Statements that place no blocks decorate blocks. -/
theorem decorates_of_perform {statement : Statement}
    (h : (perform limit composite span children statement).run b = .ok (children', b'))
    (hstatement : statement.placesBlocks = false) :
    b.Decorates statement.classed b' ∧ children' = children := by
  cases statement with
  | node node => cases hstatement
  | composite head body => cases hstatement
  | space count => cases hstatement
  | edge e =>
    rw [perform, run_bind_ok_iff] at h
    obtain ⟨_, _, hconnect, h⟩ := h
    cases h
    cases hconnect
    exact ⟨⟨rfl, rfl, Document.decorates_of_blocks_eq rfl⟩, rfl⟩
  | columns count =>
    cases h
    refine ⟨.of_document ?_, rfl⟩
    exact Document.decorates_modifyBlock _ _ fun block ↦ ⟨rfl, rfl, rfl, rfl⟩
  | classDef name declarations =>
    obtain ⟨normal, -, rfl, rfl⟩ := classDef_cases h
    exact ⟨.of_document (Document.decorates_of_blocks_eq rfl), rfl⟩
  | applyClass targets name =>
    obtain ⟨happly, rfl⟩ := applyClass_cases h
    exact ⟨decorates_applyClass happly, rfl⟩
  | applyStyles targets declarations =>
    obtain ⟨normal, -, happly, rfl⟩ := applyStyles_cases h
    exact ⟨decorates_applyStyles happly, rfl⟩
  | title text | description text =>
    cases h
    exact ⟨.of_document (Document.decorates_of_blocks_eq rfl), rfl⟩

private theorem children_merge (node : NodeDecl) (block : Block) :
    (merge node block).children = block.children := by
  unfold merge
  dsimp only
  split <;> split <;> rfl

/-- A declaration merges with the block of its name, or registers it. -/
theorem declare_cases {node : NodeDecl} {u : Unit}
    (h : (declare limit node span).run b = .ok (u, b')) :
    b'.placed = b.placed ∧ b'.enclosing = b.enclosing ∧ ∀ id, b'.document.block? id =
      if node.id = id then some ((b.document.block? id).elim (blockOf node) (merge node))
      else b.document.block? id := by
  obtain ⟨hcontains, rfl⟩ | ⟨hcontains, rfl⟩ := merge_or_insert_of_declare h
  · refine ⟨rfl, rfl, fun id ↦ ?_⟩
    rw [Document.block?_modifyBlock]
    split
    · next hid =>
      obtain ⟨block, hblock⟩ := Document.exists_block?_of_contains hcontains
      rw [← hid, hblock]
      rfl
    · rfl
  · refine ⟨rfl, rfl, fun id ↦ ?_⟩
    rw [Document.block?_insertBlock]
    by_cases hid : node.id = id
    · have hnone : b.document.block? id = none := by
        rw [Document.contains_eq_isSome, hid, Option.isSome_eq_false_iff,
          Option.isNone_iff_eq_none] at hcontains
        exact hcontains
      rw [if_pos ⟨hcontains, hid⟩, if_pos hid, hnone]
      rfl
    · rw [if_neg (fun hboth ↦ hid hboth.2), if_neg hid]

/-- A declaration keeps all blocks but its own. -/
theorem keeps_declare {node : NodeDecl} {u : Unit}
    (h : (declare limit node span).run b = .ok (u, b')) :
    b.document.Keeps [node.id] b'.document := by
  obtain ⟨-, -, hblock⟩ := declare_cases h
  have hself : ∀ block, b.document.block? node.id = some block →
      b'.document.block? node.id = some (merge node block) := by
    intro block hb
    rw [hblock, if_pos rfl, hb]
    rfl
  constructor
  · intro id block hb
    by_cases hid : node.id = id
    · subst hid
      exact ⟨_, hself block hb, fun hmem ↦ absurd (List.mem_singleton_self _) hmem⟩
    · exact ⟨block, by rw [hblock, if_neg hid]; exact hb, fun _ ↦ ⟨rfl, rfl, rfl⟩⟩
  · intro id
    refine Document.children_subset fun block hb ↦ ?_
    by_cases hid : node.id = id
    · subst hid
      rw [Document.children_of_block? (hself block hb), children_merge]
      exact List.Subset.refl _
    · rw [Document.children_of_block? (((hblock id).trans (if_neg hid)).trans hb)]
      exact List.Subset.refl _

/-- Holds for steps that register new spacers in a composite and place them. -/
structure Spaces (b : Builder) (composite : BlockId) (names : List BlockId) (b' : Builder) :
    Prop where
  nodup : names.Nodup
  fresh : ∀ id ∈ names, (∃ n, id = composite.numbered n) ∧ b.document.contains id = false
  block : ∀ id, b'.document.block? id =
    if id ∈ names then some (Block.ofShape id .space) else b.document.block? id
  placed : ∀ id, id ∈ b'.placed ↔ id ∈ names ∨ id ∈ b.placed

/-- New spacers leave the other blocks as they were. -/
theorem Spaces.keeps {names : List BlockId} (h : b.Spaces composite names b') :
    b.document.Keeps [] b'.document := by
  have hold : ∀ id block, b.document.block? id = some block →
      b'.document.block? id = some block := by
    intro id block hb
    rw [h.block, if_neg, hb]
    intro hid
    have hfree := (h.fresh id hid).2
    rw [Document.contains_of_block? hb] at hfree
    cases hfree
  constructor
  · intro id block hb
    exact ⟨block, hold id block hb, fun _ ↦ ⟨rfl, rfl, rfl⟩⟩
  · intro id
    refine Document.children_subset fun block hb ↦ ?_
    rw [Document.children_of_block? (hold id block hb)]
    exact List.Subset.refl _

/-- Holds when all blocks that are placed are registered. -/
def PlacesKnown (b : Builder) : Prop :=
  ∀ id ∈ b.placed, b.document.contains id = true

/-- In the beginning nothing is placed. -/
theorem placesKnown_start : start.PlacesKnown :=
  fun _ hid ↦ absurd hid Std.ExtTreeMap.not_mem_empty

private theorem PlacesKnown.of_keeps {names : List BlockId} (h : b.PlacesKnown)
    (hkeeps : b.document.Keeps names b'.document) (hplaced : b'.placed = b.placed) :
    b'.PlacesKnown := by
  intro id hid
  rw [hplaced] at hid
  exact hkeeps.contains (h id hid)

private theorem PlacesKnown.of_place {id : BlockId} (h : b.PlacesKnown)
    (hcontains : b.document.contains id = true)
    (hplace : (place id children).run b = .ok (children', b')) : b'.PlacesKnown := by
  obtain ⟨hdocument, -, hplaced, -⟩ := place_cases hplace
  intro other hother
  rw [hdocument]
  rcases (hplaced other).1 hother with rfl | hold
  · exact hcontains
  · exact h other hold

/-- A block that is declared is registered. -/
theorem contains_of_declare {node : NodeDecl} {u : Unit}
    (h : (declare limit node span).run b = .ok (u, b')) :
    b'.document.contains node.id = true := by
  have hblock := (declare_cases h).2.2 node.id
  rw [if_pos rfl] at hblock
  exact Document.contains_of_block? hblock

/-- New spacers are registered and placed, the last one first. -/
theorem exists_spaces {count : Nat}
    (h : (addSpacers composite count children).run b = .ok (children', b')) (hb : b.PlacesKnown) :
    ∃ names, names.length = count ∧ b.Spaces composite names b' ∧
      children' = names.reverse ++ children := by
  obtain ⟨names, hcount, hnodup, hnames, -, hblock, -, -, hplaced, hchildren⟩ := addSpacers_spec h hb
  refine ⟨names, hcount, ⟨hnodup, fun id hid ↦ ?_, hblock, hplaced⟩, hchildren⟩
  exact ⟨(hnames id hid).1, (hnames id hid).2.1⟩

private theorem Spaces.placesKnown {names : List BlockId} (h : b.Spaces composite names b')
    (hb : b.PlacesKnown) : b'.PlacesKnown := by
  intro id hid
  rcases (h.placed id).1 hid with hnew | hold
  · exact Document.contains_of_block? ((h.block id).trans (if_pos hnew))
  · exact h.keeps.contains (hb id hold)

/-- What a statement without a body does: a node is declared and placed, spacers are registered and
placed, and all others decorate blocks. -/
theorem perform_cases {statement : Statement} (hbody : statement.isComposite = false)
    (hb : b.PlacesKnown)
    (h : (perform limit composite span children statement).run b = .ok (children', b')) :
    (∃ node b₁, statement = .node node ∧ (declare limit node span).run b = .ok ((), b₁) ∧
      node.id ∉ b₁.enclosing ∧ (place node.id children).run b₁ = .ok (children', b')) ∨
    (∃ count names, statement = .space count ∧ names.length = count ∧
      b.Spaces composite names b' ∧ children' = names.reverse ++ children) ∨
    (statement.placesBlocks = false ∧ b.Decorates statement.classed b' ∧ children' = children) := by
  cases hplaces : statement.placesBlocks with
  | false => exact .inr (.inr ⟨rfl, decorates_of_perform h hplaces⟩)
  | true =>
    cases statement with
    | composite head body => cases hbody
    | node node =>
      obtain ⟨b₁, hdeclare, hapart, hplace⟩ := node_cases h
      exact .inl ⟨node, b₁, rfl, hdeclare, hapart, hplace⟩
    | space count =>
      -- A spacer is new to what is placed since it is new to the document, which knows all of that.
      obtain ⟨names, hcount, hspaces, hchildren⟩ := exists_spaces (space_cases h).2 hb
      exact .inr (.inl ⟨count, names, rfl, hcount, hspaces, hchildren⟩)
    | _ => cases hplaces

/-- A statement without a body keeps all blocks but the one that it names. -/
theorem keeps_perform {statement : Statement} (hbody : statement.isComposite = false)
    (hb : b.PlacesKnown)
    (h : (perform limit composite span children statement).run b = .ok (children', b')) :
    b.document.Keeps statement.names b'.document := by
  obtain ⟨node, b₁, rfl, hdeclare, -, hplace⟩ | ⟨count, names, rfl, -, hspaces, -⟩ | ⟨-, hstep, -⟩ :=
    perform_cases hbody hb h
  · rw [(place_cases hplace).1]
    exact keeps_declare hdeclare
  · exact hspaces.keeps
  · exact hstep.document.keeps.mono (List.nil_subset _)

/-- What a statement without a body places is registered. -/
theorem placesKnown_perform {statement : Statement} (hbody : statement.isComposite = false)
    (hb : b.PlacesKnown)
    (h : (perform limit composite span children statement).run b = .ok (children', b')) :
    b'.PlacesKnown := by
  obtain ⟨node, b₁, -, hdeclare, -, hplace⟩ | ⟨count, names, -, -, hspaces, -⟩ | ⟨-, hstep, -⟩ :=
    perform_cases hbody hb h
  · have hdeclared := hb.of_keeps (keeps_declare hdeclare) (declare_cases hdeclare).1
    exact hdeclared.of_place (contains_of_declare hdeclare) hplace
  · exact hspaces.placesKnown hb
  · exact hb.of_keeps hstep.document.keeps hstep.placed

end

/-! ### Runs -/

/-- Holds for runs over statements in the body of `composite`, from one state of the builder and of
what the body has placed to another one. -/
inductive Carries (limit : Nat) : BlockId → Builder → List BlockId → List (Located Statement) →
    Builder → List BlockId → Prop where
  | nil {composite b children} : Carries limit composite b children [] b children
  | composite {composite b b₁ b₂ b₃ b' children children₁ children' inner head body span statements}
      (hdeclare : (declare limit head span).run b = .ok ((), b₁))
      (hapart : head.id ∉ b₁.enclosing)
      (hbody : Carries limit head.id { b₁ with enclosing := head.id :: b₁.enclosing } [] body b₂
        inner)
      (hplace : (place head.id children).run { b₂ with
          document := b₂.document.setChildren head.id (b₂.document.children head.id ++ inner.reverse)
          enclosing := b₂.enclosing.tail } = .ok (children₁, b₃))
      (hrest : Carries limit composite b₃ children₁ statements b' children') :
      Carries limit composite b children (⟨.composite head body, span⟩ :: statements) b' children'
  | step {composite b b₁ b' children children₁ children' statement span statements}
      (hstatement : statement.isComposite = false) (hknown : b.PlacesKnown)
      (hperform : (perform limit composite span children statement).run b = .ok (children₁, b₁))
      (hrest : Carries limit composite b₁ children₁ statements b' children') :
      Carries limit composite b children (⟨statement, span⟩ :: statements) b' children'

variable {b b' : Builder} {composite : BlockId} {children children' : List BlockId} {limit : Nat}
  {ss : List (Located Statement)}

/-- Holds when single steps do to a document what is said of them (`own`), and that adds up. -/
structure Accumulates {γ : Type} (limit : Nat) (own : Located Statement → List γ)
    (P : List γ → Document → Document → Prop) : Prop where
  refl : ∀ d, P [] d d
  trans : ∀ {xs ys d d' d''}, P xs d d' → P ys d' d'' → P (xs ++ ys) d d''
  head : ∀ {head body span u b b'}, (declare limit head span).run b = .ok (u, b') →
    P (own ⟨.composite head body, span⟩) b.document b'.document
  /-- Nothing is said of what a body has placed, when that is put into its composite. -/
  fill : ∀ d id more, P [] d (d.setChildren id (d.children id ++ more))
  step : ∀ {statement span composite b b' children children'}, statement.isComposite = false →
    b.PlacesKnown →
    (perform limit composite span children statement).run b = .ok (children', b') →
    P (own ⟨statement, span⟩) b.document b'.document

namespace Carries

/-- A run does to a document what its steps do. -/
theorem accumulates {γ : Type} {own : Located Statement → List γ}
    {P : List γ → Document → Document → Prop} (hP : Accumulates limit own P)
    (h : Carries limit composite b children ss b' children') :
    P (collect own ss) b.document b'.document := by
  induction h with
  | nil => exact hP.refl _
  | @composite _ b _ b₂ b₃ _ _ _ _ inner head body span _ hdeclare _ _ hplace _ ihbody ih =>
    have hopened : P (own ⟨.composite head body, span⟩ ++ collect own body) b.document b₂.document :=
      hP.trans (hP.head hdeclare) ihbody
    have hfilled : P [] b₂.document b₃.document := by
      rw [(place_cases hplace).1]
      exact hP.fill b₂.document head.id inner.reverse
    have hfirst := hP.trans hopened hfilled
    rw [List.append_nil] at hfirst
    rw [collect_composite]
    exact hP.trans hfirst ih
  | step hstatement hknown hperform _ ih =>
    rw [collect_of_not_composite hstatement]
    exact hP.trans (hP.step hstatement hknown hperform) ih

private theorem accumulates_keeps (limit : Nat) :
    Accumulates limit (fun s ↦ s.value.names) fun names d d' ↦ d.Keeps names d' where
  refl := .refl
  trans := .trans
  head := keeps_declare
  fill := Document.keeps_setChildren_append
  step := keeps_perform

/-- A run keeps all blocks but those that its statements name. -/
theorem keeps (h : Carries limit composite b children ss b' children') :
    b.document.Keeps (namesIn ss) b'.document :=
  h.accumulates (accumulates_keeps limit)

/-- Induction on runs, with what statements without a body do in place of what they are. -/
@[elab_as_elim]
theorem induction {composite : BlockId} {b : Builder} {children : List BlockId}
    {ss : List (Located Statement)} {b' : Builder} {children' : List BlockId}
    {motive : ∀ {composite b children ss b' children'},
      Carries limit composite b children ss b' children' → Prop}
    (h : Carries limit composite b children ss b' children')
    (nil : ∀ {composite b children}, motive (@Carries.nil limit composite b children))
    (node : ∀ {composite b b₁ b₂ b' children children₁ children' node span statements}
      (_ : (declare limit node span).run b = .ok ((), b₁)) (_ : node.id ∉ b₁.enclosing)
      (_ : (place node.id children).run b₁ = .ok (children₁, b₂))
      (hrest : Carries limit composite b₂ children₁ statements b' children'),
      motive hrest →
        ∀ h : Carries limit composite b children (⟨.node node, span⟩ :: statements) b' children',
          motive h)
    (composite : ∀ {composite b b₁ b₂ b₃ b' children children₁ children' inner head body span
        statements}
      (hdeclare : (declare limit head span).run b = .ok ((), b₁)) (hapart : head.id ∉ b₁.enclosing)
      (hbody : Carries limit head.id { b₁ with enclosing := head.id :: b₁.enclosing } [] body b₂
        inner)
      (hplace : (place head.id children).run { b₂ with
          document := b₂.document.setChildren head.id (b₂.document.children head.id ++ inner.reverse)
          enclosing := b₂.enclosing.tail } = .ok (children₁, b₃))
      (hrest : Carries limit composite b₃ children₁ statements b' children'),
      motive hbody → motive hrest → motive (.composite hdeclare hapart hbody hplace hrest))
    (space : ∀ {composite b b₁ b' children children' names count span statements}
      (_ : names.length = count) (_ : b.Spaces composite names b₁)
      (hrest : Carries limit composite b₁ (names.reverse ++ children) statements b' children'),
      motive hrest →
        ∀ h : Carries limit composite b children (⟨.space count, span⟩ :: statements) b' children',
          motive h)
    (other : ∀ {composite b b₁ b' children children' statement span statements}
      (_ : statement.placesBlocks = false) (_ : b.Decorates statement.classed b₁)
      (hrest : Carries limit composite b₁ children statements b' children'),
      motive hrest →
        ∀ h : Carries limit composite b children (⟨statement, span⟩ :: statements) b' children',
          motive h) :
    motive h := by
  induction h with
  | nil => exact nil
  | composite hdeclare hapart hbody hplace hrest ihbody ih =>
    exact composite hdeclare hapart hbody hplace hrest ihbody ih
  | step hstatement hknown hperform hrest ih =>
    obtain ⟨decl, b₁, rfl, hdeclare, hapart, hplace⟩ | ⟨count, names, rfl, hcount, hspaces, rfl⟩ |
      ⟨hother, hstep, rfl⟩ := perform_cases hstatement hknown hperform
    · exact node hdeclare hapart hplace hrest ih _
    · exact space hcount hspaces hrest ih _
    · exact other hother hstep hrest ih _

end Carries

/-- Statements that are carried out make up a run. -/
theorem carries_of_performAll (statements : List (Located Statement)) (hb : b.PlacesKnown)
    (h : (performAll limit composite children statements).run b = .ok (children', b')) :
    Carries limit composite b children statements b' children' ∧ b'.PlacesKnown := by
  induction statements using statements_induction generalizing composite b children children' b' with
  | nil =>
    rw [performAll] at h
    cases h
    exact ⟨.nil, hb⟩
  | composite head body span statements ihbody ih =>
    rw [performAll, run_bind_ok_iff] at h
    obtain ⟨children₁, b₃, hperform, h⟩ := h
    obtain ⟨b₁, b₂, inner, hdeclare, hapart, hbody, hplace⟩ := composite_cases hperform
    have hb₁ : b₁.PlacesKnown := hb.of_keeps (keeps_declare hdeclare) (declare_cases hdeclare).1
    have hopened : PlacesKnown { b₁ with enclosing := head.id :: b₁.enclosing } := hb₁
    obtain ⟨hinner, hb₂⟩ := ihbody hopened hbody
    have hdeclared : b₁.document.contains head.id = true := contains_of_declare hdeclare
    have hcontains : b₂.document.contains head.id = true := hinner.keeps.contains hdeclared
    have hfilled := b₂.document.keeps_setChildren_append head.id inner.reverse
    have hclosed : PlacesKnown { b₂ with
        document := b₂.document.setChildren head.id (b₂.document.children head.id ++ inner.reverse)
        enclosing := b₂.enclosing.tail } := fun id hid ↦ hfilled.contains (hb₂ id hid)
    obtain ⟨hrest, hb'⟩ := ih (hclosed.of_place (hfilled.contains hcontains) hplace) h
    exact ⟨.composite hdeclare hapart hinner hplace hrest, hb'⟩
  | other statement span statements hother ih =>
    rw [performAll, run_bind_ok_iff] at h
    obtain ⟨children₁, b₁, hperform, h⟩ := h
    obtain ⟨hrest, hb'⟩ := ih (placesKnown_perform hother hb hperform) h
    exact ⟨.step hother hb hperform hrest, hb'⟩

/-- A document that is built is what a run over all statements leaves, with what the run has placed
put inside the root. -/
theorem exists_carries_of_build {d : Document} (h : build limit ss = .ok d) :
    ∃ b children, Carries limit BlockId.root start [] ss b children ∧ d = b.closed children := by
  obtain ⟨children, b, hrun, rfl⟩ := run_of_build_ok h
  exact ⟨b, children, (carries_of_performAll ss placesKnown_start hrun).1, rfl⟩

end Builder

end BlockDiagram
