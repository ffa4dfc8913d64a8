import BlockDiagram.Proofs.Document.Carrying
import BlockDiagram.Proofs.Document.Parsed
import BlockDiagram.Proofs.Parser.Names

/-!
# Names that are made up

Spacers and composites without names are named by the program, in two different ways. Spacers get
names that are free where they are placed; composites without names are numbered before anything is
placed. All of them are blocks of their own (`fresh_of_parse`), unless a composite with the name
`block` holds spacers: those are named as composites without names are, and such a composite may take
a spacer over (`spacer_taken_over`).
-/

namespace BlockDiagram

open Source (Located)
open Grammar (Production anonymousId anonymousIds headRules labelRules nodeRules)

mutual

/-- The composites of the spacers that a statement asks for, one for each of them. The statement
itself is in the body of `composite`. -/
def Statement.spaced (composite : BlockId) : Statement → List BlockId
  | .space count => List.replicate count composite
  | .composite head body => spacedIn head.id body
  | _ => []

/-- The composites of the spacers that statements in the body of `composite` ask for, one for each
of them. -/
def spacedIn (composite : BlockId) : List (Located Statement) → List BlockId
  | [] => []
  | ⟨statement, _⟩ :: statements => statement.spaced composite ++ spacedIn composite statements

end

mutual

/-- The composites in a statement, each with the one it is written in. The statement itself is in the
body of `composite`. -/
def Statement.composites (composite : BlockId) : Statement → List Mention
  | .composite head body => ⟨composite, head.id⟩ :: compositesIn head.id body
  | _ => []

/-- The composites in statements, each with the one it is written in. The statements themselves are
in the body of `composite`. -/
def compositesIn (composite : BlockId) : List (Located Statement) → List Mention
  | [] => []
  | ⟨statement, _⟩ :: statements =>
    statement.composites composite ++ compositesIn composite statements

end

section

variable {statement : Statement} {span : Source.Span} {ss : List (Located Statement)}

/-- A statement that places no blocks asks for none. -/
theorem spacedIn_cons_of_placesBlocks (h : statement.placesBlocks = false) (composite : BlockId) :
    spacedIn composite (⟨statement, span⟩ :: ss) = spacedIn composite ss := by
  cases statement <;> first | rfl | cases h

private theorem compositesIn_cons_of_placesBlocks (h : statement.placesBlocks = false)
    (composite : BlockId) :
    compositesIn composite (⟨statement, span⟩ :: ss) = compositesIn composite ss := by
  cases statement <;> first | rfl | cases h

end

/-- The composites of a source that are written without a name. Their names have dashes in them. -/
def anonymousIn (ss : List (Located Statement)) : List Mention :=
  (compositesIn BlockId.root ss).filter fun mention ↦ mention.id.toList.contains '-'

private theorem idsOf_compositesIn (composite : BlockId) (ss : List (Located Statement)) :
    idsOf (compositesIn composite ss) = headsIn ss := by
  induction ss using statements_induction generalizing composite with
  | nil => rfl
  | composite head body span statements ihbody ih =>
    rw [compositesIn, Statement.composites, idsOf_append, idsOf_cons, ihbody, ih]
    rfl
  | other statement span statements hother ih =>
    have hnone : statement.composites composite = [] ∧ statement.heads = [] := by
      cases statement <;> first | exact ⟨rfl, rfl⟩ | cases hother
    simp only [compositesIn, collect_of_not_composite hother, hnone, ih, List.nil_append]

/-- A composite is declared. -/
theorem id_mem_namesIn_of_mem_compositesIn {composite : BlockId} {ss : List (Located Statement)}
    {mention : Mention} (h : mention ∈ compositesIn composite ss) : mention.id ∈ namesIn ss := by
  rw [(perm_namesIn ss).mem_iff, ← idsOf_compositesIn composite]
  exact List.mem_append_right _ (List.mem_map_of_mem h)

namespace Document

variable {d d₁ d' : Document} {composite : BlockId} {children children₁ children' : List BlockId}
  {names names' : List BlockId}

/-- Holds when a block is in the composite where it is mentioned, or is to be put into it when the
body of `composite` ends. -/
def Holds (d : Document) (composite : BlockId) (children : List BlockId) (mention : Mention) :
    Prop :=
  mention.id ∈ d.children mention.composite ∨
    mention.composite = composite ∧ mention.id ∈ children

private theorem Holds.mono {mention : Mention} (h : d.Holds composite children mention)
    (hkeeps : d.Keeps names d') (hchildren : children ⊆ children') :
    d'.Holds composite children' mention :=
  h.imp (fun hmem ↦ hkeeps.children _ hmem) fun hmem ↦ ⟨hmem.1, hchildren hmem.2⟩

/-- When the body of a composite ends, what is held in it is in its children. -/
theorem Holds.mem_children {mention : Mention} (h : d.Holds composite children mention)
    (hcontains : d.contains composite = true) :
    mention.id ∈ (d.setChildren composite
      (d.children composite ++ children.reverse)).children mention.composite := by
  rcases h with hmem | ⟨hcomposite, hmem⟩
  · exact (d.keeps_setChildren_append composite children.reverse).children _ hmem
  · rw [hcomposite, children_setChildren_self hcontains]
    exact List.mem_append_right _ (List.mem_reverse.2 hmem)

/-- Holds for the shape of a block. -/
def HasShape (d : Document) (id : BlockId) (shape : Shape) : Prop :=
  ∃ b, d.block? id = some b ∧ b.shape = shape

/-- A block keeps its shape unless a declaration names it. -/
theorem Keeps.hasShape (h : d.Keeps names d') {id : BlockId} {shape : Shape} (hid : id ∉ names)
    (hshape : d.HasShape id shape) : d'.HasShape id shape := by
  obtain ⟨b, hb, hshape⟩ := hshape
  obtain ⟨b', hb', hsame⟩ := h.block id b hb
  exact ⟨b', hb', (hsame hid).2.2.trans hshape⟩

/-- Decorating blocks makes no spacers. -/
theorem Decorates.isSpacer {classed : List BlockId} (h : d.Decorates classed d') {id : BlockId}
    (hspacer : d'.IsSpacer id) : d.IsSpacer id := by
  obtain ⟨b', hb', hshape⟩ := hspacer
  cases hb : d.block? id with
  | none =>
    rw [(h.new id b' hb hb').2.1] at hshape
    cases hshape
  | some b =>
    obtain ⟨b'', hb'', hresembles⟩ := h.kept id b hb
    obtain rfl := Option.some.inj (hb'.symm.trans hb'')
    exact ⟨b, hb, hresembles.shape.symm.trans hshape⟩

/-- What statements in the body of `composite` do that ask for the given spacers and no others. They
declare blocks of the given names only. -/
structure Makes (composite : BlockId) (d : Document) (children names : List BlockId)
    (spacers : List Mention) (d' : Document) (children' : List BlockId) : Prop where
  keeps : d.Keeps names d'
  children : children ⊆ children'
  nodup : (idsOf spacers).Nodup
  fresh : ∀ id ∈ idsOf spacers, d.contains id = false
  isSpacer : ∀ id ∈ idsOf spacers, d'.IsSpacer id
  only : ∀ id, d'.IsSpacer id → d.IsSpacer id ∨ id ∈ idsOf spacers
  held : ∀ mention ∈ spacers, d'.Holds composite children' mention

namespace Makes

variable {spacers spacers' : List Mention}

/-- Statements follow one another if the later ones declare none of the spacers. -/
theorem append (h : Makes composite d children names spacers d₁ children₁)
    (h' : Makes composite d₁ children₁ names' spacers' d' children')
    (hapart : ∀ id ∈ idsOf spacers, id ∉ names') :
    Makes composite d children (names ++ names') (spacers ++ spacers') d' children' where
  keeps := h.keeps.trans h'.keeps
  children := List.Subset.trans h.children h'.children
  nodup := by
    rw [idsOf_append, List.nodup_append]
    refine ⟨h.nodup, h'.nodup, ?_⟩
    rintro id hid _ hid' rfl
    obtain ⟨b, hb, -⟩ := h.isSpacer id hid
    have hfree := h'.fresh id hid'
    rw [contains_of_block? hb] at hfree
    cases hfree
  fresh := by
    rw [idsOf_append]
    refine List.forall_mem_append.2 ⟨h.fresh, fun id hid ↦ ?_⟩
    rw [← Bool.not_eq_true]
    intro hcontains
    have hfree := h'.fresh id hid
    rw [h.keeps.contains hcontains] at hfree
    cases hfree
  isSpacer := by
    rw [idsOf_append]
    refine List.forall_mem_append.2 ⟨fun id hid ↦ ?_, h'.isSpacer⟩
    exact h'.keeps.hasShape (hapart id hid) (h.isSpacer id hid)
  only id hspacer := by
    rw [idsOf_append, List.mem_append, ← or_assoc]
    exact (h'.only id hspacer).imp_left (h.only id)
  held := List.forall_mem_append.2
    ⟨fun mention hmention ↦ (h.held mention hmention).mono h'.keeps h'.children, h'.held⟩

/-- Statements that make no spacers. -/
theorem of_none (hkeeps : d.Keeps names d') (hchildren : children ⊆ children')
    (honly : ∀ id, d'.IsSpacer id → d.IsSpacer id) :
    Makes composite d children names [] d' children' where
  keeps := hkeeps
  children := hchildren
  nodup := List.nodup_nil
  fresh := List.forall_mem_nil _
  isSpacer := List.forall_mem_nil _
  only id hspacer := .inl (honly id hspacer)
  held := List.forall_mem_nil _

/-- When the body of a composite ends, its spacers are held by the composites they are in. -/
theorem close {inner : BlockId} {placed : List BlockId}
    (h : Makes inner d [] names spacers d₁ placed) (hcontains : d₁.contains inner = true)
    (hchildren : children ⊆ children') :
    Makes composite d children names spacers
      (d₁.setChildren inner (d₁.children inner ++ placed.reverse)) children' where
  keeps := by
    have hkeeps := h.keeps.trans (d₁.keeps_setChildren_append inner placed.reverse)
    rwa [List.append_nil] at hkeeps
  children := hchildren
  nodup := h.nodup
  fresh := h.fresh
  isSpacer id hid := isSpacer_setChildren_iff.2 (h.isSpacer id hid)
  only id hspacer := h.only id (isSpacer_setChildren_iff.1 hspacer)
  held mention hmention := .inl ((h.held mention hmention).mem_children hcontains)

end Makes

end Document

namespace Builder

variable {b b₁ b' : Builder} {composite : BlockId} {children children₁ children' : List BlockId}
  {limit : Nat}

private theorem subset_of_place {id : BlockId}
    (h : (place id children).run b = .ok (children', b')) : children ⊆ children' := by
  obtain ⟨-, -, -, hchildren⟩ := place_cases h
  rw [hchildren]
  split
  · exact List.Subset.refl _
  · exact List.subset_cons_self id children

/-- What a body has placed stays placed in it. -/
theorem Carries.children_subset {ss : List (Located Statement)}
    (h : Carries limit composite b children ss b' children') : children ⊆ children' := by
  induction h using Carries.induction with
  | nil => exact List.Subset.refl _
  | node _ _ hplace _ ih => exact List.Subset.trans (subset_of_place hplace) ih
  | composite _ _ _ hplace _ _ ih => exact List.Subset.trans (subset_of_place hplace) ih
  | space _ _ _ ih => exact List.Subset.trans (List.subset_append_right _ _) ih
  | other _ _ _ ih => exact ih

/-- What is placed is declared, or it is a spacer. -/
theorem Carries.placed_cases {ss : List (Located Statement)}
    (h : Carries limit composite b children ss b' children') {id : BlockId} (hid : id ∈ b'.placed) :
    id ∈ b.placed ∨ id ∈ namesIn ss ∨ ∃ c ∈ spacedIn composite ss, ∃ n, id = c.numbered n := by
  induction h using Carries.induction with
  | nil => exact .inl hid
  | @node _ _ _ _ _ _ _ _ node _ _ hdeclare _ hplace _ ih =>
    rcases ih hid with hold | hname | hspaced
    · rw [(place_cases hplace).2.2.1, (declare_cases hdeclare).1] at hold
      exact hold.symm.imp_right fun heq ↦ .inl (List.mem_cons.2 (.inl heq))
    · exact .inr (.inl (List.mem_cons_of_mem _ hname))
    · exact .inr (.inr hspaced)
  | @composite _ _ _ _ _ _ _ _ _ _ head body _ _ hdeclare _ _ hplace _ ihbody ih =>
    simp only [namesIn_composite, spacedIn, Statement.spaced, List.mem_append, List.mem_cons]
    rcases ih hid with hold | hname | ⟨c, hc, hn⟩
    · rw [(place_cases hplace).2.2.1] at hold
      rcases hold with rfl | hold
      · exact .inr (.inl (.inl rfl))
      · rcases ihbody hold with hold | hname | ⟨c, hc, hn⟩
        · rw [(declare_cases hdeclare).1] at hold
          exact .inl hold
        · exact .inr (.inl (.inr (.inl hname)))
        · exact .inr (.inr ⟨c, .inl hc, hn⟩)
    · exact .inr (.inl (.inr (.inr hname)))
    · exact .inr (.inr ⟨c, .inr hc, hn⟩)
  | @space composite _ _ _ _ _ names count _ _ hcount hspaces _ ih =>
    simp only [spacedIn, Statement.spaced, List.mem_append]
    rcases ih hid with hold | hname | ⟨c, hc, hn⟩
    · rcases (hspaces.placed id).1 hold with hnew | hold
      · have hpos : count ≠ 0 := by
          rw [← hcount]
          exact List.length_pos_of_mem hnew |>.ne'
        exact .inr (.inr ⟨composite, .inl (List.mem_replicate.2 ⟨hpos, rfl⟩),
          (hspaces.fresh id hnew).1⟩)
      · exact .inl hold
    · exact .inr (.inl hname)
    · exact .inr (.inr ⟨c, .inr hc, hn⟩)
  | @other composite _ _ _ _ _ _ _ _ hother hstep _ ih =>
    rw [hstep.placed] at ih
    rw [namesIn_cons_of_placesBlocks hother, spacedIn_cons_of_placesBlocks hother composite]
    exact ih hid

/-! ### Spacers -/

private theorem shape_merge (node : NodeDecl) (block : Block) :
    (merge node block).shape = if node.shape = .unknown then block.shape else node.shape := by
  unfold merge
  dsimp only
  split <;> split <;> rfl

/-- Declarations of nodes make no spacers. -/
theorem isSpacer_of_declare {node : NodeDecl} {span : Source.Span} {u : Unit}
    (h : (declare limit node span).run b = .ok (u, b')) (hnode : node.shape ≠ .space) {id : BlockId}
    (hspacer : b'.document.IsSpacer id) : b.document.IsSpacer id := by
  obtain ⟨block', hblock', hshape⟩ := hspacer
  rw [(declare_cases h).2.2] at hblock'
  split at hblock'
  · cases hblock : b.document.block? id with
    | none =>
      rw [hblock] at hblock'
      obtain rfl := Option.some.inj hblock'
      exact absurd hshape hnode
    | some block =>
      rw [hblock] at hblock'
      obtain rfl := Option.some.inj hblock'
      rw [Option.elim_some, shape_merge] at hshape
      split at hshape
      · exact ⟨block, hblock, hshape⟩
      · exact absurd hshape hnode
  · exact ⟨block', hblock', hshape⟩

/-- The spacers of a space statement. -/
theorem Spaces.makes {names : List BlockId} (h : b.Spaces composite names b')
    (children : List BlockId) :
    Document.Makes composite b.document children [] (names.map (Mention.mk composite)) b'.document
      (names.reverse ++ children) where
  keeps := h.keeps
  children := List.subset_append_right _ _
  nodup := by
    rw [idsOf_map_mk]
    exact h.nodup
  fresh := by
    rw [idsOf_map_mk]
    exact fun id hid ↦ (h.fresh id hid).2
  isSpacer := by
    rw [idsOf_map_mk]
    exact fun id hid ↦ ⟨_, (h.block id).trans (if_pos hid), rfl⟩
  only id hspacer := by
    rw [idsOf_map_mk]
    obtain ⟨block, hblock, hshape⟩ := hspacer
    rw [h.block] at hblock
    split at hblock
    · next hid => exact .inr hid
    · exact .inl ⟨block, hblock, hshape⟩
  held := by
    intro mention hmention
    obtain ⟨id, hid, rfl⟩ := List.mem_map.1 hmention
    exact .inr ⟨rfl, List.mem_append_left _ (List.mem_reverse.2 hid)⟩

/-- The declaration of a node makes no spacers. -/
theorem makes_node {node : NodeDecl} {span : Source.Span} {u : Unit} (hnode : node.shape ≠ .space)
    (hdeclare : (declare limit node span).run b = .ok (u, b₁))
    (hplace : (place node.id children).run b₁ = .ok (children', b')) :
    Document.Makes composite b.document children [node.id] [] b'.document children' := by
  rw [(place_cases hplace).1]
  exact .of_none (keeps_declare hdeclare) (subset_of_place hplace)
    fun _ ↦ isSpacer_of_declare hdeclare hnode

/-- A composite makes the spacers in its body. -/
theorem makes_composite {head : NodeDecl} {span : Source.Span} {u : Unit} {b₂ : Builder}
    {names placed : List BlockId} {spacers : List Mention} (hhead : head.shape ≠ .space)
    (hdeclare : (declare limit head span).run b = .ok (u, b₁))
    (hbody : Document.Makes head.id b₁.document [] names spacers b₂.document placed)
    (hplace : (place head.id children).run { b₂ with
      document := b₂.document.setChildren head.id (b₂.document.children head.id ++ placed.reverse)
      enclosing := b₂.enclosing.tail } = .ok (children', b')) :
    Document.Makes composite b.document children (head.id :: names) spacers b'.document
      children' := by
  rw [(place_cases hplace).1]
  have hcontains : b₂.document.contains head.id = true :=
    hbody.keeps.contains (contains_of_declare hdeclare)
  have hfirst : Document.Makes composite b.document children [head.id] [] b₁.document children :=
    .of_none (keeps_declare hdeclare) (List.Subset.refl _)
      fun _ ↦ isSpacer_of_declare hdeclare hhead
  exact hfirst.append (hbody.close hcontains (subset_of_place hplace)) (List.forall_mem_nil _)

/-- A run makes a spacer wherever a statement asks for one. -/
theorem Carries.exists_makes {ss : List (Located Statement)}
    (h : Carries limit composite b children ss b' children') (hproper : AllProper ss)
    (hapart : ∀ c ∈ spacedIn composite ss, ∀ n, c.numbered n ∉ namesIn ss) :
    ∃ spacers, spacers.map Mention.composite = spacedIn composite ss ∧
      (∀ mention ∈ spacers, ∃ n, mention.id = mention.composite.numbered n) ∧
      Document.Makes composite b.document children (namesIn ss) spacers b'.document children' := by
  induction h using Carries.induction with
  | nil =>
    exact ⟨[], rfl, List.forall_mem_nil _, .of_none (.refl _) (List.Subset.refl _) fun _ h ↦ h⟩
  | node hdeclare _ hplace _ ih =>
    obtain ⟨spacers, hspaced, hnumbered, hrest⟩ := ih hproper.2 fun c hc n hmem ↦
      hapart c hc n (List.mem_cons_of_mem _ hmem)
    have hall := (makes_node hproper.1.shape_ne_space hdeclare hplace).append hrest
      (List.forall_mem_nil _)
    exact ⟨spacers, hspaced, hnumbered, hall⟩
  | @composite _ _ _ _ _ _ _ _ _ _ head body _ _ hdeclare _ _ hplace _ ihbody ih =>
    simp only [namesIn_composite, spacedIn, Statement.spaced, List.mem_append, List.mem_cons,
      not_or] at hapart
    obtain ⟨⟨hhead, -, hproperBody⟩, hproperRest⟩ := hproper
    obtain ⟨inner, hspacedInner, hnumberedInner, hbody⟩ := ihbody hproperBody
      fun c hc n ↦ (hapart c (.inl hc) n).2.1
    obtain ⟨spacers, hspaced, hnumbered, hrest⟩ := ih hproperRest
      fun c hc n ↦ (hapart c (.inr hc) n).2.2
    refine ⟨inner ++ spacers, ?_, List.forall_mem_append.2 ⟨hnumberedInner, hnumbered⟩,
      (makes_composite hhead.shape_ne_space hdeclare hbody hplace).append hrest fun id hid ↦ ?_⟩
    · rw [List.map_append, hspacedInner, hspaced]
      rfl
    · obtain ⟨mention, hmention, rfl⟩ := List.mem_map.1 hid
      obtain ⟨n, hn⟩ := hnumberedInner mention hmention
      have hc : mention.composite ∈ spacedIn head.id body :=
        hspacedInner ▸ List.mem_map_of_mem hmention
      rw [hn]
      exact (hapart _ (.inl hc) n).2.2
  | @space composite _ _ _ children _ names count _ _ hcount hspaces _ ih =>
    simp only [spacedIn, Statement.spaced, List.mem_append, List.mem_replicate] at hapart
    obtain ⟨spacers, hspaced, hnumbered, hrest⟩ := ih hproper.2 fun c hc ↦ hapart c (.inr hc)
    refine ⟨names.map (Mention.mk composite) ++ spacers, ?_, ?_,
      (hspaces.makes children).append hrest ?_⟩
    · rw [List.map_append, hspaced, List.map_map, spacedIn, Statement.spaced, ← hcount]
      exact congrArg (· ++ _) List.map_const'
    · refine List.forall_mem_append.2 ⟨fun mention hmention ↦ ?_, hnumbered⟩
      obtain ⟨id, hid, rfl⟩ := List.mem_map.1 hmention
      exact (hspaces.fresh id hid).1
    · rw [idsOf_map_mk]
      intro id hid
      obtain ⟨n, hn⟩ := (hspaces.fresh id hid).1
      have hpos : count ≠ 0 := hcount ▸ (List.length_pos_of_mem hid).ne'
      rw [hn]
      exact hapart composite (.inl ⟨hpos, rfl⟩) n
  | @other composite _ _ _ _ _ statement _ _ hother hstep _ ih =>
    rw [spacedIn_cons_of_placesBlocks hother composite] at hapart ⊢
    rw [namesIn_cons_of_placesBlocks hother] at hapart ⊢
    obtain ⟨spacers, hspaced, hnumbered, hrest⟩ := ih hproper.2 hapart
    have hall := (Document.Makes.of_none hstep.document.keeps (List.Subset.refl _)
      fun _ ↦ hstep.document.isSpacer).append hrest (List.forall_mem_nil _)
    exact ⟨spacers, hspaced, hnumbered, hall⟩

/-! ### Composites -/

/-- A composite that is declared is one from then on. -/
theorem hasShape_of_declare {head : NodeDecl} {span : Source.Span} {u : Unit}
    (h : (declare limit head span).run b = .ok (u, b')) (hhead : head.shape = .composite) :
    b'.document.HasShape head.id .composite := by
  refine ⟨_, ((declare_cases h).2.2 head.id).trans (if_pos rfl), ?_⟩
  cases b.document.block? head.id with
  | none => exact hhead
  | some block =>
    rw [Option.elim_some, shape_merge, hhead]
    rfl

private theorem not_mem_of_count_append {id : BlockId} {front back : List BlockId}
    (honce : (front ++ back).count id ≤ 1) (hid : id ∈ front) : id ∉ back := by
  intro hmem
  rw [List.count_append] at honce
  have := List.count_pos_iff.2 hid
  have := List.count_pos_iff.2 hmem
  omega

/-- A composite is held where it is written if it is not yet placed there, and it is one in the end if
nothing behind its head declares it again. -/
theorem Carries.holds_head {head : NodeDecl} {span : Source.Span} {b₂ b₃ : Builder}
    {placed : List BlockId} {body statements : List (Located Statement)}
    (hhead : head.shape = .composite) (hdeclare : (declare limit head span).run b = .ok ((), b₁))
    (hbody : Carries limit head.id { b₁ with enclosing := head.id :: b₁.enclosing } [] body b₂
      placed)
    (hplace : (place head.id children).run { b₂ with
      document := b₂.document.setChildren head.id (b₂.document.children head.id ++ placed.reverse)
      enclosing := b₂.enclosing.tail } = .ok (children₁, b₃))
    (hrest : Carries limit composite b₃ children₁ statements b' children')
    (hnew : head.id ∉ b₂.placed) (hlater : head.id ∉ namesIn body ++ namesIn statements) :
    b'.document.Holds composite children' ⟨composite, head.id⟩ ∧
      b'.document.HasShape head.id .composite := by
  rw [List.mem_append, not_or] at hlater
  have hplaced : children₁ = head.id :: children :=
    (place_cases hplace).2.2.2.trans (if_neg hnew)
  have hfirst : b₁.document.HasShape head.id .composite := hasShape_of_declare hdeclare hhead
  have hshape := hbody.keeps.hasShape hlater.1 hfirst
  have hset := (b₂.document.keeps_setChildren_append head.id placed.reverse).hasShape
    List.not_mem_nil hshape
  have hkeeps := hrest.keeps
  rw [(place_cases hplace).1] at hkeeps
  exact ⟨.inr ⟨rfl, hrest.children_subset (hplaced ▸ List.mem_cons_self)⟩,
    hkeeps.hasShape hlater.2 hset⟩

/-- What the body of a composite has placed is held in the end, since the composite holds it when its
body is complete. -/
theorem Carries.holds_inside {head : NodeDecl} {b₂ b₃ : Builder} {placed : List BlockId}
    {statements : List (Located Statement)} {mention : Mention}
    (hcontains : b₂.document.contains head.id = true)
    (hplace : (place head.id children).run { b₂ with
      document := b₂.document.setChildren head.id (b₂.document.children head.id ++ placed.reverse)
      enclosing := b₂.enclosing.tail } = .ok (children₁, b₃))
    (hrest : Carries limit composite b₃ children₁ statements b' children')
    (hholds : b₂.document.Holds head.id placed mention)
    (hshape : b₂.document.HasShape mention.id .composite)
    (hlater : mention.id ∉ namesIn statements) :
    b'.document.Holds composite children' mention ∧
      b'.document.HasShape mention.id .composite := by
  have hset := (b₂.document.keeps_setChildren_append head.id placed.reverse).hasShape
    List.not_mem_nil hshape
  have hkeeps := hrest.keeps
  rw [(place_cases hplace).1] at hkeeps
  exact ⟨.inl (hkeeps.children _ (hholds.mem_children hcontains)), hkeeps.hasShape hlater hset⟩

/-- What is new to a run and no spacer is placed only if it is declared. -/
theorem Carries.mem_namesIn_of_mem_placed {ss : List (Located Statement)}
    (h : Carries limit composite b children ss b' children') {id : BlockId} (hnew : id ∉ b.placed)
    (hapart : ∀ c ∈ spacedIn composite ss, ∀ n, id ≠ c.numbered n) (hid : id ∈ b'.placed) :
    id ∈ namesIn ss := by
  rcases h.placed_cases hid with hold | hname | ⟨c, hc, n, hn⟩
  · exact absurd hold hnew
  · exact hname
  · exact absurd hn (hapart c hc n)

/-- A composite that is declared once and is no spacer is one in the end, and it is held by the
composite it is written in. -/
theorem Carries.holds_of_count {ss : List (Located Statement)}
    (h : Carries limit composite b children ss b' children') (hproper : AllProper ss)
    {mention : Mention} (hmention : mention ∈ compositesIn composite ss)
    (honce : (namesIn ss).count mention.id ≤ 1) (hnew : mention.id ∉ b.placed)
    (hapart : ∀ c ∈ spacedIn composite ss, ∀ n, mention.id ≠ c.numbered n) :
    b'.document.Holds composite children' mention ∧
      b'.document.HasShape mention.id .composite := by
  induction h using Carries.induction with
  | nil => cases hmention
  | @node _ _ _ _ _ _ _ _ node _ statements hdeclare _ hplace _ ih =>
    have hmention : mention ∈ compositesIn _ statements := hmention
    have honce : ([node.id] ++ namesIn statements).count mention.id ≤ 1 := honce
    have hname := id_mem_namesIn_of_mem_compositesIn hmention
    have hne : mention.id ≠ node.id := fun heq ↦
      not_mem_of_count_append honce (List.mem_singleton.2 heq) hname
    refine ih hproper.2 hmention ?_ ?_ hapart
    · rw [List.count_append] at honce
      omega
    · rw [(place_cases hplace).2.2.1, (declare_cases hdeclare).1, not_or]
      exact ⟨hne, hnew⟩
  | @composite _ _ b₁ b₂ _ _ _ _ _ placed head body _ statements hdeclare _ hbody hplace hrest
      ihbody ih =>
    simp only [spacedIn, Statement.spaced, List.mem_append] at hapart
    obtain ⟨⟨-, hhead, hproperBody⟩, hproperRest⟩ := hproper
    have honce : (head.id :: namesIn body ++ namesIn statements).count mention.id ≤ 1 := honce
    have hopened : mention.id ∉ b₁.placed := by rwa [(declare_cases hdeclare).1]
    have hinner : mention.id ∈ b₂.placed → mention.id ∈ namesIn body :=
      hbody.mem_namesIn_of_mem_placed hopened fun c hc ↦ hapart c (.inl hc)
    -- The composite that is looked for is this one, one in its body, or one behind it.
    rcases List.mem_append.1 hmention with hmention | hmention
    · rcases List.mem_cons.1 hmention with rfl | hmention
      · have hlater : head.id ∉ namesIn body ++ namesIn statements :=
          @not_mem_of_count_append head.id [head.id] _ honce (List.mem_singleton_self _)
        have hfree : head.id ∉ b₂.placed := fun hmem ↦
          hlater (List.mem_append_left _ (hinner hmem))
        exact Carries.holds_head hhead hdeclare hbody hplace hrest hfree hlater
      · have hname := id_mem_namesIn_of_mem_compositesIn hmention
        have hlater := not_mem_of_count_append honce (List.mem_cons_of_mem _ hname)
        have hbodyOnce : (namesIn body).count mention.id ≤ 1 := by
          rw [List.count_append, List.count_cons] at honce
          omega
        obtain ⟨hholds, hshape⟩ := ihbody hproperBody hmention hbodyOnce hopened
          fun c hc ↦ hapart c (.inl hc)
        have hdeclared : b₁.document.contains head.id = true := contains_of_declare hdeclare
        have hcontains : b₂.document.contains head.id = true := hbody.keeps.contains hdeclared
        exact Carries.holds_inside hcontains hplace hrest hholds hshape hlater
    · have hname := id_mem_namesIn_of_mem_compositesIn hmention
      refine ih hproperRest hmention ?_ ?_ fun c hc ↦ hapart c (.inr hc)
      · rw [List.count_append] at honce
        omega
      · rw [(place_cases hplace).2.2.1]
        intro hmem
        have hfront : mention.id ∈ head.id :: namesIn body :=
          List.mem_cons.2 (hmem.imp_right hinner)
        exact not_mem_of_count_append honce hfront hname
  | @space composite _ _ _ children _ names count _ _ hcount hspaces _ ih =>
    simp only [spacedIn, Statement.spaced, List.mem_append, List.mem_replicate] at hapart
    refine ih hproper.2 hmention honce ?_ fun c hc ↦ hapart c (.inr hc)
    rw [hspaces.placed, not_or]
    refine ⟨fun hmem ↦ ?_, hnew⟩
    obtain ⟨n, hn⟩ := (hspaces.fresh _ hmem).1
    have hpos : count ≠ 0 := hcount ▸ (List.length_pos_of_mem hmem).ne'
    exact hapart composite (.inl ⟨hpos, rfl⟩) n hn
  | @other composite _ _ _ _ _ statement _ _ hother hstep _ ih =>
    rw [compositesIn_cons_of_placesBlocks hother composite] at hmention
    rw [namesIn_cons_of_placesBlocks hother] at honce
    rw [spacedIn_cons_of_placesBlocks hother composite] at hapart
    exact ih hproper.2 hmention honce (by rwa [hstep.placed]) hapart

end Builder

/-! ### Names -/

private theorem dash_mem_numbered (id : BlockId) (n : Nat) : '-' ∈ (id.numbered n).toList := by
  rw [Builder.toList_numbered]
  exact List.mem_append_right _ List.mem_cons_self

/-- Composites without names are named as the parts of a block called `block` are. -/
theorem anonymousId_eq_numbered (n : Nat) : anonymousId n = BlockId.numbered "block" n := by
  refine String.toList_injective ?_
  rw [Grammar.toList_anonymousId, Builder.toList_numbered]
  exact List.append_assoc "block".toList ['-'] _

private theorem nodup_anonymousIds (n count : Nat) : (anonymousIds n count).Nodup := by
  refine List.Nodup.map (fun k m hkm ↦ ?_) List.nodup_range'
  rw [anonymousId_eq_numbered, anonymousId_eq_numbered] at hkm
  exact Builder.numbered_injective _ hkm

section

variable {ss : List (Located Statement)} {written : List String} {count : Nat}

/-- The composites without names are those that are named by the program. -/
theorem perm_idsOf_anonymousIn
    (h : Grammar.Accounts (nodesIn ss) (headsIn ss) written (anonymousIds 0 count))
    (hwritten : ∀ id ∈ written, '-' ∉ id.toList) :
    (idsOf (anonymousIn ss)).Perm (anonymousIds 0 count) := by
  obtain ⟨named, hnodes, hheads⟩ := h
  have hids : idsOf (anonymousIn ss) = (headsIn ss).filter fun id ↦ id.toList.contains '-' := by
    rw [← idsOf_compositesIn BlockId.root, idsOf, idsOf, List.filter_map]
    rfl
  have hnamed : named.filter (fun id ↦ id.toList.contains '-') = [] := by
    refine List.filter_eq_nil_iff.2 fun id hid hdash ↦ ?_
    exact hwritten id (hnodes.subset (List.mem_append_right _ hid)) (List.contains_iff_mem.1 hdash)
  have hall : (anonymousIds 0 count).filter (fun id ↦ id.toList.contains '-') =
      anonymousIds 0 count :=
    List.filter_eq_self.2 fun id hid ↦
      List.contains_iff_mem.2 (Grammar.dash_mem_of_mem_anonymousIds hid)
  have hperm := hheads.filter fun id ↦ id.toList.contains '-'
  rwa [List.filter_append, hnamed, hall, List.nil_append, ← hids] at hperm

/-- Composites without names are declared once each. -/
theorem count_namesIn_le_one
    (h : Grammar.Accounts (nodesIn ss) (headsIn ss) written (anonymousIds 0 count))
    (hwritten : ∀ id ∈ written, '-' ∉ id.toList) {id : String} (hdash : '-' ∈ id.toList) :
    (namesIn ss).count id ≤ 1 := by
  obtain ⟨named, hnodes, hheads⟩ := h
  have hnot : written.count id = 0 := List.count_eq_zero.2 fun hid ↦ hwritten id hid hdash
  have hone := List.nodup_iff_count_le_one.1 (nodup_anonymousIds 0 count) id
  rw [(perm_namesIn ss).count_eq, List.count_append, hheads.count_eq, List.count_append]
  rw [← hnodes.count_eq, List.count_append] at hnot
  omega

/-- Spacers are named as no declared block is, unless they are those of a composite called `block`
and there are composites without names. -/
theorem numbered_not_mem_namesIn
    (h : Grammar.Accounts (nodesIn ss) (headsIn ss) written (anonymousIds 0 count))
    (hwritten : ∀ id ∈ written, '-' ∉ id.toList) {composite : BlockId}
    (hblock : composite = "block" → anonymousIn ss = []) (n : Nat) :
    composite.numbered n ∉ namesIn ss := by
  intro hname
  rcases h.mem_or_mem hname with hmem | hmem
  · exact hwritten _ hmem (dash_mem_numbered composite n)
  · obtain ⟨m, -, hm⟩ := List.mem_map.1 hmem
    rw [anonymousId_eq_numbered] at hm
    have hnone := perm_idsOf_anonymousIn h hwritten
    rw [hblock (Builder.eq_of_numbered_eq hm).1.symm] at hnone
    rw [← hnone.mem_iff] at hmem
    cases hmem

end

namespace Document

variable {limit : Nat} {source : String} {ss : List (Located Statement)} {d : Document}

/-- The names of the spacers of a document. -/
def spacers (d : Document) : List BlockId :=
  d.blocks.keys.toList.filter fun id ↦ (d.block? id).any Block.isSpace

private theorem mem_spacers_iff {id : BlockId} : id ∈ d.spacers ↔ d.IsSpacer id := by
  rw [spacers, List.mem_filter, Array.mem_toList_iff, ← OrderedMap.contains_iff_mem_keys]
  constructor
  · rintro ⟨-, hspace⟩
    obtain ⟨b, hb, hspace⟩ := Option.any_eq_true _ _ |>.1 hspace
    exact ⟨b, hb, of_decide_eq_true hspace⟩
  · rintro ⟨b, hb, hspace⟩
    refine ⟨contains_of_block? hb, ?_⟩
    rw [hb]
    exact decide_eq_true hspace

private theorem nodup_spacers (d : Document) : d.spacers.Nodup :=
  d.blocks.nodup.filter _

private theorem not_isSpacer_empty (id : BlockId) : ¬ empty.IsSpacer id := by
  rintro ⟨b, hb, hspace⟩
  rw [block?_empty] at hb
  split at hb
  · cases hb
    cases hspace
  · cases hb

/-- Spacers and composites without names are blocks of their own, unless a composite called `block`
holds spacers and there are composites without names. A spacer is made for each one that is asked
for, in the composite it is asked for in, and there are no others. A composite without a name is made
for each one that is written, in the composite it is written in. No two of them have the same name,
and none of them has a name that is written in the source. -/
theorem fresh_of_parse (hss : statements source = .ok ss) (hd : parse limit source = .ok d)
    (hblock : "block" ∈ spacedIn BlockId.root ss → anonymousIn ss = []) :
    ∃ tokens spacers, Lexer.tokenize source = .ok tokens ∧
      (idsOf (anonymousIn ss)).Perm (anonymousIds 0 (Grammar.openings tokens)) ∧
      spacers.map Mention.composite = spacedIn BlockId.root ss ∧
      (idsOf spacers ++ idsOf (anonymousIn ss)).Nodup ∧
      (∀ id ∈ idsOf spacers ++ idsOf (anonymousIn ss), id ∉ Grammar.writtenIds tokens) ∧
      d.spacers.Perm (idsOf spacers) ∧
      (∀ mention ∈ spacers, mention.id ∈ d.children mention.composite) ∧
      ∀ mention ∈ anonymousIn ss, mention.id ∈ d.children mention.composite ∧
        d.HasShape mention.id .composite := by
  obtain ⟨tokens, htokens, haccounts, hwritten⟩ := exists_names_of_statements hss
  have hplain : ∀ id ∈ Grammar.writtenIds tokens, '-' ∉ id.toList := fun id hid ↦
    (hwritten id hid).2
  have hanonymous := perm_idsOf_anonymousIn haccounts hplain
  have hproper := (wellFormed_of_statements hss).proper
  have hapart : ∀ c ∈ spacedIn BlockId.root ss, ∀ n, c.numbered n ∉ namesIn ss := fun c hc n ↦
    numbered_not_mem_namesIn haccounts hplain (fun heq ↦ hblock (heq ▸ hc)) n
  obtain ⟨b, children, hcarries, rfl⟩ := Builder.exists_carries_of_build (build_of_parse hss hd)
  obtain ⟨spacers, hspaced, hnumbered, hmakes⟩ := hcarries.exists_makes hproper hapart
  have hroot : b.document.contains BlockId.root = true :=
    hmakes.keeps.contains (Builder.knows_start.contains _ List.mem_cons_self)
  have hnames : ∀ mention ∈ spacers, ∃ c ∈ spacedIn BlockId.root ss, ∃ n,
      mention.id = c.numbered n := fun mention hmention ↦
    ⟨_, hspaced ▸ List.mem_map_of_mem hmention, hnumbered mention hmention⟩
  -- Spacers are apart from all that is declared; what is made up has a dash, what is written has none.
  refine ⟨tokens, spacers, htokens, hanonymous, hspaced, ?_, ?_, ?_, ?_, ?_⟩
  · refine List.nodup_append.2 ⟨hmakes.nodup, hanonymous.nodup_iff.2 (nodup_anonymousIds _ _), ?_⟩
    rintro id hid _ hid' rfl
    obtain ⟨mention, hmention, rfl⟩ := List.mem_map.1 hid
    obtain ⟨c, hc, n, hn⟩ := hnames mention hmention
    obtain ⟨other, hother, heq⟩ := List.mem_map.1 hid'
    have hname := id_mem_namesIn_of_mem_compositesIn (List.mem_filter.1 hother).1
    rw [heq, hn] at hname
    exact hapart c hc n hname
  · intro id hid hmem
    refine hplain id hmem ?_
    rcases List.mem_append.1 hid with hid | hid
    · obtain ⟨mention, hmention, rfl⟩ := List.mem_map.1 hid
      obtain ⟨c, -, n, hn⟩ := hnames mention hmention
      rw [hn]
      exact dash_mem_numbered c n
    · exact Grammar.dash_mem_of_mem_anonymousIds (hanonymous.subset hid)
  · refine (List.perm_ext_iff_of_nodup (nodup_spacers _) hmakes.nodup).2 fun id ↦ ?_
    rw [mem_spacers_iff, Builder.closed, isSpacer_setChildren_iff]
    refine ⟨fun hspacer ↦ ?_, hmakes.isSpacer id⟩
    exact (hmakes.only id hspacer).resolve_left (not_isSpacer_empty id)
  · exact fun mention hmention ↦ (hmakes.held mention hmention).mem_children hroot
  · intro mention hmention
    obtain ⟨hwhere, hdash⟩ := List.mem_filter.1 hmention
    have honce := count_namesIn_le_one haccounts hplain (List.contains_iff_mem.1 hdash)
    have hname := id_mem_namesIn_of_mem_compositesIn hwhere
    obtain ⟨hholds, hshape⟩ := hcarries.holds_of_count hproper hwhere honce
      Std.ExtTreeMap.not_mem_empty fun c hc n heq ↦ hapart c hc n (heq ▸ hname)
    have hset := b.document.keeps_setChildren_append BlockId.root children.reverse
    exact ⟨hholds.mem_children hroot, hset.hasShape List.not_mem_nil hshape⟩

/-- A source with spacers in a composite and a composite without a name. -/
def spaced : String :=
  "block-beta block:g space:2 end block a end"

/-- The rules that derive it. -/
def spacedRules : List Production :=
  [.start] ++ headRules ++ [.documentMore, .space, .documentEnd, .documentMore, .block,
    .anonymousBlock] ++ nodeRules ++ [.documentEnd, .documentEnd]

/-- There are as many spacers as are asked for, and the composite is where it is written. -/
theorem length_spacers_spaced : ∃ d, parse 9 spaced = .ok d ∧ d.spacers.length = 2 ∧
    "block-1" ∈ d.children BlockId.root ∧ d.HasShape "block-1" .composite := by
  have hdecide : ((statementsAlong spacedRules spaced).bind fun ss ↦
      (Builder.build 9 ss).toOption.map fun _ ↦ (spacedIn BlockId.root ss, anonymousIn ss)) =
        some (["g", "g"], [⟨BlockId.root, "block-1"⟩]) := by
    decide +kernel
  obtain ⟨ss, d, hss, -, hd, hresult⟩ := parse_of_along hdecide
  obtain ⟨hspaced, hanonymous⟩ := Prod.mk.inj hresult
  have hblock : "block" ∉ spacedIn BlockId.root ss := by
    rw [hspaced]
    decide
  obtain ⟨tokens, spacers, -, -, hmap, -, -, hperm, -, hholds⟩ :=
    fresh_of_parse hss hd fun hmem ↦ absurd hmem hblock
  refine ⟨d, hd, ?_, hholds ⟨BlockId.root, "block-1"⟩ (hanonymous ▸ List.mem_cons_self)⟩
  rw [hperm.length_eq, idsOf, List.length_map, ← List.length_map Mention.composite, hmap, hspaced]
  rfl

/-- A source with spacers in a composite called `block` and a composite without a name. -/
def spacedBlock : String :=
  "block-beta block:block[\"x\"] space:2 end block a end"

/-- The rules that derive it. -/
def spacedBlockRules : List Production :=
  [.start, .documentMore, .block, .namedBlock, .unsizedNode] ++ labelRules ++
    [.documentMore, .space, .documentEnd, .documentMore, .block, .anonymousBlock] ++ nodeRules ++
    [.documentEnd, .documentEnd]

/-- The composite without a name takes one of the spacers over, and stays where the spacer is. -/
theorem spacer_taken_over : ∃ ss d, statements spacedBlock = .ok ss ∧ parse 9 spacedBlock = .ok d ∧
    spacedIn BlockId.root ss = ["block", "block"] ∧
      anonymousIn ss = [⟨BlockId.root, "block-1"⟩] ∧ d.spacers = ["block-0"] ∧
        "block-1" ∈ d.children "block" ∧ "block-1" ∉ d.children BlockId.root := by
  have hdecide : ((statementsAlong spacedBlockRules spacedBlock).bind fun ss ↦
      (Builder.build 9 ss).toOption.map fun d ↦
        (spacedIn BlockId.root ss, anonymousIn ss, d.spacers, d.children "block",
          d.children BlockId.root)) =
        some (["block", "block"], [⟨BlockId.root, "block-1"⟩], ["block-0"],
          ["block-0", "block-1"], ["block"]) := by
    decide +kernel
  obtain ⟨ss, d, hss, -, hd, hresult⟩ := parse_of_along hdecide
  simp only [Prod.mk.injEq] at hresult
  obtain ⟨hspaced, hanonymous, hspacers, hblock, hroot⟩ := hresult
  refine ⟨ss, d, hss, hd, hspaced, hanonymous, hspacers, ?_, ?_⟩
  · rw [hblock]
    decide
  · rw [hroot]
    decide

end Document

end BlockDiagram
