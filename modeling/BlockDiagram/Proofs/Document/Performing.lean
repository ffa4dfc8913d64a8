import BlockDiagram.Proofs.Document.Carrying

/-!
# Carrying out statements

What statements do to a document, whatever is in it before: the blocks that they mention first are
placed in the composites they are mentioned in, in this order (`Performs`, `Carries.performs`). In
front of each statement the blocks known are the root, those placed, and the composites whose bodies
are under way (`Knows`); only the last ones can not be mentioned.
-/

namespace BlockDiagram

open Source (Located Span)

/-- The names at both ends of an edge. -/
def Edge.ends (e : Edge) : BlockId × BlockId :=
  (e.start, e.target)

/-- The names at both ends of an edge as it is declared. -/
def EdgeDecl.ends (e : EdgeDecl) : BlockId × BlockId :=
  (e.start, e.target)

namespace Document

/-- Holds for the names of spacers. -/
def IsSpacer (d : Document) (id : BlockId) : Prop :=
  ∃ b, d.block? id = some b ∧ b.shape = .space

/-- Holds when all blocks can be known by their names, and spacers hold nothing. -/
structure Sound (d : Document) : Prop where
  block : ∀ id b, d.block? id = some b → b.IsSound id
  spacer : ∀ id, d.IsSpacer id → d.children id = []

variable {d d' : Document} {names : List BlockId}

private theorem Extends.isSpacer (h : d.Extends names d') {id : BlockId}
    (hid : d.contains id = true) (hspacer : d'.IsSpacer id) : d.IsSpacer id := by
  obtain ⟨b, hb⟩ := exists_block?_of_contains hid
  obtain ⟨b', hb', hupdates⟩ := h.updates id b hb
  obtain ⟨b'', hb'', hspace⟩ := hspacer
  rw [hb'] at hb''
  obtain rfl := Option.some.inj hb''
  exact ⟨b, hb, hupdates.shape hspace⟩

private theorem Sound.extends (hd : d.Sound) (h : d.Extends names d') : d'.Sound where
  block id b' hb' := by
    cases hb : d.block? id with
    | none => exact (h.fresh id b' hb hb').sound
    | some b =>
      obtain ⟨b'', hb'', hupdates⟩ := h.updates id b hb
      rw [hb'] at hb''
      obtain rfl := Option.some.inj hb''
      exact hupdates.sound id (hd.block id b hb)
  spacer id hspacer := by
    rw [h.children_eq]
    cases hb : d.block? id with
    | none => exact children_eq_nil hb
    | some b => exact hd.spacer id (h.isSpacer (contains_of_block? hb) hspacer)

/-- No block becomes a spacer by what it holds. -/
theorem isSpacer_setChildren_iff {changed id : BlockId} {children : List BlockId} :
    (d.setChildren changed children).IsSpacer id ↔ d.IsSpacer id := by
  unfold IsSpacer
  rw [block?_setChildren]
  split
  · constructor
    · rintro ⟨b', hb', hspace⟩
      obtain ⟨b, hb, rfl⟩ := Option.map_eq_some_iff.1 hb'
      exact ⟨b, hb, hspace⟩
    · rintro ⟨b, hb, hspace⟩
      exact ⟨_, Option.map_eq_some_iff.2 ⟨b, hb, rfl⟩, hspace⟩
  · exact Iff.rfl

/-- Anything but a spacer may hold blocks. -/
theorem Sound.setChildren (hd : d.Sound) {changed : BlockId} (h : ¬ d.IsSpacer changed)
    (children : List BlockId) : (d.setChildren changed children).Sound where
  block id b' hb' := by
    rw [block?_setChildren] at hb'
    split at hb'
    · obtain ⟨b, hb, rfl⟩ := Option.map_eq_some_iff.1 hb'
      have hsound := hd.block id b hb
      exact {
        id := hsound.id
        one_le_width := hsound.one_le_width
        width_le := hsound.width_le
        columns_le := hsound.columns_le }
    · exact hd.block id b' hb'
  spacer id hspacer := by
    rw [isSpacer_setChildren_iff] at hspacer
    have hne : id ≠ changed := by
      rintro rfl
      exact h hspacer
    rw [children_setChildren_of_ne hne, hd.spacer id hspacer]

end Document

namespace Builder

/-- Holds when exactly the given blocks have been mentioned, and all of them are registered. -/
structure Knows (b : Builder) (known : List BlockId) : Prop where
  mem_iff : ∀ id, id ∈ known ↔ id = BlockId.root ∨ id ∈ b.enclosing ∨ id ∈ b.placed
  contains : ∀ id ∈ known, b.document.contains id = true

/-- What statements in the body of `composite` do when they mention blocks, declare edges and give
classes to blocks. `children` are the blocks that the body has placed, in reverse order. -/
structure Performs (known : List BlockId) (composite : BlockId) (b : Builder)
    (children : List BlockId) (mentions : List Mention) (edges : List EdgeDecl)
    (classed : List BlockId) (b' : Builder) (children' : List BlockId) : Prop where
  enclosing : b'.enclosing = b.enclosing
  placed : ∀ id, id ∈ b'.placed ↔ id ∈ idsOf mentions ∨ id ∈ b.placed
  contains : ∀ id, id ∈ idsOf mentions ∨ b.document.contains id = true →
    b'.document.contains id = true
  /-- Only what is mentioned or given a class is registered. -/
  added : ∀ id, b'.document.contains id = true →
    b.document.contains id = true ∨ id ∈ idsOf mentions ∨ id ∈ classed
  /-- The composites whose bodies are under way are not mentioned. -/
  apart : ∀ id ∈ idsOf mentions, id ≠ BlockId.root ∧ id ∉ b.enclosing
  children : children'.reverse = children.reverse ++ heldBy composite (firsts known mentions)
  own : b'.document.children composite = b.document.children composite
  held : ∀ other, other ≠ composite →
    b'.document.children other =
      b.document.children other ++ heldBy other (firsts known mentions)
  edges : b'.document.edges.toList.map Edge.ends =
    b.document.edges.toList.map Edge.ends ++ edges.map EdgeDecl.ends
  spacer : ∀ id, b.document.contains id = true → b'.document.IsSpacer id → b.document.IsSpacer id
  sound : b.document.Sound → b'.document.Sound

variable {known : List BlockId} {composite : BlockId} {b b₁ b' : Builder}
  {children children₁ children' : List BlockId} {mentions others : List Mention}
  {edges edges' : List EdgeDecl} {classed classed' : List BlockId}

namespace Performs

/-- Known blocks stay known, together with those mentioned. -/
theorem knows (h : Performs known composite b children mentions edges classed b' children')
    (hb : b.Knows known) : b'.Knows (idsOf mentions ++ known) where
  mem_iff id := by
    rw [List.mem_append, hb.mem_iff, h.enclosing, h.placed]
    tauto
  contains id hid := by
    refine h.contains id ((List.mem_append.1 hid).imp_right fun hknown ↦ ?_)
    exact hb.contains id hknown

/-- Statements are carried out one after the other. -/
theorem append (h : Performs known composite b children mentions edges classed b₁ children₁)
    (h' : Performs (idsOf mentions ++ known) composite b₁ children₁ others edges' classed' b'
      children') :
    Performs known composite b children (mentions ++ others) (edges ++ edges') (classed ++ classed')
      b' children' where
  enclosing := h'.enclosing.trans h.enclosing
  placed id := by
    rw [h'.placed, h.placed, idsOf_append, List.mem_append]
    tauto
  contains id hid := by
    rw [idsOf_append, List.mem_append, or_assoc] at hid
    rcases hid with hid | hid | hid
    · exact h'.contains id (.inr (h.contains id (.inl hid)))
    · exact h'.contains id (.inl hid)
    · exact h'.contains id (.inr (h.contains id (.inr hid)))
  added id hid := by
    rw [idsOf_append, List.mem_append, List.mem_append]
    rcases h'.added id hid with hid | hid
    · have := h.added id hid
      tauto
    · tauto
  apart id hid := by
    rw [idsOf_append, List.mem_append] at hid
    rcases hid with hid | hid
    · exact h.apart id hid
    · rw [← h.enclosing]
      exact h'.apart id hid
  children := by
    rw [h'.children, h.children, firsts_append, heldBy_append, List.append_assoc]
  own := h'.own.trans h.own
  held other hother := by
    rw [h'.held other hother, h.held other hother, firsts_append, heldBy_append, List.append_assoc]
  edges := by
    rw [h'.edges, h.edges, List.map_append, List.append_assoc]
  spacer id hid hspacer :=
    h.spacer id hid (h'.spacer id (h.contains id (.inr hid)) hspacer)
  sound hd := h'.sound (h.sound hd)

/-- A step that places nothing. -/
theorem of_registers (h : b.Registers classed b') :
    Performs known composite b children [] [] classed b' children where
  enclosing := h.enclosing
  placed id := by
    rw [h.placed]
    simp [idsOf]
  contains id hid := hid.elim (fun hid ↦ absurd hid List.not_mem_nil) h.document.contains
  added id hid := (h.document.added id hid).imp_right .inr
  apart := List.forall_mem_nil _
  children := (List.append_nil _).symm
  own := h.document.children_eq composite
  held other _ := (h.document.children_eq other).trans (List.append_nil _).symm
  edges := by
    rw [h.edges]
    exact (List.append_nil _).symm
  spacer _ hid hspacer := h.document.isSpacer hid hspacer
  sound hd := hd.extends h.document

/-- Connecting two blocks. -/
theorem of_connect {e : EdgeDecl} {u : Unit} (h : (connect e).run b = .ok (u, b')) :
    Performs known composite b children [] [e] [] b' children := by
  cases h
  exact {
    enclosing := rfl
    placed := fun id ↦ by simp [idsOf]
    contains := fun id hid ↦ hid.elim (fun hid ↦ absurd hid List.not_mem_nil) fun hid ↦ hid
    added := fun _ hid ↦ .inl hid
    apart := List.forall_mem_nil _
    children := (List.append_nil _).symm
    own := rfl
    held := fun _ _ ↦ (List.append_nil _).symm
    edges := by
      change (b.document.edges.push _).toList.map Edge.ends = _
      rw [Array.toList_push, List.map_append]
      rfl
    spacer := fun _ _ hspacer ↦ hspacer
    sound := fun hd ↦ ⟨hd.block, hd.spacer⟩ }

/-- The children of a body with one more block, which is left out if it is placed already. -/
theorem reverse_of_place {id : BlockId} {placed : Std.ExtTreeMap BlockId Unit}
    (hknown : id ∈ known ↔ id ∈ placed)
    (hchildren : children' = if id ∈ placed then children else id :: children) :
    children'.reverse = children.reverse ++ heldBy composite (firsts known [⟨composite, id⟩]) := by
  rw [hchildren, firsts_singleton]
  by_cases hmem : id ∈ placed
  · rw [if_pos hmem, if_pos (hknown.2 hmem)]
    exact (List.append_nil _).symm
  · rw [if_neg hmem, if_neg (mt hknown.1 hmem), List.reverse_cons]
    simp [heldBy]

/-- Placing a registered block whose body is not under way. -/
theorem of_place {id : BlockId} (h : (place id children).run b = .ok (children', b'))
    (hb : b.Knows known) (hcontains : b.document.contains id = true) (hroot : id ≠ BlockId.root)
    (hid : id ∉ b.enclosing) :
    Performs known composite b children [⟨composite, id⟩] [] [] b' children' := by
  obtain ⟨hdocument, henclosing, hplaced, hchildren⟩ := place_cases h
  have hknown : id ∈ known ↔ id ∈ b.placed := by
    rw [hb.mem_iff]
    tauto
  exact {
    enclosing := henclosing
    placed := fun other ↦ by
      rw [hplaced]
      simp [idsOf]
    contains := fun other hother ↦ by
      rw [hdocument]
      rcases hother with hother | hother
      · obtain rfl := List.mem_singleton.1 hother
        exact hcontains
      · exact hother
    added := fun other hother ↦ by
      rw [hdocument] at hother
      exact .inl hother
    apart := List.forall_mem_singleton.2 ⟨hroot, hid⟩
    children := reverse_of_place hknown hchildren
    own := by rw [hdocument]
    held := fun other hother ↦ by rw [hdocument, heldBy_firsts_of_ne hother, List.append_nil]
    edges := by
      rw [hdocument]
      exact (List.append_nil _).symm
    spacer := fun other _ hspacer ↦ by rwa [hdocument] at hspacer
    sound := fun hd ↦ by rwa [hdocument] }

/-- Naming and placing spacers. -/
theorem of_addSpacers {count : Nat} (h : (addSpacers composite count children).run b =
      .ok (children', b')) (hb : b.Knows known) :
    ∃ names : List BlockId, names.length = count ∧ names.Nodup ∧
      (∀ id ∈ names, (∃ n, id = composite.numbered n) ∧ id ∉ known) ∧
      Performs known composite b children (names.map (Mention.mk composite)) [] [] b' children' := by
  have hregistered : ∀ id ∈ b.placed, b.document.contains id = true := fun id hid ↦
    hb.contains id ((hb.mem_iff id).2 (.inr (.inr hid)))
  obtain ⟨names, hcount, hnodup, hnames, hextends, -, henclosing, hedges, hplaced, hchildren⟩ :=
    addSpacers_spec h hregistered
  have hnew : ∀ id ∈ names, id ∉ known := by
    intro id hid hknown
    have := (hnames id hid).2.1
    rw [hb.contains id hknown] at this
    cases this
  have hapart : ∀ id ∈ names, id ≠ BlockId.root ∧ id ∉ b.enclosing := by
    intro id hid
    have := mt (hb.mem_iff id).2 (hnew id hid)
    tauto
  refine ⟨names, hcount, hnodup, fun id hid ↦ ⟨(hnames id hid).1, hnew id hid⟩, ?_⟩
  have hfirsts := @firsts_map_mk known composite _ hnodup hnew
  exact {
    enclosing := henclosing
    placed := fun id ↦ by rw [hplaced, idsOf_map_mk]
    contains := fun id hid ↦ by
      rw [idsOf_map_mk] at hid
      exact hid.elim (fun hid ↦ (hnames id hid).2.2) hextends.contains
    added := fun id hid ↦ by
      rw [idsOf_map_mk]
      exact (hextends.added id hid).imp_right .inl
    apart := by rwa [idsOf_map_mk]
    children := by
      rw [hchildren, hfirsts, List.reverse_append, List.reverse_reverse]
      congr 1
      simp [heldBy, List.filter_map, Function.comp_def]
    own := hextends.children_eq composite
    held := fun other hother ↦ by
      rw [hextends.children_eq, hfirsts, heldBy_eq_nil, List.append_nil]
      intro mention hmention
      obtain ⟨id, -, rfl⟩ := List.mem_map.1 hmention
      exact hother.symm
    edges := by
      rw [hedges]
      exact (List.append_nil _).symm
    spacer := fun id hid hspacer ↦ hextends.isSpacer hid hspacer
    sound := fun hd ↦ hd.extends hextends }

end Performs

/-- A statement that is neither a node, a composite nor a space statement places nothing. -/
theorem performs_of_perform {limit : Nat} {span : Span} {statement : Statement}
    (h : (perform limit composite span children statement).run b = .ok (children', b'))
    (hproper : statement.IsProper) (hstatement : statement.placesBlocks = false) :
    Performs known composite b children [] statement.edges statement.classed b' children' := by
  cases statement with
  | node node => cases hstatement
  | composite head body => cases hstatement
  | space count => cases hstatement
  | edge e =>
    rw [perform, run_bind_ok_iff] at h
    obtain ⟨_, _, hconnect, h⟩ := h
    cases h
    exact .of_connect hconnect
  | columns count =>
    cases h
    refine .of_registers (.of_extends ?_ rfl)
    refine Document.extends_modifyBlock _ _ fun block ↦ ⟨fun id hsound ↦ ?_, rfl, fun h ↦ h⟩
    exact {
      id := hsound.id
      one_le_width := hsound.one_le_width
      width_le := hsound.width_le
      columns_le := hproper }
  | classDef name declarations =>
    obtain ⟨normal, -, rfl, rfl⟩ := classDef_cases h
    exact .of_registers (.of_extends (Document.extends_of_blocks_eq rfl) rfl)
  | applyClass targets name =>
    obtain ⟨happly, rfl⟩ := applyClass_cases h
    exact .of_registers (registers_applyClass happly)
  | applyStyles targets declarations =>
    obtain ⟨normal, -, happly, rfl⟩ := applyStyles_cases h
    exact .of_registers (registers_applyStyles happly)
  | title text | description text =>
    cases h
    exact .of_registers (.of_extends (Document.extends_of_blocks_eq rfl) rfl)

/-- A composite whose body mentions blocks. What the body has placed comes behind what the composite
held before, and then the composite itself is placed. -/
theorem Performs.of_composite {id : BlockId} {inner : List BlockId} (hknows : b.Knows known)
    (hroot : id ≠ BlockId.root) (hid : id ∉ b.enclosing)
    (hcomposite : composite = BlockId.root ∨ composite ∈ b.enclosing)
    (hcontains : b.document.contains id = true) (hspacer : ¬ b.document.IsSpacer id)
    (hbody : Performs (id :: known) id { b with enclosing := id :: b.enclosing } [] mentions edges
      classed b₁ inner)
    (hrooted : Rooted [id] mentions)
    (h : (place id children).run { b₁ with
        document := b₁.document.setChildren id (b₁.document.children id ++ inner.reverse)
        enclosing := b₁.enclosing.tail } = .ok (children', b')) :
    Performs known composite b children (⟨composite, id⟩ :: mentions) edges classed b' children' := by
  obtain ⟨hdocument, henclosing, hplaced, hchildren⟩ := place_cases h
  dsimp only at hdocument henclosing hplaced hchildren
  have hinside : ∀ other ∈ idsOf mentions, other ≠ BlockId.root ∧ other ∉ id :: b.enclosing :=
    hbody.apart
  have hself : id ∉ idsOf mentions := fun hmem ↦ (hinside id hmem).2 List.mem_cons_self
  have hne : composite ≠ id := by
    rintro rfl
    exact hcomposite.elim hroot hid
  have hknown : id ∈ known ↔ id ∈ b₁.placed := by
    rw [hknows.mem_iff, hbody.placed]
    tauto
  have hcomposites : ∀ mention ∈ mentions, mention.composite ≠ composite := by
    intro mention hmention heq
    rcases List.mem_append.1 (hrooted.composite_mem mention hmention) with hmem | hmem
    · exact hne (heq.symm.trans (List.mem_singleton.1 hmem))
    · obtain ⟨hnotroot, hnotenclosing⟩ := hinside _ hmem
      rw [heq] at hnotroot hnotenclosing
      exact hcomposite.elim hnotroot fun hmem ↦ hnotenclosing (List.mem_cons_of_mem id hmem)
  have hnone : heldBy composite (firsts (id :: known) mentions) = [] :=
    heldBy_eq_nil fun mention hmention ↦ hcomposites mention (firsts_sublist.subset hmention)
  exact {
    enclosing := by rw [henclosing, hbody.enclosing, List.tail_cons]
    placed := fun other ↦ by
      rw [hplaced, hbody.placed, idsOf_cons, List.mem_cons, or_assoc]
    contains := fun other hmem ↦ by
      rw [hdocument, Document.contains_setChildren]
      refine hbody.contains other ?_
      rw [idsOf_cons, List.mem_cons] at hmem
      rcases hmem with (rfl | hmem) | hmem
      · exact .inr hcontains
      · exact .inl hmem
      · exact .inr hmem
    added := fun other hmem ↦ by
      rw [hdocument, Document.contains_setChildren] at hmem
      rw [idsOf_cons, List.mem_cons, or_assoc]
      exact (hbody.added other hmem).imp_right .inr
    apart := List.forall_mem_cons.2 ⟨⟨hroot, hid⟩, fun other hmem ↦
      ⟨(hinside other hmem).1, fun h ↦ (hinside other hmem).2 (List.mem_cons_of_mem id h)⟩⟩
    children := by
      rw [firsts_cons, heldBy_append, hnone, List.append_nil]
      exact reverse_of_place hknown hchildren
    own := by
      rw [hdocument, Document.children_setChildren_of_ne hne, hbody.held composite hne, hnone,
        List.append_nil]
    held := fun other hnot ↦ by
      rw [hdocument, firsts_cons, heldBy_append, heldBy_firsts_of_ne hnot, List.nil_append]
      by_cases heq : other = id
      · rw [heq, Document.children_setChildren_self (hbody.contains id (.inr hcontains)),
          hbody.own, hbody.children]
        rfl
      · rw [Document.children_setChildren_of_ne heq, hbody.held other heq]
    edges := by
      rw [hdocument]
      exact hbody.edges
    spacer := fun other hmem hspacer ↦ by
      rw [hdocument, Document.isSpacer_setChildren_iff] at hspacer
      exact hbody.spacer other hmem hspacer
    sound := fun hd ↦ by
      rw [hdocument]
      exact (hbody.sound hd).setChildren (fun h ↦ hspacer (hbody.spacer id hcontains h)) _ }

/-- A step that registers a block comes before the block is mentioned. -/
theorem Performs.of_registers_append {id : BlockId} (h : b.Registers [id] b₁)
    (h' : Performs known composite b₁ children mentions edges classed b' children')
    (hid : id ∈ idsOf mentions) :
    Performs known composite b children mentions edges classed b' children' := by
  have happend := (@Performs.of_registers known composite _ _ children _ h).append h'
  exact {
    happend with
    added := fun other hother ↦ by
      have hadded := happend.added other hother
      rw [List.mem_append, List.mem_singleton] at hadded
      rcases hadded with hadded | hadded | rfl | hadded
      · exact .inl hadded
      · exact .inr (.inl hadded)
      · exact .inr (.inl hid)
      · exact .inr (.inr hadded) }

private theorem Knows.of_registers {names : List BlockId} (hb : b.Knows known)
    (h : b.Registers names b₁) : b₁.Knows known where
  mem_iff id := by rw [hb.mem_iff, h.enclosing, h.placed]
  contains id hid := h.document.contains (hb.contains id hid)

/-! ### Statements -/

section

variable {limit : Nat} {span : Span}

/-- What a composite does, where its body does what it should. -/
theorem performs_composite {head : NodeDecl} {body : List (Located Statement)} {b₂ : Builder}
    {inner : List BlockId} (hproper : (Statement.composite head body).IsProper)
    (hroot : BlockId.root ≠ head.id) (hcomposite : composite = BlockId.root ∨ composite ∈ b.enclosing)
    (hknows : b.Knows known) (hdeclare : (declare limit head span).run b = .ok ((), b₁))
    (hapart : head.id ∉ b₁.enclosing)
    (hbody : Knows { b₁ with enclosing := head.id :: b₁.enclosing } (head.id :: known) →
      ∃ mentions, Mentions (head.id :: known) head.id body mentions ∧
        Performs (head.id :: known) head.id { b₁ with enclosing := head.id :: b₁.enclosing } []
          mentions (edgesIn body) (classedIn body) b₂ inner)
    (hplace : (place head.id children).run { b₂ with
        document := b₂.document.setChildren head.id (b₂.document.children head.id ++ inner.reverse)
        enclosing := b₂.enclosing.tail } = .ok (children', b')) :
    ∃ mentions, Performs known composite b children mentions (edgesIn body) (classedIn body) b'
        children' ∧
      ∀ statements others, Mentions (idsOf mentions ++ known) composite statements others →
        Mentions known composite (⟨.composite head body, span⟩ :: statements)
          (mentions ++ others) := by
  obtain ⟨hhead, hshape, -⟩ := hproper
  obtain ⟨hregisters, hcontains⟩ := registers_declare hdeclare hhead
  have hknows₁ := hknows.of_registers hregisters
  have hopened : Knows { b₁ with enclosing := head.id :: b₁.enclosing } (head.id :: known) := {
    mem_iff := fun id ↦ by
      rw [List.mem_cons, hknows₁.mem_iff, List.mem_cons]
      tauto
    contains := List.forall_mem_cons.2 ⟨hcontains, hknows₁.contains⟩ }
  obtain ⟨mentions, hmentions, hperforms⟩ := hbody hopened
  have hspacer : ¬ b₁.document.IsSpacer head.id := by
    rintro ⟨block, hblock, hspace⟩
    exact shape_ne_space_of_declare hdeclare hshape block hblock hspace
  have hcomposite₁ : composite = BlockId.root ∨ composite ∈ b₁.enclosing := by
    rwa [hregisters.enclosing]
  have hplaced := Performs.of_composite hknows₁ (Ne.symm hroot) hapart hcomposite₁ hcontains hspacer
    hperforms (hmentions.rooted List.mem_cons_self) hplace
  exact ⟨_, .of_registers_append hregisters hplaced List.mem_cons_self,
    fun statements others hothers ↦ .composite hmentions hothers⟩

/-- What a node does. -/
theorem performs_node {node : NodeDecl} (hproper : node.IsProper)
    (hroot : BlockId.root ≠ node.id) (hknows : b.Knows known)
    (h : (perform limit composite span children (.node node)).run b = .ok (children', b')) :
    Performs known composite b children [⟨composite, node.id⟩] [] [] b' children' := by
  obtain ⟨b₂, hdeclare, hid, hplace⟩ := node_cases h
  obtain ⟨hregisters, hcontains⟩ := registers_declare hdeclare hproper
  have hplaced : Performs known composite b₂ children [⟨composite, node.id⟩] [] [] b' children' :=
    .of_place hplace (hknows.of_registers hregisters) hcontains (Ne.symm hroot) hid
  exact .of_registers_append hregisters hplaced List.mem_cons_self

/-- What a statement without a body does, with what it mentions. -/
theorem exists_performs {statement : Statement} (hproper : statement.IsProper)
    (hroot : BlockId.root ∉ statement.names) (hstatement : statement.isComposite = false)
    (hknows : b.Knows known)
    (h : (perform limit composite span children statement).run b = .ok (children', b')) :
    ∃ mentions, Performs known composite b children mentions statement.edges statement.classed b'
        children' ∧
      ∀ statements others, Mentions (idsOf mentions ++ known) composite statements others →
        Mentions known composite (⟨statement, span⟩ :: statements) (mentions ++ others) := by
  cases statement with
  | composite head body => cases hstatement
  | node node =>
    have hne : BlockId.root ≠ node.id := fun heq ↦ hroot (heq ▸ List.mem_singleton_self _)
    exact ⟨_, performs_node hproper hne hknows h, fun statements others hothers ↦ .node hothers⟩
  | space count =>
    obtain ⟨-, hspacers⟩ := space_cases h
    obtain ⟨names, hcount, hnodup, hnames, hfirst⟩ := Performs.of_addSpacers hspacers hknows
    refine ⟨_, hfirst, fun statements others hothers ↦ ?_⟩
    rw [idsOf_map_mk] at hothers
    exact .space hcount hnodup hnames hothers
  | _ =>
    exact ⟨[], performs_of_perform h hproper rfl, fun statements others hothers ↦
      .other rfl hothers⟩

/-- What a run does, with what its statements mention. -/
theorem Carries.performs {statements : List (Located Statement)}
    (h : Carries limit composite b children statements b' children')
    (hproper : AllProper statements) (hroot : BlockId.root ∉ namesIn statements)
    (hcomposite : composite = BlockId.root ∨ composite ∈ b.enclosing) (hknows : b.Knows known) :
    ∃ mentions, Mentions known composite statements mentions ∧
      Performs known composite b children mentions (edgesIn statements) (classedIn statements) b'
        children' := by
  induction h generalizing known with
  | nil => exact ⟨[], .nil, .of_registers (.refl _)⟩
  | composite hdeclare hapart _ hplace _ ihbody ih =>
    obtain ⟨hstatement, hstatements⟩ := hproper
    rw [namesIn_composite, List.mem_cons, List.mem_append, not_or, not_or] at hroot
    obtain ⟨hrootid, hrootbody, hrootrest⟩ := hroot
    obtain ⟨mentions, hfirst, hmentions⟩ :=
      performs_composite hstatement hrootid hcomposite hknows hdeclare hapart
        (ihbody hstatement.2.2 hrootbody (.inr List.mem_cons_self)) hplace
    have hcomposite₁ := hcomposite
    rw [← hfirst.enclosing] at hcomposite₁
    obtain ⟨others, hothers, hrest⟩ := ih hstatements hrootrest hcomposite₁ (hfirst.knows hknows)
    refine ⟨_, hmentions _ _ hothers, ?_⟩
    simp only [collect_composite]
    exact hfirst.append hrest
  | step hother _ hperform _ ih =>
    obtain ⟨hstatement, hstatements⟩ := hproper
    rw [namesIn, collect_of_not_composite hother, List.mem_append, not_or] at hroot
    obtain ⟨hrootfirst, hrootrest⟩ := hroot
    obtain ⟨mentions, hfirst, hmentions⟩ :=
      exists_performs hstatement hrootfirst hother hknows hperform
    have hcomposite₁ := hcomposite
    rw [← hfirst.enclosing] at hcomposite₁
    obtain ⟨others, hothers, hrest⟩ := ih hstatements hrootrest hcomposite₁ (hfirst.knows hknows)
    refine ⟨_, hmentions _ _ hothers, ?_⟩
    simp only [collect_of_not_composite hother]
    exact hfirst.append hrest

end

end Builder

end BlockDiagram
