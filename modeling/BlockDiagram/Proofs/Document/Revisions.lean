import BlockDiagram.Proofs.Document.Appending
import BlockDiagram.Proofs.Document.Carrying

/-!
# What statements say about blocks

Declarations, classes and column counts set some of what a block is and leave the rest of it as it
was. Settings one behind the other are again settings (`Settings.apply_append`), and to set the same
once more changes nothing (`Settings.apply_apply`). A run of statements leaves every block with all
that they have set of it (`Carries.sets`).
-/

namespace BlockDiagram

open Source (Located Span)

/-- A list of names with one more at its end, unless it is in there. -/
def withName (names : List String) (name : String) : List String :=
  if names.contains name then names else names ++ [name]

private theorem mem_withName_iff {names : List String} {name other : String} :
    other ∈ withName names name ↔ other ∈ names ∨ other = name := by
  unfold withName
  split
  · next h =>
    rw [List.contains_iff_mem] at h
    constructor
    · exact .inl
    · rintro (hother | rfl)
      · exact hother
      · exact h
  · simp

private theorem withName_of_mem {names : List String} {name : String} (h : name ∈ names) :
    withName names name = names :=
  if_pos (List.contains_iff_mem.2 h)

private theorem subset_foldl_withName (names more : List String) :
    names ⊆ more.foldl withName names ∧ more ⊆ more.foldl withName names := by
  induction more generalizing names with
  | nil => exact ⟨List.Subset.refl _, List.nil_subset _⟩
  | cons name more ih =>
    obtain ⟨hold, hnew⟩ := ih (withName names name)
    refine ⟨fun other hother ↦ hold (mem_withName_iff.2 (.inl hother)), ?_⟩
    exact List.cons_subset.2 ⟨hold (mem_withName_iff.2 (.inr rfl)), hnew⟩

private theorem foldl_withName_of_subset {names more : List String} (h : more ⊆ names) :
    more.foldl withName names = names := by
  induction more with
  | nil => rfl
  | cons name more ih =>
    obtain ⟨hname, hmore⟩ := List.cons_subset.1 h
    rw [List.foldl_cons, withName_of_mem hname, ih hmore]

/-- What statements set of a block. -/
structure Settings where
  shape : Option Shape := none
  label : Option Label := none
  columns : Option Int := none
  /-- The classes that are applied to the block. -/
  classes : List String := []

namespace Settings

/-- A block with something set of it. -/
def apply (s : Settings) (block : Block) : Block :=
  { block with
    shape := s.shape.getD block.shape
    label := (s.label.map Label.text).getD block.label
    markdown := (s.label.map Label.markdown).getD block.markdown
    columns := s.columns.getD block.columns
    classes := s.classes.foldl withName block.classes }

/-- What is set by one after the other. -/
def append (s t : Settings) : Settings where
  shape := t.shape.or s.shape
  label := t.label.or s.label
  columns := t.columns.or s.columns
  classes := s.classes ++ t.classes

/-- What a declaration sets: a known shape, and a label that says something else than the id. -/
def ofDecl (node : NodeDecl) : Settings where
  shape := if node.shape = .unknown then none else some node.shape
  label := if (Builder.labelOf node).text = node.id then none else some (Builder.labelOf node)

private theorem apply_empty (block : Block) : apply {} block = block := rfl

/-- What is set by one after the other is set in this order. -/
theorem apply_append (s t : Settings) (block : Block) :
    (s.append t).apply block = t.apply (s.apply block) := by
  obtain ⟨shape, label, columns, classes⟩ := t
  cases shape <;> cases label <;> cases columns <;> simp [append, apply]

/-- To set the same again changes nothing. -/
theorem apply_apply (s : Settings) (block : Block) : s.apply (s.apply block) = s.apply block := by
  have hclasses := foldl_withName_of_subset (subset_foldl_withName block.classes s.classes).2
  obtain ⟨shape, label, columns, classes⟩ := s
  cases shape <;> cases label <;> cases columns <;> simp [apply, hclasses]

/-- A declaration is merged by setting what it says. -/
theorem merge_eq_apply (node : NodeDecl) : Builder.merge node = (ofDecl node).apply := by
  funext block
  unfold Builder.merge ofDecl apply
  by_cases hshape : node.shape = .unknown <;>
    by_cases hlabel : (Builder.labelOf node).text = node.id <;> simp [hshape, hlabel]

/-- A declaration says nothing new about the block that it registers. -/
theorem apply_blockOf (node : NodeDecl) :
    (ofDecl node).apply (Builder.blockOf node) = Builder.blockOf node := by
  unfold ofDecl apply Builder.blockOf Block.ofShape Block.withWidth
  by_cases hshape : node.shape = .unknown <;>
    by_cases hlabel : (Builder.labelOf node).text = node.id <;> simp [hshape, hlabel]

/-- A class is applied by setting it. -/
theorem addClass_eq_apply (name : String) :
    (·.addClass name) = apply { classes := [name] } := by
  funext block
  unfold Block.addClass apply
  simp only [List.foldl_cons, List.foldl_nil, withName]
  split <;> rfl

end Settings

/-! ### What statements set -/

/-- All that is set of one of the blocks in a list. -/
def settingsFor (id : BlockId) : List (BlockId × Settings) → Settings
  | [] => {}
  | (other, s) :: rest => if other = id then s.append (settingsFor id rest) else settingsFor id rest

section

variable {id : BlockId} {settings : List (BlockId × Settings)}

/-- What is not mentioned is left as it is. -/
theorem settingsFor_eq_empty (h : id ∉ settings.map Prod.fst) : settingsFor id settings = {} := by
  induction settings with
  | nil => rfl
  | cons setting settings ih =>
    rw [List.map_cons, List.mem_cons, not_or] at h
    rw [settingsFor, if_neg (Ne.symm h.1), ih h.2]

private theorem apply_settingsFor_append (id : BlockId) (settings more : List (BlockId × Settings))
    (block : Block) :
    (settingsFor id (settings ++ more)).apply block =
      (settingsFor id more).apply ((settingsFor id settings).apply block) := by
  induction settings generalizing block with
  | nil => rfl
  | cons setting settings ih =>
    rw [List.cons_append, settingsFor, settingsFor]
    split
    · rw [Settings.apply_append, Settings.apply_append, ih]
    · exact ih block

end

/-- What statements set in a document. -/
structure Revision where
  /-- The blocks, each with something set of it, in order. -/
  settings : List (BlockId × Settings) := []
  title : Option String := none
  description : Option String := none

namespace Revision

/-- What is set by one after the other. -/
def append (r r' : Revision) : Revision where
  settings := r.settings ++ r'.settings
  title := r'.title.or r.title
  description := r'.description.or r.description

private theorem append_empty (r : Revision) : r.append {} = r := by
  simp [append]

/-- The blocks that something is set of. -/
def ids (r : Revision) : List BlockId :=
  r.settings.map Prod.fst

/-- All that is set of a block. -/
def of (r : Revision) (id : BlockId) : Settings :=
  settingsFor id r.settings

/-- Two revisions set something of the blocks of both. -/
theorem ids_append (r r' : Revision) : (r.append r').ids = r.ids ++ r'.ids :=
  List.map_append

private theorem apply_of_append (r r' : Revision) (id : BlockId) (block : Block) :
    ((r.append r').of id).apply block = (r'.of id).apply ((r.of id).apply block) :=
  apply_settingsFor_append id r.settings r'.settings block

private theorem apply_of_single (id : BlockId) (s : Settings) (block : Block) :
    (Revision.of { settings := [(id, s)] } id).apply block = s.apply block := by
  rw [of, settingsFor, if_pos rfl, Settings.apply_append]
  rfl

private theorem of_single_of_ne {id other : BlockId} (h : other ≠ id) (s : Settings) :
    Revision.of { settings := [(other, s)] } id = {} := by
  rw [of, settingsFor, if_neg h]
  rfl

end Revision

mutual

/-- What a statement in the body of `composite` sets. -/
def Statement.revision (composite : BlockId) : Statement → Revision
  | .node node => { settings := [(node.id, .ofDecl node)] }
  | .composite head body =>
    Revision.append { settings := [(head.id, .ofDecl head)] } (revisionOf head.id body)
  | .columns count => { settings := [(composite, { columns := some count })] }
  | .applyClass targets name =>
    { settings := (Builder.targetsOf targets).map fun id ↦ (id, { classes := [name] }) }
  | .title text => { title := some text }
  | .description text => { description := some text }
  | _ => {}

/-- What statements in the body of `composite` set. -/
def revisionOf (composite : BlockId) : List (Located Statement) → Revision
  | [] => {}
  | ⟨statement, _⟩ :: statements =>
    (statement.revision composite).append (revisionOf composite statements)

end

mutual

/-- Holds for the statements that do no more than set something: nodes, composites of such
statements, column counts, classes for blocks, titles and descriptions. -/
def Statement.isSetting : Statement → Bool
  | .node _ | .columns _ | .applyClass _ _ | .title _ | .description _ => true
  | .composite _ body => allSettings body
  | _ => false

/-- Holds for lists of statements that do no more than set something. -/
def allSettings : List (Located Statement) → Bool
  | [] => true
  | ⟨statement, _⟩ :: statements => statement.isSetting && allSettings statements

end

namespace Document

variable {d d' d'' : Document} {r r' : Revision}

private theorem title_insertBlock (d : Document) (block : Block) :
    (d.insertBlock block).title = d.title := by
  unfold insertBlock
  split <;> rfl

private theorem description_insertBlock (d : Document) (block : Block) :
    (d.insertBlock block).description = d.description := by
  unfold insertBlock
  split <;> rfl

/-- Holds when one document comes from another one by what a revision sets, new blocks, and blocks
that are put inside others. -/
structure Sets (r : Revision) (d d' : Document) : Prop where
  kept : ∀ id block, d.block? id = some block → ∃ children,
    d'.block? id = some ((r.of id).apply { block with children := children })
  new : ∀ id block', d.block? id = none → d'.block? id = some block' → ∃ block,
    block' = (r.of id).apply block
  known : ∀ id ∈ r.ids, d'.contains id = true
  title : d'.title = r.title.or d.title
  description : d'.description = r.description.or d.description

namespace Sets

private theorem contains (h : Sets r d d') {id : BlockId} (hid : d.contains id = true) :
    d'.contains id = true := by
  obtain ⟨block, hblock⟩ := exists_block?_of_contains hid
  obtain ⟨children, hblock'⟩ := h.kept id block hblock
  exact contains_of_block? hblock'

private theorem append (h : Sets r d d') (h' : Sets r' d' d'') : Sets (r.append r') d d'' where
  kept id block hblock := by
    obtain ⟨children, hblock'⟩ := h.kept id block hblock
    obtain ⟨children', hblock''⟩ := h'.kept id _ hblock'
    refine ⟨children', ?_⟩
    rw [hblock'', Revision.apply_of_append]
    rfl
  new id block'' hnone hblock'' := by
    cases hblock' : d'.block? id with
    | some block' =>
      obtain ⟨block, rfl⟩ := h.new id block' hnone hblock'
      obtain ⟨children, hkept⟩ := h'.kept id _ hblock'
      rw [hblock''] at hkept
      refine ⟨{ block with children := children }, ?_⟩
      rw [Revision.apply_of_append, Option.some.inj hkept]
      rfl
    | none =>
      obtain ⟨block, rfl⟩ := h'.new id block'' hblock' hblock''
      have hid : id ∉ r.ids := by
        intro hid
        have hcontains := h.known id hid
        rw [contains_eq_isSome, hblock'] at hcontains
        cases hcontains
      have hempty : r.of id = {} := settingsFor_eq_empty hid
      exact ⟨block, by rw [Revision.apply_of_append, hempty, Settings.apply_empty]⟩
  known id hid := by
    rw [Revision.ids_append, List.mem_append] at hid
    rcases hid with hid | hid
    · exact h'.contains (h.known id hid)
    · exact h'.known id hid
  title := by
    rw [h'.title, h.title, ← Option.or_assoc]
    rfl
  description := by
    rw [h'.description, h.description, ← Option.or_assoc]
    rfl

/-- A document with the same blocks, up to what they hold. -/
theorem of_children (hsettings : r.settings = []) (hblocks : ∀ id, ∃ children,
      d'.block? id = (d.block? id).map fun block ↦ { block with children := children })
    (htitle : d'.title = r.title.or d.title)
    (hdescription : d'.description = r.description.or d.description) : Sets r d d' where
  kept id block hblock := by
    obtain ⟨children, heq⟩ := hblocks id
    refine ⟨children, ?_⟩
    rw [heq, hblock, Revision.of, hsettings]
    rfl
  new id block' hnone hblock' := by
    obtain ⟨children, heq⟩ := hblocks id
    rw [heq, hnone] at hblock'
    cases hblock'
  known id hid := by
    rw [Revision.ids, hsettings] at hid
    cases hid
  title := htitle
  description := hdescription

/-- A document with the same blocks. -/
theorem of_blocks (hsettings : r.settings = []) (hblocks : d'.blocks = d.blocks)
    (htitle : d'.title = r.title.or d.title)
    (hdescription : d'.description = r.description.or d.description) : Sets r d d' := by
  refine .of_children hsettings (fun id ↦ ⟨d.children id, ?_⟩) htitle hdescription
  rw [block?, hblocks, ← block?]
  cases hblock : d.block? id with
  | none => rfl
  | some block =>
    rw [children_of_block? hblock]
    rfl

/-- To put blocks inside another one sets nothing. -/
theorem of_setChildren (d : Document) (id : BlockId) (children : List BlockId) :
    Sets {} d (d.setChildren id children) := by
  refine .of_children rfl (fun other ↦ ?_) rfl rfl
  rw [block?_setChildren]
  split
  · exact ⟨children, rfl⟩
  · refine ⟨d.children other, ?_⟩
    cases hblock : d.block? other with
    | none => rfl
    | some block =>
      rw [children_of_block? hblock]
      rfl

/-- A block gets something set, and is registered for that if it is new. -/
theorem single (d : Document) (block : Block) (s : Settings) :
    Sets { settings := [(block.id, s)] } d
      ((d.insertBlock block).modifyBlock block.id s.apply) := by
  have hself : ((d.insertBlock block).modifyBlock block.id s.apply).block? block.id =
      some (s.apply ((d.block? block.id).getD block)) := by
    rw [block?_modifyBlock, if_pos rfl, block?_insertBlock, contains_eq_isSome]
    cases d.block? block.id with
    | none => rw [if_pos ⟨rfl, rfl⟩]; rfl
    | some old => rfl
  have hother (id : BlockId) (hid : block.id ≠ id) :
      ((d.insertBlock block).modifyBlock block.id s.apply).block? id = d.block? id := by
    rw [block?_modifyBlock, if_neg hid, block?_insertBlock, if_neg fun h ↦ hid h.2]
  constructor
  · intro id old hold
    refine ⟨old.children, ?_⟩
    by_cases hid : block.id = id
    · subst hid
      rw [hself, hold, Revision.apply_of_single]
      rfl
    · rw [hother id hid, hold, Revision.of_single_of_ne hid]
      rfl
  · intro id block' hnone hblock'
    by_cases hid : block.id = id
    · subst hid
      rw [hself, hnone] at hblock'
      exact ⟨block, by rw [Revision.apply_of_single]; exact (Option.some.inj hblock').symm⟩
    · rw [hother id hid, hnone] at hblock'
      cases hblock'
  · exact List.forall_mem_singleton.2 (contains_of_block? hself)
  · exact title_insertBlock d block
  · exact description_insertBlock d block

end Sets

end Document

/-! ### What runs set -/

namespace Builder

variable {limit : Nat} {b b' : Builder} {composite : BlockId} {span : Span}
  {children children' : List BlockId}

/-- A declaration registers its block if that is new, and sets something of it. -/
theorem eq_of_declare {node : NodeDecl} {u : Unit}
    (h : (declare limit node span).run b = .ok (u, b')) :
    b' = { b with
      document := (b.document.insertBlock (blockOf node)).modifyBlock node.id
        (Settings.ofDecl node).apply } := by
  obtain ⟨hcontains, rfl⟩ | ⟨hcontains, rfl⟩ := merge_or_insert_of_declare h
  · rw [Document.insertBlock_of_contains hcontains rfl, ← Settings.merge_eq_apply]
  · rw [Document.modifyBlock_insertBlock _ _ hcontains rfl rfl, Settings.apply_blockOf]

private theorem sets_of_declare {node : NodeDecl} {u : Unit}
    (h : (declare limit node span).run b = .ok (u, b')) :
    Document.Sets { settings := [(node.id, .ofDecl node)] } b.document b'.document := by
  rw [eq_of_declare h]
  exact .single b.document (blockOf node) _

private theorem sets_of_applyClass {name : String} {ids : List BlockId} {u : Unit}
    (h : (applyClass limit name span ids).run b = .ok (u, b')) :
    Document.Sets { settings := ids.map fun id ↦ (id, { classes := [name] }) }
      b.document b'.document := by
  obtain ⟨d, rfl, hd⟩ := applyClass_induction
    (P := fun ids ↦ Document.Sets { settings := ids.map fun id ↦ (id, { classes := [name] }) }) h
    (fun _ ↦ .of_blocks rfl rfl rfl rfl) fun id ids d d' hrest ↦ by
      rw [Settings.addClass_eq_apply] at hrest
      exact (Document.Sets.single d (Block.ofShape id .unknown) { classes := [name] }).append hrest
  exact hd

/-- A statement without a body sets what it says. -/
theorem sets_of_perform {statement : Statement} (hsetting : statement.isSetting = true)
    (hbody : statement.isComposite = false) (hcomposite : b.document.contains composite = true)
    (h : (perform limit composite span children statement).run b = .ok (children', b')) :
    Document.Sets (statement.revision composite) b.document b'.document := by
  cases statement with
  | composite head body => cases hbody
  | node node =>
    obtain ⟨b₁, hdeclare, -, hplace⟩ := node_cases h
    rw [(place_cases hplace).1]
    exact sets_of_declare hdeclare
  | columns count =>
    cases h
    have hsets := Document.Sets.single b.document (Block.ofShape composite .unknown)
      { columns := some count }
    rwa [Document.insertBlock_of_contains hcomposite rfl] at hsets
  | applyClass targets name =>
    exact sets_of_applyClass (applyClass_cases h).1
  | title text =>
    cases h
    exact .of_blocks rfl rfl rfl rfl
  | description text =>
    cases h
    exact .of_blocks rfl rfl rfl rfl
  | _ => cases hsetting

/-- Statements set what they say, whatever they register and place. -/
theorem Carries.sets {ss : List (Located Statement)}
    (h : Carries limit composite b children ss b' children') (hss : allSettings ss = true)
    (hcomposite : b.document.contains composite = true) :
    Document.Sets (revisionOf composite ss) b.document b'.document := by
  induction h with
  | nil => exact .of_blocks rfl rfl rfl rfl
  | @composite _ _ b₁ b₂ b₃ _ _ _ _ _ head body _ _ hdeclare _ _ hplace _ ihbody ih =>
    rw [allSettings, Bool.and_eq_true] at hss
    have hdeclared : b₁.document.contains head.id = true := contains_of_declare hdeclare
    have hbody : Document.Sets (revisionOf head.id body) b₁.document b₂.document :=
      ihbody hss.1 hdeclared
    have hclosed : Document.Sets {} b₂.document b₃.document := by
      rw [(place_cases hplace).1]
      exact .of_setChildren _ _ _
    have hfirst := (sets_of_declare hdeclare).append (hbody.append hclosed)
    rw [Revision.append_empty] at hfirst
    exact hfirst.append (ih hss.2 (hfirst.contains hcomposite))
  | step hother _ hperform _ ih =>
    rw [allSettings, Bool.and_eq_true] at hss
    have hfirst := sets_of_perform hss.1 hother hcomposite hperform
    exact hfirst.append (ih hss.2 (hfirst.contains hcomposite))

end Builder

end BlockDiagram
