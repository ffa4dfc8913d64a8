import BlockDiagram.Document
import BlockDiagram.Grammar.Meaning

/-!
# Blocks of a document

What the operations on documents do to single blocks. Apart from putting blocks inside others they
all extend a document (`Extends`): no block is lost, and none changes its name, its width or what it
holds.
-/

namespace BlockDiagram

/-- Holds for blocks that can be known by a name: their numbers are such that can be written. -/
structure Block.IsSound (id : BlockId) (b : Block) : Prop where
  id : b.id = id
  one_le_width : 1 ≤ b.width
  width_le : b.width ≤ Grammar.maxWidth
  columns_le : b.columns ≤ Grammar.maxColumns

/-- Holds when a block may become another one by declarations and styles. -/
structure Block.Updates (b b' : Block) : Prop where
  sound : ∀ id, b.IsSound id → b'.IsSound id
  children : b'.children = b.children
  /-- No other block becomes a spacer. -/
  shape : b'.shape = .space → b.shape = .space

namespace Block.Updates

/-- A block may stay as it is. -/
theorem refl (b : Block) : b.Updates b := ⟨fun _ h ↦ h, rfl, fun h ↦ h⟩

/-- Two updates one after the other are an update. -/
theorem trans {b b' b'' : Block} (h : b.Updates b') (h' : b'.Updates b'') : b.Updates b'' where
  sound id hsound := h'.sound id (h.sound id hsound)
  children := h'.children.trans h.children
  shape hspace := h.shape (h'.shape hspace)

/-- A block that keeps its name and its numbers. -/
theorem of_eq {b b' : Block} (hid : b'.id = b.id) (hwidth : b'.width = b.width)
    (hcolumns : b'.columns = b.columns) (hchildren : b'.children = b.children)
    (hshape : b'.shape = .space → b.shape = .space) : b.Updates b' where
  sound _ hsound := {
    id := hid.trans hsound.id
    one_le_width := hwidth ▸ hsound.one_le_width
    width_le := hwidth ▸ hsound.width_le
    columns_le := hcolumns ▸ hsound.columns_le }
  children := hchildren
  shape := hshape

end Block.Updates

namespace Block

/-- A class is all that changes when one is applied. -/
theorem addClass_eq (b : Block) (name : String) : b.addClass name =
    { b with classes := if b.classes.contains name then b.classes else b.classes ++ [name] } := by
  unfold addClass
  split <;> rfl

/-- Style declarations are all that changes when some are added. -/
theorem foldl_addStyle (b : Block) (declarations : List String) :
    declarations.foldl addStyle b = { b with styles := b.styles ++ declarations } := by
  induction declarations generalizing b with
  | nil => rw [List.foldl_nil, List.append_nil]
  | cons declaration declarations ih =>
    rw [List.foldl_cons, ih, addStyle, List.append_assoc, List.singleton_append]

end Block

/-- Holds for blocks as they are registered under a name. -/
structure Block.IsFresh (id : BlockId) (b : Block) : Prop where
  sound : b.IsSound id
  children : b.children = []

namespace Document

variable {d d' d'' : Document}

/-- Registering a block is of no account where its name is taken, or for other names. -/
@[simp] theorem block?_insertBlock (d : Document) (b : Block) (id : BlockId) :
    (d.insertBlock b).block? id =
      if d.contains b.id = false ∧ b.id = id then some b else d.block? id := by
  unfold insertBlock
  split
  · next h => simp [h]
  · next h =>
    rw [Bool.not_eq_true] at h
    rw [block?, OrderedMap.get?_insert, h]
    simp [block?]

/-- Only the block of the given name is changed. -/
@[simp] theorem block?_modifyBlock (d : Document) (changed : BlockId) (f : Block → Block)
    (id : BlockId) :
    (d.modifyBlock changed f).block? id =
      if changed = id then (d.block? id).map f else d.block? id := by
  rw [modifyBlock, block?, OrderedMap.get?_modify]
  split
  · next h => rw [h, block?]
  · rfl

/-- A name is known exactly if there is a block for it. -/
theorem contains_eq_isSome (d : Document) (id : BlockId) : d.contains id = (d.block? id).isSome :=
  OrderedMap.contains_eq_isSome d.blocks id

/-- There is a block for every name that is known. -/
theorem exists_block?_of_contains {id : BlockId} (h : d.contains id = true) :
    ∃ b, d.block? id = some b := by
  rw [contains_eq_isSome] at h
  exact Option.isSome_iff_exists.1 h

/-- A name is known if there is a block for it. -/
theorem contains_of_block? {id : BlockId} {b : Block} (h : d.block? id = some b) :
    d.contains id = true := by
  rw [contains_eq_isSome, h]
  rfl

/-- A name without a block holds nothing. -/
theorem children_eq_nil {id : BlockId} (h : d.block? id = none) : d.children id = [] := by
  rw [children, h]
  rfl

/-- Only what the given block holds is changed. -/
@[simp] theorem block?_setChildren (d : Document) (changed : BlockId) (children : List BlockId)
    (id : BlockId) :
    (d.setChildren changed children).block? id =
      if changed = id then (d.block? id).map fun b ↦ { b with children := children }
      else d.block? id :=
  d.block?_modifyBlock changed _ id

/-- To put blocks inside another one registers none. -/
theorem contains_setChildren (d : Document) (changed : BlockId) (children : List BlockId)
    (id : BlockId) : (d.setChildren changed children).contains id = d.contains id := by
  rw [contains_eq_isSome, contains_eq_isSome, block?_setChildren]
  split
  · rw [Option.isSome_map]
  · rfl

/-- A known block holds what it is given. -/
theorem children_setChildren_self {id : BlockId} (h : d.contains id = true)
    (children : List BlockId) : (d.setChildren id children).children id = children := by
  obtain ⟨b, hb⟩ := exists_block?_of_contains h
  have hset : (d.setChildren id children).block? id = some { b with children := children } := by
    rw [block?_setChildren, if_pos rfl, hb]
    rfl
  rw [children_of_block? hset]

/-- All other blocks hold what they held before. -/
theorem children_setChildren_of_ne {changed id : BlockId} (h : id ≠ changed)
    (children : List BlockId) : (d.setChildren changed children).children id = d.children id := by
  rw [Document.children, Document.children, block?_setChildren, if_neg (Ne.symm h)]

/-- Holds when all blocks of a document are still there in another one, which may have some more of
the given names. -/
structure Extends (d : Document) (names : List BlockId) (d' : Document) : Prop where
  updates : ∀ id b, d.block? id = some b → ∃ b', d'.block? id = some b' ∧ b.Updates b'
  fresh : ∀ id b, d.block? id = none → d'.block? id = some b → b.IsFresh id
  added : ∀ id, d'.contains id = true → d.contains id = true ∨ id ∈ names

namespace Extends

variable {names names' : List BlockId}

/-- A document extends itself by nothing. -/
theorem refl (d : Document) : d.Extends [] d where
  updates _ b h := ⟨b, h, .refl b⟩
  fresh id b h h' := by
    rw [h] at h'
    cases h'
  added _ := .inl

/-- Not all of the given names have to be new. -/
theorem mono (h : d.Extends names d') (hnames : names ⊆ names') : d.Extends names' d' where
  updates := h.updates
  fresh := h.fresh
  added id hid := (h.added id hid).imp_right fun hmem ↦ hnames hmem

/-- A document is extended by what two steps add. -/
theorem trans (h : d.Extends names d') (h' : d'.Extends names' d'') :
    d.Extends (names ++ names') d'' where
  updates id b hb := by
    obtain ⟨b', hb', hupdates⟩ := h.updates id b hb
    obtain ⟨b'', hb'', hupdates'⟩ := h'.updates id b' hb'
    exact ⟨b'', hb'', hupdates.trans hupdates'⟩
  fresh id b hnone hb := by
    cases hmiddle : d'.block? id with
    | none => exact h'.fresh id b hmiddle hb
    | some b' =>
      obtain ⟨b'', hb'', hupdates⟩ := h'.updates id b' hmiddle
      have hfresh := h.fresh id b' hnone hmiddle
      rw [hb] at hb''
      obtain rfl := Option.some.inj hb''
      exact {
        sound := hupdates.sound id hfresh.sound
        children := hupdates.children.trans hfresh.children }
  added id hid := by
    rw [List.mem_append, ← or_assoc]
    exact (h'.added id hid).imp_left (h.added id)

/-- A document that is extended loses no block. -/
theorem contains (h : d.Extends names d') {id : BlockId} (hid : d.contains id = true) :
    d'.contains id = true := by
  obtain ⟨b, hb⟩ := exists_block?_of_contains hid
  obtain ⟨b', hb', -⟩ := h.updates id b hb
  exact contains_of_block? hb'

/-- No block holds anything else than before. -/
theorem children_eq (h : d.Extends names d') (id : BlockId) : d'.children id = d.children id := by
  cases hb : d.block? id with
  | some b =>
    obtain ⟨b', hb', hupdates⟩ := h.updates id b hb
    rw [children_of_block? hb, children_of_block? hb', hupdates.children]
  | none =>
    rw [children_eq_nil hb]
    cases hb' : d'.block? id with
    | none => exact children_eq_nil hb'
    | some b' => rw [children_of_block? hb', (h.fresh id b' hb hb').children]

end Extends

/-- A block that is known is not registered again. -/
theorem insertBlock_of_contains {id : BlockId} {block : Block} (h : d.contains id = true)
    (hid : block.id = id) : d.insertBlock block = d := by
  rw [insertBlock, hid, if_pos h]

/-- Registering a block leaves the edges as they were. -/
theorem edges_insertBlock (d : Document) (b : Block) : (d.insertBlock b).edges = d.edges := by
  unfold insertBlock
  split <;> rfl

/-- Registering a block extends a document. -/
theorem extends_insertBlock (d : Document) (b : Block) (h : b.IsFresh b.id) :
    d.Extends [b.id] (d.insertBlock b) where
  updates id b' hb' := by
    refine ⟨b', ?_, .refl b'⟩
    rw [block?_insertBlock, if_neg]
    · exact hb'
    · rintro ⟨hcontains, rfl⟩
      rw [contains_of_block? hb'] at hcontains
      cases hcontains
  fresh id b' hnone hb' := by
    rw [block?_insertBlock] at hb'
    split at hb'
    · next hid =>
      obtain rfl := Option.some.inj hb'
      rwa [← hid.2]
    · rw [hnone] at hb'
      cases hb'
  added id hid := by
    obtain ⟨b', hb'⟩ := exists_block?_of_contains hid
    rw [block?_insertBlock] at hb'
    split at hb'
    · next hid => exact .inr (List.mem_singleton.2 hid.2.symm)
    · exact .inl (contains_of_block? hb')

/-- A document with the same blocks extends a document. -/
theorem extends_of_blocks_eq (h : d'.blocks = d.blocks) : d.Extends [] d' where
  updates id b hb := ⟨b, by rw [block?, h]; exact hb, .refl b⟩
  fresh id b hnone hb := by
    rw [block?, h] at hb
    rw [block?, hb] at hnone
    cases hnone
  added id hid := by
    rw [Document.contains, h] at hid
    exact .inl hid

/-- Updating a block extends a document. -/
theorem extends_modifyBlock (d : Document) (changed : BlockId) {f : Block → Block}
    (h : ∀ b : Block, b.Updates (f b)) : d.Extends [] (d.modifyBlock changed f) where
  updates id b hb := by
    rw [block?_modifyBlock, hb]
    split
    · exact ⟨f b, rfl, h b⟩
    · exact ⟨b, rfl, .refl b⟩
  fresh id b hnone hb := by
    rw [block?_modifyBlock, hnone] at hb
    split at hb <;> cases hb
  added id hid := by
    rw [Document.contains, modifyBlock, OrderedMap.contains_iff_mem_keys, OrderedMap.keys_modify,
      ← OrderedMap.contains_iff_mem_keys] at hid
    exact .inl hid

end Document

end BlockDiagram
