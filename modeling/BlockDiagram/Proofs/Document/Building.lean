import BlockDiagram.Document.Builder
import BlockDiagram.Proofs.Document.Blocks
import BlockDiagram.Proofs.Except
import BlockDiagram.Proofs.Statement
import Mathlib.Data.List.Nodup
import Mathlib.Data.List.Perm.Subperm
import Mathlib.Tactic.Tauto

/-!
# Single steps of building

What each step of building a document does to what is known. What a step comes to is an equation
(`run_declare`, `run_applyClass_cons`, `run_place`), and what holds behind it follows from that: it
either registers blocks and places none (`Registers`), or it places a block (`place_cases`,
`addSpacer_spec`).
-/

namespace BlockDiagram.Builder

open Source (Located Span)

variable {α β : Type} {b b' b'' : Builder}

/-- Two steps succeed when the first one does, and then the second one. -/
theorem run_bind_ok_iff {m : Building α} {f : α → Building β} {y : β} :
    (m >>= f).run b = .ok (y, b') ↔
      ∃ x b₁, m.run b = .ok (x, b₁) ∧ (f x).run b₁ = .ok (y, b') := by
  rw [StateT.run_bind, bind_eq_ok_iff, Prod.exists]

/-- What does not look at the builder does not change it either. -/
theorem lift_cases {result : Except Fault α} {x : α}
    (h : (liftM result : Building α).run b = .ok (x, b')) : result = .ok x ∧ b = b' := by
  cases result with
  | error fault => cases h
  | ok y =>
    cases h
    exact ⟨rfl, rfl⟩

/-- Holds when a step changes blocks and registers some of the given names, but places none. -/
structure Registers (b : Builder) (names : List BlockId) (b' : Builder) : Prop where
  placed : b'.placed = b.placed
  enclosing : b'.enclosing = b.enclosing
  edges : b'.document.edges = b.document.edges
  document : b.document.Extends names b'.document

namespace Registers

variable {names : List BlockId}

/-- A step that does nothing registers nothing. -/
theorem refl (b : Builder) : b.Registers [] b := ⟨rfl, rfl, rfl, .refl b.document⟩

/-- A change of the document that extends it registers blocks. -/
theorem of_extends {d : Document} (h : b.document.Extends names d)
    (hedges : d.edges = b.document.edges) : b.Registers names { b with document := d } :=
  ⟨rfl, rfl, hedges, h⟩

end Registers

/-- Building ends where the limit leaves no room for so many blocks. -/
theorem run_reserve (limit count : Nat) (span : Span) :
    (reserve limit count span).run b =
      if limit - (b.document.size - 1) < count then .error (.tooManyBlocks limit span)
      else .ok ((), b) := by
  rw [reserve]
  change (if limit - (b.document.size - 1) < count then _ else _ : Building Unit).run b = _
  split
  · rfl
  · rfl

private theorem eq_of_reserve {limit count : Nat} {span : Span} {u : Unit}
    (h : (reserve limit count span).run b = .ok (u, b')) : b = b' := by
  rw [run_reserve] at h
  split at h
  · cases h
  · cases h
    rfl

/-! ### Declarations -/

private theorem updates_merge {node : NodeDecl} (h : node.IsProper) (block : Block) :
    block.Updates (merge node block) := by
  have hshape : block.Updates
      (if node.shape = .unknown then block else { block with shape := node.shape }) := by
    split
    · exact .refl block
    · exact .of_eq rfl rfl rfl rfl fun hspace ↦ absurd hspace h.shape_ne_space
  unfold merge
  dsimp only
  split
  · exact hshape
  · exact hshape.trans (.of_eq rfl rfl rfl rfl fun h ↦ h)

private theorem isFresh_blockOf {node : NodeDecl} (h : node.IsProper) :
    (blockOf node).IsFresh node.id where
  sound := {
    id := rfl
    one_le_width := Nat.le_max_right node.width 1
    width_le := Nat.max_le.2 ⟨h.width_le, by decide⟩
    columns_le := by
      change (-1 : Int) ≤ Grammar.maxColumns
      decide }
  children := rfl

/-- A block without anything stated is sound. -/
theorem isSound_ofShape (id : BlockId) (shape : Shape) : (Block.ofShape id shape).IsSound id where
  id := rfl
  one_le_width := Nat.le_refl 1
  width_le := by
    change 1 ≤ Grammar.maxWidth
    decide
  columns_le := by
    change (-1 : Int) ≤ Grammar.maxColumns
    decide

private theorem isFresh_ofShape (id : BlockId) (shape : Shape) :
    (Block.ofShape id shape).IsFresh id :=
  ⟨isSound_ofShape id shape, rfl⟩

/-- A declaration needs room for its block only if that is new. -/
theorem run_declare (limit : Nat) (node : NodeDecl) (span : Span) :
    (declare limit node span).run b =
      if b.document.contains node.id then
        .ok ((), { b with document := b.document.modifyBlock node.id (merge node) })
      else if limit - (b.document.size - 1) < 1 then .error (.tooManyBlocks limit span)
      else .ok ((), { b with document := b.document.insertBlock (blockOf node) }) := by
  rw [declare]
  change (if b.document.contains node.id then _ else _ : Building Unit).run b = _
  split
  · rfl
  · rw [StateT.run_bind, run_reserve]
    split
    · rfl
    · rfl

/-- A declaration merges with the block of its name, or registers it. -/
theorem merge_or_insert_of_declare {limit : Nat} {node : NodeDecl} {span : Span} {u : Unit}
    (h : (declare limit node span).run b = .ok (u, b')) :
    (b.document.contains node.id = true ∧
      b' = { b with document := b.document.modifyBlock node.id (merge node) }) ∨
    (b.document.contains node.id = false ∧
      b' = { b with document := b.document.insertBlock (blockOf node) }) := by
  rw [run_declare] at h
  split at h
  · next hcontains =>
    cases h
    exact .inl ⟨hcontains, rfl⟩
  · next hcontains =>
    split at h
    · cases h
    · cases h
      exact .inr ⟨Bool.eq_false_iff.2 hcontains, rfl⟩

/-- A declaration registers its block, and no other. -/
theorem registers_declare {limit : Nat} {node : NodeDecl} {span : Span} {u : Unit}
    (h : (declare limit node span).run b = .ok (u, b')) (hnode : node.IsProper) :
    b.Registers [node.id] b' ∧ b'.document.contains node.id = true := by
  obtain ⟨hcontains, rfl⟩ | ⟨hcontains, rfl⟩ := merge_or_insert_of_declare h
  · have hextends := b.document.extends_modifyBlock node.id (updates_merge hnode)
    exact ⟨.of_extends (hextends.mono (List.nil_subset _)) rfl, hextends.contains hcontains⟩
  · have hextends := b.document.extends_insertBlock (blockOf node) (isFresh_blockOf hnode)
    refine ⟨.of_extends hextends (b.document.edges_insertBlock _),
      Document.contains_of_block? (b := blockOf node) ?_⟩
    rw [Document.block?_insertBlock, if_pos ⟨hcontains, rfl⟩]

/-- The head of a composite is no spacer once it is declared. -/
theorem shape_ne_space_of_declare {limit : Nat} {head : NodeDecl} {span : Span} {u : Unit}
    (h : (declare limit head span).run b = .ok (u, b')) (hshape : head.shape = .composite) :
    ∀ block, b'.document.block? head.id = some block → block.shape ≠ .space := by
  intro block hblock
  obtain ⟨-, rfl⟩ | ⟨hcontains, rfl⟩ := merge_or_insert_of_declare h
  · rw [Document.block?_modifyBlock, if_pos rfl] at hblock
    obtain ⟨old, -, rfl⟩ := Option.map_eq_some_iff.1 hblock
    unfold merge
    rw [hshape]
    dsimp only
    split
    · exact Shape.noConfusion
    · exact Shape.noConfusion
  · rw [Document.block?_insertBlock, if_pos ⟨hcontains, rfl⟩] at hblock
    obtain rfl := Option.some.inj hblock
    change head.shape ≠ .space
    rw [hshape]
    exact Shape.noConfusion

/-- The check fails exactly if the body of the block is under way. -/
theorem run_checkNotEnclosing (id : BlockId) (span : Span) :
    (checkNotEnclosing id span).run b =
      if id ∈ b.enclosing then .error (.nestedInItself id span) else .ok ((), b) := by
  rw [checkNotEnclosing]
  change (if b.enclosing.contains id then _ else _ : Building Unit).run b = _
  simp only [List.contains_iff_mem]
  split
  · rfl
  · rfl

/-- A check that succeeds changes nothing, and the body of the block is not under way. -/
theorem checkNotEnclosing_cases {id : BlockId} {span : Span} {u : Unit}
    (h : (checkNotEnclosing id span).run b = .ok (u, b')) : b = b' ∧ id ∉ b.enclosing := by
  rw [run_checkNotEnclosing] at h
  split at h
  · cases h
  · next hapart =>
    cases h
    exact ⟨rfl, hapart⟩

/-! ### Styles -/

private theorem updates_addClass (name : String) (block : Block) :
    block.Updates (block.addClass name) := by
  rw [Block.addClass_eq]
  exact .of_eq rfl rfl rfl rfl fun h ↦ h

private theorem updates_foldl_addStyle (declarations : List String) (block : Block) :
    block.Updates (declarations.foldl Block.addStyle block) := by
  rw [Block.foldl_addStyle]
  exact .of_eq rfl rfl rfl rfl fun h ↦ h

/-- A class is applied to one block after the other, each of which is registered if it is new. -/
theorem run_applyClass_cons (limit : Nat) (name : String) (span : Span) (id : BlockId)
    (ids : List BlockId) :
    (applyClass limit name span (id :: ids)).run b =
      if b.document.contains id = false ∧ limit - (b.document.size - 1) < 1 then
        .error (.tooManyBlocks limit span)
      else (applyClass limit name span ids).run { b with
        document := (b.document.insertBlock (Block.ofShape id .unknown)).modifyBlock id
          (·.addClass name) } := by
  rw [applyClass]
  change (if !b.document.contains id then _ else _ : Building Unit).run b = _
  cases hcontains : b.document.contains id with
  | true =>
    rw [Document.insertBlock_of_contains hcontains rfl]
    rfl
  | false =>
    change (reserve limit 1 span >>= _ : Building Unit).run b = _
    simp only [StateT.run_bind, run_reserve, true_and]
    split
    · rfl
    · rfl

/-- Applying a class changes the document only, one block after the other. -/
theorem applyClass_induction {P : List BlockId → Document → Document → Prop} {limit : Nat}
    {name : String} {span : Span} {ids : List BlockId} {u : Unit}
    (h : (applyClass limit name span ids).run b = .ok (u, b')) (nil : ∀ d, P [] d d)
    (cons : ∀ id ids d d', P ids ((d.insertBlock (Block.ofShape id .unknown)).modifyBlock id
      (·.addClass name)) d' → P (id :: ids) d d') :
    ∃ d, b' = { b with document := d } ∧ P ids b.document d := by
  induction ids generalizing b with
  | nil =>
    cases h
    exact ⟨_, rfl, nil _⟩
  | cons id ids ih =>
    rw [run_applyClass_cons] at h
    split at h
    · cases h
    · obtain ⟨d, rfl, hd⟩ := ih h
      exact ⟨d, rfl, cons id ids _ d hd⟩

/-- Applying a class registers at most the blocks that it names. -/
theorem registers_applyClass {limit : Nat} {name : String} {span : Span} {ids : List BlockId}
    {u : Unit} (h : (applyClass limit name span ids).run b = .ok (u, b')) : b.Registers ids b' := by
  have hstep (id : BlockId) (d : Document) : d.Extends [id]
      ((d.insertBlock (Block.ofShape id .unknown)).modifyBlock id (·.addClass name)) :=
    (d.extends_insertBlock (Block.ofShape id .unknown) (isFresh_ofShape id _)).trans
      (Document.extends_modifyBlock _ id (updates_addClass name))
  obtain ⟨d, rfl, hextends, hedges⟩ := applyClass_induction
    (P := fun ids d d' ↦ d.Extends ids d' ∧ d'.edges = d.edges) h (fun d ↦ ⟨.refl d, rfl⟩)
    fun id ids d d' hrest ↦
      ⟨(hstep id d).trans hrest.1, hrest.2.trans (d.edges_insertBlock _)⟩
  exact .of_extends hextends hedges

/-- Declarations are added to one block after the other, each of which has to be registered. -/
theorem run_applyStyles_cons (declarations : List String) (span : Span) (id : BlockId)
    (ids : List BlockId) :
    (applyStyles declarations span (id :: ids)).run b =
      if b.document.contains id then
        (applyStyles declarations span ids).run { b with
          document := b.document.modifyBlock id fun block ↦
            declarations.foldl Block.addStyle block }
      else .error (.undeclaredTarget id span) := by
  rw [applyStyles]
  change (if !b.document.contains id then _ else _ : Building Unit).run b = _
  cases b.document.contains id with
  | true => rfl
  | false => rfl

/-- Adding declarations changes the document only, one block after the other. -/
theorem applyStyles_induction {P : Document → Document → Prop} {declarations : List String}
    {span : Span} {ids : List BlockId} {u : Unit}
    (h : (applyStyles declarations span ids).run b = .ok (u, b')) (nil : ∀ d, P d d)
    (cons : ∀ id d d', P (d.modifyBlock id fun block ↦ declarations.foldl Block.addStyle block) d' →
      P d d') :
    ∃ d, b' = { b with document := d } ∧ P b.document d := by
  induction ids generalizing b with
  | nil =>
    cases h
    exact ⟨_, rfl, nil _⟩
  | cons id ids ih =>
    rw [run_applyStyles_cons] at h
    split at h
    · obtain ⟨d, rfl, hd⟩ := ih h
      exact ⟨d, rfl, cons id _ d hd⟩
    · cases h

/-- Adding declarations registers nothing. -/
theorem registers_applyStyles {declarations : List String} {span : Span} {ids : List BlockId}
    {u : Unit} (h : (applyStyles declarations span ids).run b = .ok (u, b')) : b.Registers [] b' := by
  obtain ⟨d, rfl, hextends, hedges⟩ := applyStyles_induction
    (P := fun d d' ↦ d.Extends [] d' ∧ d'.edges = d.edges) h (fun d ↦ ⟨.refl d, rfl⟩)
    fun id d d' hrest ↦
      ⟨(d.extends_modifyBlock id (updates_foldl_addStyle declarations)).trans hrest.1, hrest.2⟩
  exact .of_extends hextends hedges

/-! ### Placing blocks -/

/-- A block is placed in front of the others unless it is placed already. -/
theorem run_place (id : BlockId) (children : List BlockId) :
    (place id children).run b = .ok (if id ∈ b.placed then (children, b)
      else (id :: children, { b with placed := b.placed.insert id () })) :=
  congrArg Except.ok (if_congr Std.ExtTreeMap.contains_iff_mem rfl rfl)

/-- A body takes a block up unless it is placed already. -/
theorem place_cases {id : BlockId} {children children' : List BlockId}
    (h : (place id children).run b = .ok (children', b')) :
    b'.document = b.document ∧ b'.enclosing = b.enclosing ∧
      (∀ other, other ∈ b'.placed ↔ other = id ∨ other ∈ b.placed) ∧
      children' = if id ∈ b.placed then children else id :: children := by
  rw [run_place] at h
  by_cases hplaced : id ∈ b.placed
  · rw [if_pos hplaced] at h
    cases h
    refine ⟨rfl, rfl, fun other ↦ ⟨.inr, ?_⟩, (if_pos hplaced).symm⟩
    rintro (rfl | hother)
    · exact hplaced
    · exact hother
  · rw [if_neg hplaced] at h
    cases h
    refine ⟨rfl, rfl, fun other ↦ ?_, (if_neg hplaced).symm⟩
    rw [Std.ExtTreeMap.mem_insert, Std.LawfulEqCmp.compare_eq_iff_eq, eq_comm]

/-! ### Spacers -/

/-- A numbered name ends in a dash and the digits of its number. -/
theorem toList_numbered (id : BlockId) (n : Nat) :
    (id.numbered n).toList = id.toList ++ '-' :: Nat.toDigits 10 n := by
  simp [BlockId.numbered, toString, Nat.toList_repr]

/-- There is no dash in a number. -/
theorem dash_not_mem_toDigits (n : Nat) : '-' ∉ Nat.toDigits 10 n := by
  intro hdash
  exact absurd (Nat.isDigit_of_mem_toDigits (by decide) (by decide) hdash) (by decide)

/-- No digit of a number is a dash. -/
theorem bne_dash_of_mem_toDigits {n : Nat} {c : Char} (h : c ∈ Nat.toDigits 10 n) :
    (c != '-') = true := by
  rw [bne_iff_ne]
  rintro rfl
  exact dash_not_mem_toDigits n h

/-- Different numbers have different digits. -/
theorem toDigits_injective : Function.Injective (Nat.toDigits 10) := by
  intro n n' h
  rw [← Nat.ofDigitChars_ten_toDigits (n := n), h, Nat.ofDigitChars_ten_toDigits]

/-- What comes behind the last dash of a name is its number. -/
theorem takeWhile_reverse_numbered (id : BlockId) (n : Nat) :
    (id.numbered n).toList.reverse.takeWhile (· != '-') = (Nat.toDigits 10 n).reverse := by
  rw [toList_numbered, List.reverse_append, List.reverse_cons, List.append_assoc,
    List.takeWhile_append_of_pos fun c hc ↦ bne_dash_of_mem_toDigits (List.mem_reverse.1 hc),
    List.singleton_append, List.takeWhile_cons_of_neg (by decide), List.append_nil]

/-- There are no dashes in numbers, so a numbered name says what has been numbered. -/
theorem eq_of_numbered_eq {id id' : BlockId} {n n' : Nat} (h : id.numbered n = id'.numbered n') :
    id = id' ∧ n = n' := by
  have hdigits : Nat.toDigits 10 n = Nat.toDigits 10 n' := by
    rw [← List.reverse_inj, ← takeWhile_reverse_numbered id, h, takeWhile_reverse_numbered]
  have hchars := congrArg String.toList h
  rw [toList_numbered, toList_numbered, hdigits] at hchars
  exact ⟨String.toList_injective (List.append_cancel_right hchars), toDigits_injective hdigits⟩

/-- Different numbers make different names. -/
theorem numbered_injective (id : BlockId) : Function.Injective id.numbered :=
  fun _ _ h ↦ (eq_of_numbered_eq h).2

/-- The search for a number gives up only after as many taken names as it may try. -/
theorem taken_of_freeNumber {taken : BlockId → Bool} {composite : BlockId} {fuel n : Nat}
    (h : taken (composite.numbered (freeNumber taken composite fuel n)) = true) :
    ∀ i ≤ fuel, taken (composite.numbered (n + i)) = true := by
  induction fuel generalizing n with
  | zero =>
    intro i hi
    obtain rfl := Nat.le_zero.1 hi
    exact h
  | succ fuel ih =>
    rw [freeNumber] at h
    split at h
    · next hn =>
      intro i hi
      cases i with
      | zero => exact hn
      | succ i =>
        have := ih h i (Nat.le_of_succ_le_succ hi)
        rwa [Nat.add_right_comm, Nat.add_assoc] at this
    · next hn => exact absurd h hn

/-- A spacer gets a name that no block has. -/
theorem contains_freeNumber (d : Document) (composite : BlockId) (n : Nat) :
    d.contains (composite.numbered (freeNumber d.contains composite d.size n)) = false := by
  rw [← Bool.not_eq_true]
  intro htaken
  have hall := taken_of_freeNumber htaken
  have hnodup : ((List.range (d.size + 1)).map fun i ↦ composite.numbered (n + i)).Nodup :=
    (List.nodup_range).map fun i j hij ↦ Nat.add_left_cancel (numbered_injective composite hij)
  have hsubset : ((List.range (d.size + 1)).map fun i ↦ composite.numbered (n + i)) ⊆
      d.blocks.keys.toList := by
    intro id hid
    obtain ⟨i, hi, rfl⟩ := List.mem_map.1 hid
    have hcontains := hall i (Nat.le_of_lt_succ (List.mem_range.1 hi))
    exact Array.mem_toList_iff.2 ((OrderedMap.contains_iff_mem_keys _ _).1 hcontains)
  have hlength := (List.subperm_of_subset hnodup hsubset).length_le
  rw [List.length_map, List.length_range, Array.length_toList] at hlength
  exact Nat.not_succ_le_self _ hlength

/-- The steps of a spacer: it is registered under a name that no block has, and placed. -/
theorem addSpacer_cases {composite : BlockId} {children children' : List BlockId}
    (h : (addSpacer composite children).run b = .ok (children', b')) :
    ∃ n, b.document.contains (composite.numbered n) = false ∧
      (place (composite.numbered n) children).run { b with
        spacers := b.spacers.insert composite (n + 1)
        document := b.document.insertBlock (Block.ofShape (composite.numbered n) .space) } =
          .ok (children', b') := by
  rw [addSpacer, run_bind_ok_iff] at h
  obtain ⟨_, _, hget, h⟩ := h
  cases hget
  rw [run_bind_ok_iff] at h
  obtain ⟨_, _, hset, hplace⟩ := h
  cases hset
  exact ⟨_, contains_freeNumber _ _ _, hplace⟩

/-- A new spacer is registered and placed. -/
theorem addSpacer_spec {composite : BlockId} {children children' : List BlockId}
    (h : (addSpacer composite children).run b = .ok (children', b'))
    (hplaced : ∀ id ∈ b.placed, b.document.contains id = true) :
    ∃ n, b.document.contains (composite.numbered n) = false ∧
      b.document.Extends [composite.numbered n] b'.document ∧
      (∀ id, b'.document.block? id = if id = composite.numbered n then
        some (Block.ofShape id .space) else b.document.block? id) ∧
      b'.document.contains (composite.numbered n) = true ∧
      b'.enclosing = b.enclosing ∧ b'.document.edges = b.document.edges ∧
      (∀ other, other ∈ b'.placed ↔ other = composite.numbered n ∨ other ∈ b.placed) ∧
      children' = composite.numbered n :: children := by
  obtain ⟨n, hfree, hplace⟩ := addSpacer_cases h
  obtain ⟨hdocument, henclosing, hmem, hchildren⟩ := place_cases hplace
  dsimp only at hdocument henclosing hmem hchildren
  have hnew : composite.numbered n ∉ b.placed := by
    intro hmem
    rw [hplaced _ hmem] at hfree
    cases hfree
  refine ⟨n, hfree, ?_, fun id ↦ ?_, ?_, henclosing, ?_, hmem, ?_⟩
  · rw [hdocument]
    exact b.document.extends_insertBlock (Block.ofShape (composite.numbered n) .space)
      (isFresh_ofShape _ .space)
  · rw [hdocument, Document.block?_insertBlock]
    by_cases hid : id = composite.numbered n
    · rw [if_pos ⟨hfree, hid.symm⟩, if_pos hid, hid]
    · rw [if_neg fun hboth ↦ hid hboth.2.symm, if_neg hid]
  · rw [hdocument]
    refine Document.contains_of_block? (b := Block.ofShape (composite.numbered n) .space) ?_
    rw [Document.block?_insertBlock, if_pos ⟨hfree, rfl⟩]
  · rw [hdocument]
    exact b.document.edges_insertBlock _
  · rw [hchildren, if_neg hnew]

/-- New spacers are registered and placed, one after the other. -/
theorem addSpacers_spec {composite : BlockId} {count : Nat} {children children' : List BlockId}
    (h : (addSpacers composite count children).run b = .ok (children', b'))
    (hplaced : ∀ id ∈ b.placed, b.document.contains id = true) :
    ∃ names : List BlockId, names.length = count ∧ names.Nodup ∧
      (∀ id ∈ names, (∃ n, id = composite.numbered n) ∧ b.document.contains id = false ∧
        b'.document.contains id = true) ∧
      b.document.Extends names b'.document ∧
      (∀ id, b'.document.block? id =
        if id ∈ names then some (Block.ofShape id .space) else b.document.block? id) ∧
      b'.enclosing = b.enclosing ∧
      b'.document.edges = b.document.edges ∧
      (∀ other, other ∈ b'.placed ↔ other ∈ names ∨ other ∈ b.placed) ∧
      children' = names.reverse ++ children := by
  induction count generalizing b children with
  | zero =>
    cases h
    exact ⟨[], rfl, List.nodup_nil, List.forall_mem_nil _, .refl _, by simp, rfl, rfl, by simp, rfl⟩
  | succ count ih =>
    rw [addSpacers, run_bind_ok_iff] at h
    obtain ⟨children₁, b₁, hfirst, h⟩ := h
    obtain ⟨n, hfree, hextends, hblocks, hcontains, henclosing, hedges, hmem, rfl⟩ :=
      addSpacer_spec hfirst hplaced
    have hplaced₁ : ∀ id ∈ b₁.placed, b₁.document.contains id = true := by
      intro id hid
      rcases (hmem id).1 hid with rfl | hid
      · exact hcontains
      · exact hextends.contains (hplaced id hid)
    obtain ⟨names, hlength, hnodup, hnames, hextends', hblocks', henclosing', hedges', hmem', rfl⟩ :=
      ih h hplaced₁
    refine ⟨composite.numbered n :: names, by rw [List.length_cons, hlength],
      List.nodup_cons.2 ⟨?_, hnodup⟩, ?_, hextends.trans hextends', fun id ↦ ?_,
      henclosing'.trans henclosing, hedges'.trans hedges, ?_, ?_⟩
    · intro hid
      rw [(hnames _ hid).2.1] at hcontains
      cases hcontains
    · refine List.forall_mem_cons.2 ⟨⟨⟨n, rfl⟩, hfree, hextends'.contains hcontains⟩, ?_⟩
      intro id hid
      obtain ⟨hnumbered, hnew, hlast⟩ := hnames id hid
      refine ⟨hnumbered, ?_, hlast⟩
      rw [← Bool.not_eq_true]
      intro hold
      rw [hextends.contains hold] at hnew
      cases hnew
    · rw [hblocks', hblocks]
      by_cases hid : id ∈ names
      · rw [if_pos hid, if_pos (List.mem_cons_of_mem _ hid)]
      · simp only [List.mem_cons, hid, if_false, or_false]
    · intro other
      rw [hmem', hmem, List.mem_cons]
      tauto
    · rw [List.reverse_cons, List.append_assoc, List.singleton_append]

/-! ### Statements that place no blocks -/

/-- The steps of a class definition: its declarations, and the class that gets them. -/
theorem classDef_cases {limit : Nat} {composite : BlockId} {span : Span}
    {name declarations : String} {children children' : List BlockId}
    (h : (perform limit composite span children (.classDef name declarations)).run b =
      .ok (children', b')) :
    ∃ normal, declarationsOf declarations span = .ok normal ∧ children' = children ∧
      b' = { b with
        document := b.document.modifyClass name fun c ↦ normal.foldl StyleClass.push c } := by
  rw [perform, run_bind_ok_iff] at h
  obtain ⟨normal, _, hlift, h⟩ := h
  obtain ⟨hnormal, rfl⟩ := lift_cases hlift
  cases h
  exact ⟨normal, hnormal, rfl, rfl⟩

/-- The steps of a statement that applies a class. -/
theorem applyClass_cases {limit : Nat} {composite : BlockId} {span : Span}
    {targets name : String} {children children' : List BlockId}
    (h : (perform limit composite span children (.applyClass targets name)).run b =
      .ok (children', b')) :
    (applyClass limit name span (targetsOf targets)).run b = .ok ((), b') ∧
      children' = children := by
  rw [perform, run_bind_ok_iff] at h
  obtain ⟨_, _, happly, h⟩ := h
  cases h
  exact ⟨happly, rfl⟩

/-- The steps of a statement that adds declarations: these, and the blocks that get them. -/
theorem applyStyles_cases {limit : Nat} {composite : BlockId} {span : Span}
    {targets declarations : String} {children children' : List BlockId}
    (h : (perform limit composite span children (.applyStyles targets declarations)).run b =
      .ok (children', b')) :
    ∃ normal, declarationsOf declarations span = .ok normal ∧
      (applyStyles normal span (targetsOf targets)).run b = .ok ((), b') ∧
      children' = children := by
  rw [perform, run_bind_ok_iff] at h
  obtain ⟨normal, _, hlift, h⟩ := h
  obtain ⟨hnormal, rfl⟩ := lift_cases hlift
  rw [run_bind_ok_iff] at h
  obtain ⟨_, _, happly, h⟩ := h
  cases h
  exact ⟨normal, hnormal, happly, rfl⟩

/-! ### Statements that place blocks -/

/-- The steps of a space statement: it asks for its spacers, and places them. -/
theorem space_cases {limit count : Nat} {composite : BlockId} {span : Span}
    {children children' : List BlockId}
    (h : (perform limit composite span children (.space count)).run b = .ok (children', b')) :
    (reserve limit count span).run b = .ok ((), b) ∧
      (addSpacers composite count children).run b = .ok (children', b') := by
  rw [perform, run_bind_ok_iff] at h
  obtain ⟨_, _, hreserve, hspacers⟩ := h
  obtain rfl := eq_of_reserve hreserve
  exact ⟨hreserve, hspacers⟩

/-- The steps of a node: its declaration, and its place. -/
theorem node_cases {limit : Nat} {composite : BlockId} {span : Span} {node : NodeDecl}
    {children children' : List BlockId}
    (h : (perform limit composite span children (.node node)).run b = .ok (children', b')) :
    ∃ b₁, (declare limit node span).run b = .ok ((), b₁) ∧ node.id ∉ b₁.enclosing ∧
      (place node.id children).run b₁ = .ok (children', b') := by
  rw [perform, run_bind_ok_iff] at h
  obtain ⟨_, b₁, hdeclare, h⟩ := h
  rw [run_bind_ok_iff] at h
  obtain ⟨_, _, hcheck, hplace⟩ := h
  obtain ⟨rfl, hapart⟩ := checkNotEnclosing_cases hcheck
  exact ⟨b₁, hdeclare, hapart, hplace⟩

/-- The steps of a composite: its head, its body, and its own place. -/
theorem composite_cases {limit : Nat} {composite : BlockId} {span : Span} {head : NodeDecl}
    {body : List (Located Statement)} {children children' : List BlockId}
    (h : (perform limit composite span children (.composite head body)).run b =
      .ok (children', b')) :
    ∃ b₁ b₂ inner, (declare limit head span).run b = .ok ((), b₁) ∧ head.id ∉ b₁.enclosing ∧
      (performAll limit head.id [] body).run { b₁ with enclosing := head.id :: b₁.enclosing } =
        .ok (inner, b₂) ∧
      (place head.id children).run { b₂ with
        document := b₂.document.setChildren head.id (b₂.document.children head.id ++ inner.reverse)
        enclosing := b₂.enclosing.tail } = .ok (children', b') := by
  rw [perform, run_bind_ok_iff] at h
  obtain ⟨_, b₁, hdeclare, h⟩ := h
  rw [run_bind_ok_iff] at h
  obtain ⟨_, _, hcheck, h⟩ := h
  obtain ⟨rfl, hapart⟩ := checkNotEnclosing_cases hcheck
  rw [run_bind_ok_iff] at h
  obtain ⟨_, _, hopen, h⟩ := h
  cases hopen
  rw [run_bind_ok_iff] at h
  obtain ⟨inner, b₂, hbody, h⟩ := h
  rw [run_bind_ok_iff] at h
  obtain ⟨_, _, hset, h⟩ := h
  cases hset
  rw [run_bind_ok_iff] at h
  obtain ⟨_, _, hclose, hplace⟩ := h
  cases hclose
  exact ⟨b₁, b₂, inner, hdeclare, hapart, hbody, hplace⟩

/-! ### Whole lists -/

/-- The document that is left when the body of the root is complete. -/
def closed (b : Builder) (children : List BlockId) : Document :=
  b.document.setChildren BlockId.root (b.document.children BlockId.root ++ children.reverse)

/-- Building is to carry all statements out in the body of the root, and to close that. -/
theorem build_eq_map (limit : Nat) (ss : List (Located Statement)) :
    build limit ss =
      ((performAll limit BlockId.root [] ss).run start).map fun r ↦ closed r.2 r.1 := by
  rw [build]
  cases (performAll limit BlockId.root [] ss).run start with
  | error fault => rfl
  | ok result => rfl

/-- A document that is built is what a run over all statements leaves. -/
theorem run_of_build_ok {limit : Nat} {ss : List (Located Statement)} {d : Document}
    (h : build limit ss = .ok d) :
    ∃ children b, (performAll limit BlockId.root [] ss).run start = .ok (children, b) ∧
      d = b.closed children := by
  rw [build_eq_map] at h
  cases hrun : (performAll limit BlockId.root [] ss).run start with
  | error fault =>
    rw [hrun] at h
    cases h
  | ok result =>
    rw [hrun] at h
    cases h
    exact ⟨result.1, result.2, rfl, rfl⟩

/-- Building fails only where statements do, and with what they fail with. -/
theorem run_of_build_error {limit : Nat} {ss : List (Located Statement)} {fault : Fault}
    (h : build limit ss = .error fault) :
    (performAll limit BlockId.root [] ss).run start = .error fault := by
  rw [build_eq_map] at h
  cases hrun : (performAll limit BlockId.root [] ss).run start with
  | error fault' =>
    rw [hrun] at h
    cases h
    rfl
  | ok result =>
    rw [hrun] at h
    cases h

end BlockDiagram.Builder

namespace BlockDiagram.Document

variable {limit : Nat} {source : String} {ss : List (Source.Located Statement)} {d : Document}

/-- The document of a source is the one that is built of its statements. -/
theorem build_of_parse (hss : statements source = .ok ss) (hd : parse limit source = .ok d) :
    Builder.build limit ss = .ok d := by
  rw [parse, hss] at hd
  cases hbuild : Builder.build limit ss with
  | error fault =>
    simp only [bind, Except.bind, hbuild] at hd
    cases hd
  | ok d' =>
    simp only [bind, Except.bind, hbuild] at hd
    cases hd
    rfl

end BlockDiagram.Document
