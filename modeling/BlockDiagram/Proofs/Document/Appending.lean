import BlockDiagram.Proofs.Document.Carrying
import BlockDiagram.Proofs.Document.Limit
import BlockDiagram.Proofs.Document.Nesting

/-!
# Statements behind others

What a longer list of statements builds, from what a shorter one has built (`exists_run_of_build`),
and what single steps lead to where nothing keeps them from being taken.
-/

namespace BlockDiagram

open Source (Located Span)

namespace OrderedMap

variable {α : Type}

/-- To change a value that has just been put in is to put in the changed one. -/
theorem modify_insert (m : OrderedMap α) (key : String) (value : α) (f : α → α) :
    (m.insert key value).modify key f = m.insert key (f value) := by
  apply ext_get?
  · rw [keys_modify, keys_insert, keys_insert]
  · intro other
    simp only [get?_modify, get?_insert]
    by_cases h : key = other
    · simp [h]
    · simp [h]

/-- Changes of different keys do not get in each other's way. -/
theorem modify_modify_of_ne (m : OrderedMap α) {key other : String} (h : key ≠ other)
    (f g : α → α) : (m.modify key f).modify other g = (m.modify other g).modify key f := by
  apply ext_get?
  · simp only [keys_modify]
  · intro third
    simp only [get?_modify]
    by_cases hkey : key = third
    · subst hkey
      simp [h.symm]
    · by_cases hother : other = third
      · subst hother
        simp [hkey]
      · simp [hkey, hother]

end OrderedMap

namespace Document

variable {d : Document}

/-- To change a block right after it is registered is to register it as changed. -/
theorem modifyBlock_insertBlock {id : BlockId} (block : Block) (f : Block → Block)
    (h : d.contains id = false) (hid : block.id = id) (hf : (f block).id = id) :
    (d.insertBlock block).modifyBlock id f = d.insertBlock (f block) := by
  simp only [insertBlock, hid, hf, h, Bool.false_eq_true, ite_false, modifyBlock,
    OrderedMap.modify_insert]

/-- A block that is registered is there. -/
theorem contains_insertBlock_self {id : BlockId} {block : Block} (h : d.contains id = false)
    (hid : block.id = id) : (d.insertBlock block).contains id = true := by
  apply contains_of_block? (b := block)
  rw [block?_insertBlock, hid, if_pos ⟨h, rfl⟩]

/-- Changes of two different blocks may be made in any order. -/
theorem modifyBlock_setChildren_of_ne {id changed : BlockId} (h : id ≠ changed)
    (children : List BlockId) (f : Block → Block) :
    (d.setChildren changed children).modifyBlock id f =
      (d.modifyBlock id f).setChildren changed children := by
  simp only [setChildren, modifyBlock, OrderedMap.modify_modify_of_ne d.blocks h.symm]

end Document

namespace Builder

variable {limit : Nat} {b b' : Builder} {children : List BlockId} {span : Span}

/-! ### Single steps -/

private theorem run_bind_of_ok {α β : Type} {m : Building α} {f : α → Building β} {x : α}
    (h : m.run b = .ok (x, b')) : (m >>= f).run b = (f x).run b' := by
  rw [StateT.run_bind, h]
  rfl

/-- A declaration of a known block merges with it. -/
theorem run_declare_of_contains {node : NodeDecl} (limit : Nat) (span : Span)
    (h : b.document.contains node.id = true) :
    (declare limit node span).run b =
      .ok ((), { b with document := b.document.modifyBlock node.id (merge node) }) := by
  rw [run_declare, if_pos h]

/-- A declaration of an unknown block registers it, if there may be one more. -/
theorem run_declare_of_not_contains {node : NodeDecl} (span : Span)
    (h : b.document.contains node.id = false) (hroom : b.document.size - 1 < limit) :
    (declare limit node span).run b =
      .ok ((), { b with document := b.document.insertBlock (blockOf node) }) := by
  rw [run_declare, if_neg (Bool.eq_false_iff.1 h), if_neg (by omega)]

private theorem run_checkNotEnclosing_of_not_mem {id : BlockId} (h : id ∉ b.enclosing) :
    (checkNotEnclosing id span).run b = .ok ((), b) := by
  rw [run_checkNotEnclosing, if_neg h]

/-- A known block gets a class without being registered. -/
theorem run_applyClass_of_contains {name : String} {id : BlockId}
    (h : b.document.contains id = true) :
    (applyClass limit name span [id]).run b =
      .ok ((), { b with document := b.document.modifyBlock id (·.addClass name) }) := by
  rw [run_applyClass_cons, if_neg fun hnew ↦ Bool.eq_false_iff.1 hnew.1 h,
    Document.insertBlock_of_contains h rfl]
  rfl

/-- Where there may be one more block, a block gets a class and is registered if it is new. -/
theorem run_applyClass_of_lt {name : String} {id : BlockId}
    (hroom : b.document.size - 1 < limit) :
    (applyClass limit name span [id]).run b =
      .ok ((), { b with
        document :=
          (b.document.insertBlock (Block.ofShape id .unknown)).modifyBlock id
            (·.addClass name) }) := by
  rw [run_applyClass_cons, if_neg (by omega)]
  rfl

/-- A block that is placed already is not placed once more. -/
theorem run_place_of_mem {id : BlockId} (h : id ∈ b.placed) :
    (place id children).run b = .ok (children, b) := by
  rw [run_place, if_pos h]

/-- A block is placed whatever the document is. -/
theorem exists_run_place (id : BlockId) (b : Builder) (children : List BlockId) :
    ∃ placed children', ∀ d, (place id children).run { b with document := d } =
      .ok (children', { b with document := d, placed := placed }) := by
  by_cases hplaced : id ∈ b.placed
  · exact ⟨b.placed, children, fun d ↦ run_place_of_mem hplaced⟩
  · refine ⟨b.placed.insert id (), id :: children, fun d ↦ ?_⟩
    rw [run_place, if_neg hplaced]

/-! ### Statements -/

/-- A statement that gives a class places nothing. -/
theorem run_perform_applyClass {composite : BlockId} {targets name : String}
    (h : (applyClass limit name span (targetsOf targets)).run b = .ok ((), b')) :
    (perform limit composite span children (.applyClass targets name)).run b =
      .ok (children, b') := by
  rw [perform, run_bind_of_ok h]
  rfl

/-- A node whose body is not under way is placed after its declaration. -/
theorem run_perform_node {node : NodeDecl} (composite : BlockId)
    (hdeclare : (declare limit node span).run b = .ok ((), b'))
    (hapart : node.id ∉ b'.enclosing) :
    (perform limit composite span children (.node node)).run b =
      (place node.id children).run b' := by
  rw [perform, run_bind_of_ok hdeclare, run_bind_of_ok (run_checkNotEnclosing_of_not_mem hapart)]

/-- A composite whose body can be carried out. -/
theorem run_perform_composite {composite : BlockId} {head : NodeDecl}
    {body : List (Located Statement)} {b₁ b₂ : Builder} {inner : List BlockId}
    (hdeclare : (declare limit head span).run b = .ok ((), b₁)) (hapart : head.id ∉ b₁.enclosing)
    (hbody : (performAll limit head.id [] body).run
      { b₁ with enclosing := head.id :: b₁.enclosing } = .ok (inner, b₂)) :
    (perform limit composite span children (.composite head body)).run b =
      (place head.id children).run { b₂ with
        document := b₂.document.setChildren head.id (b₂.document.children head.id ++ inner.reverse)
        enclosing := b₂.enclosing.tail } := by
  have hopen : (modify fun b ↦ { b with enclosing := head.id :: b.enclosing } : Building Unit).run
      b₁ = .ok ((), { b₁ with enclosing := head.id :: b₁.enclosing }) := rfl
  rw [perform, run_bind_of_ok hdeclare, run_bind_of_ok (run_checkNotEnclosing_of_not_mem hapart),
    run_bind_of_ok hopen, run_bind_of_ok hbody]
  rfl

/-- After the first statement the others are carried out. -/
theorem run_performAll_cons {composite : BlockId} {statement : Statement}
    {ss : List (Located Statement)} {children' : List BlockId}
    (h : (perform limit composite span children statement).run b = .ok (children', b')) :
    (performAll limit composite children (⟨statement, span⟩ :: ss)).run b =
      (performAll limit composite children' ss).run b' := by
  rw [performAll, run_bind_of_ok h]

/-- Without statements nothing changes. -/
theorem run_performAll_nil (limit : Nat) (composite : BlockId) (children : List BlockId)
    (b : Builder) : (performAll limit composite children []).run b = .ok (children, b) := by
  rw [performAll]
  rfl

/-! ### Whole lists -/

private theorem performAll_append (composite : BlockId) (ss ts : List (Located Statement)) :
    performAll limit composite children (ss ++ ts) =
      performAll limit composite children ss >>= fun placed ↦
        performAll limit composite placed ts := by
  induction ss generalizing children with
  | nil => simp [performAll]
  | cons statement ss ih => simp [performAll, ih]

/-- Where statements have built a document, no composite is open, and those behind them go on from
there. -/
theorem exists_run_of_build {ss : List (Located Statement)} {d : Document}
    (h : build limit ss = .ok d) :
    ∃ children b, (performAll limit BlockId.root [] ss).run start = .ok (children, b) ∧
      d = b.closed children ∧ b.enclosing = [] ∧ b.document.contains BlockId.root = true ∧
        ∀ ts, build limit (ss ++ ts) =
          ((performAll limit BlockId.root children ts).run b).map fun r ↦ closed r.2 r.1 := by
  obtain ⟨children, b, hrun, rfl⟩ := run_of_build_ok h
  have hroot : start.document.contains BlockId.root = true := Document.contains_empty_iff.2 rfl
  refine ⟨children, b, hrun, rfl, ((finds_performAll ss).ok rfl hrun).1,
    (carries_of_performAll ss placesKnown_start hrun).1.keeps.contains hroot, fun ts ↦ ?_⟩
  rw [build_eq_map, performAll_append, run_bind_of_ok hrun]

/-- The end of a source registers no blocks. -/
theorem contains_closed (b : Builder) (children : List BlockId) (id : BlockId) :
    (b.closed children).contains id = b.document.contains id :=
  Document.contains_setChildren _ _ _ _

/-- The end of a source leaves the number of blocks as it was. -/
theorem size_closed (b : Builder) (children : List BlockId) :
    (b.closed children).size = b.document.size :=
  Document.size_setChildren _ _

end Builder

end BlockDiagram
