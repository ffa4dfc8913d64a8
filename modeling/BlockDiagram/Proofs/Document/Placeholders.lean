import BlockDiagram.Proofs.Document.Appending
import BlockDiagram.Proofs.Lexer.Rules
import BlockDiagram.Proofs.Text.Cutting

/-!
# Classes in front of declarations

A class may be applied to a block that is declared later. The block is registered for the class, and
a declaration says less about a block that is there than about a new one: not its width, not its
directions, and nothing about its label if that is its id (`build_classify_declare`).
-/

namespace BlockDiagram

open Source (Located Span)

namespace Builder

/-- Holds for ids of word characters. -/
def IsWord (id : BlockId) : Prop :=
  id ≠ "" ∧ ∀ c ∈ id.toList, isWordChar c = true

/-- An id of word characters is a list of targets by itself. -/
theorem targetsOf_of_isWord {id : BlockId} (h : IsWord id) : targetsOf id = [id] := by
  obtain ⟨hne, hword⟩ := h
  have hcomma : ',' ∉ id.toList := fun hmem ↦ absurd (hword _ hmem) (by decide)
  have hblank : ∀ c ∈ id.toList, Text.isBlank c = false := fun c hc ↦
    Lexer.isBlank_of_isWordChar (hword c hc)
  simp [targetsOf, Text.pieces_eq_singleton hcomma, (Text.isTrimmed_of_forall hblank).trimBlank_eq,
    hne]

/-- The block of a node that a class has been applied to before it was declared. -/
def classedFirst (node : NodeDecl) (name : String) : Block :=
  merge node ((Block.ofShape node.id .unknown).addClass name)

/-- The block of a node that a class has been applied to after it was declared. -/
def declaredFirst (node : NodeDecl) (name : String) : Block :=
  (blockOf node).addClass name

section

variable (node : NodeDecl) (name : String)

private theorem classedFirst_eq : classedFirst node name =
    { id := node.id
      label := (labelOf node).text
      markdown := if (labelOf node).text = node.id then false else (labelOf node).markdown
      shape := node.shape
      classes := [name] } := by
  unfold classedFirst merge
  by_cases hshape : node.shape = .unknown
  · by_cases hlabel : (labelOf node).text = node.id
    · simp [hshape, hlabel, Block.ofShape, Block.addClass]
    · simp [hshape, hlabel, Block.ofShape, Block.addClass]
  · by_cases hlabel : (labelOf node).text = node.id
    · simp [hshape, hlabel, Block.ofShape, Block.addClass]
    · simp [hshape, hlabel, Block.ofShape, Block.addClass]

private theorem declaredFirst_eq : declaredFirst node name =
    { id := node.id
      label := (labelOf node).text
      markdown := (labelOf node).markdown
      shape := node.shape
      width := max node.width 1
      directions := node.directions
      classes := [name] } := by
  simp [declaredFirst, blockOf, Block.ofShape, Block.withWidth, Block.addClass]

end

section

variable {limit : Nat} {b : Builder} {node : NodeDecl} {name : String} {span span' : Span}
  {children children' : List BlockId} {placed : Std.ExtTreeMap BlockId Unit}
  (hword : IsWord node.id) (hapart : node.id ∉ b.enclosing)
  (hnew : b.document.contains node.id = false) (hroom : b.document.size - 1 < limit)
  (hplace : ∀ d, (place node.id children).run { b with document := d } =
    .ok (children', { b with document := d, placed := placed }))

include hword hapart hnew hroom hplace

/-- Where the class comes first, its block is merged with the declaration. -/
theorem run_classify_declare :
    (performAll limit BlockId.root children
      [⟨.applyClass node.id name, span⟩, ⟨.node node, span'⟩]).run b =
        .ok (children', { b with
          document := b.document.insertBlock (classedFirst node name), placed := placed }) := by
  let placeholder := (Block.ofShape node.id .unknown).addClass name
  have hclassify : (applyClass limit name span (targetsOf node.id)).run b =
      .ok ((), { b with document := b.document.insertBlock placeholder }) := by
    have hclass := Document.modifyBlock_insertBlock (.ofShape node.id .unknown) (·.addClass name)
      hnew rfl rfl
    rw [targetsOf_of_isWord hword, run_applyClass_of_lt hroom, hclass]
  have hdeclare : (declare limit node span').run
      { b with document := b.document.insertBlock placeholder } =
        .ok ((), { b with document := b.document.insertBlock (classedFirst node name) }) := by
    have hmerge := Document.modifyBlock_insertBlock placeholder (merge node) hnew rfl
      (congrArg Block.id (classedFirst_eq node name))
    rw [run_declare_of_contains limit span' (Document.contains_insertBlock_self hnew rfl)]
    exact congrArg (fun d ↦ Except.ok ((), { b with document := d })) hmerge
  have hnode := (run_perform_node BlockId.root hdeclare hapart).trans (hplace _)
  rw [run_performAll_cons (run_perform_applyClass hclassify), run_performAll_cons hnode,
    run_performAll_nil]

/-- Where the declaration comes first, its block gets the class. -/
theorem run_declare_classify :
    (performAll limit BlockId.root children
      [⟨.node node, span'⟩, ⟨.applyClass node.id name, span⟩]).run b =
        .ok (children', { b with
          document := b.document.insertBlock (declaredFirst node name), placed := placed }) := by
  have hdeclare := run_declare_of_not_contains span' hnew hroom
  have hnode := (run_perform_node BlockId.root hdeclare hapart).trans (hplace _)
  have hclassify : (applyClass limit name span (targetsOf node.id)).run
      { b with document := b.document.insertBlock (blockOf node), placed := placed } =
        .ok ((), { b with
          document := b.document.insertBlock (declaredFirst node name), placed := placed }) := by
    have hclass := Document.modifyBlock_insertBlock (blockOf node) (·.addClass name) hnew rfl rfl
    rw [targetsOf_of_isWord hword,
      run_applyClass_of_contains (Document.contains_insertBlock_self hnew rfl)]
    exact congrArg (fun d ↦ Except.ok ((), { b with document := d, placed := placed })) hclass
  rw [run_performAll_cons hnode, run_performAll_cons (run_perform_applyClass hclassify),
    run_performAll_nil]

end

private theorem ne_root_of_new {d : Document} {id : BlockId} (hnew : d.contains id = false)
    (hroot : d.contains BlockId.root = true) : id ≠ BlockId.root := by
  rintro rfl
  rw [hnew] at hroot
  cases hroot

/-- A new block is found in the closed document. -/
theorem block?_closed_insertBlock {b : Builder} {d : Document} {id : BlockId} {block : Block}
    {placed : Std.ExtTreeMap BlockId Unit} (children : List BlockId)
    (hnew : d.contains id = false) (hroot : d.contains BlockId.root = true) (hid : block.id = id) :
    (closed { b with document := d.insertBlock block, placed := placed } children).block? id =
      some block := by
  unfold closed
  rw [Document.block?_setChildren, if_neg (ne_root_of_new hnew hroot).symm,
    Document.block?_insertBlock, hid, if_pos ⟨hnew, rfl⟩]

/-- A new block is all that closed documents differ in which have one or another. -/
theorem closed_insertBlock_eq {d : Document} {id : BlockId} {x y : Block} (b : Builder)
    (placed : Std.ExtTreeMap BlockId Unit) (children : List BlockId)
    (hnew : d.contains id = false) (hroot : d.contains BlockId.root = true) (hx : x.id = id)
    (hy : y.id = id) :
    closed { b with document := d.insertBlock y, placed := placed } children =
      (closed { b with document := d.insertBlock x, placed := placed } children).modifyBlock id
        fun _ ↦ y := by
  have hne := ne_root_of_new hnew hroot
  have hchildren (z : Block) (hz : z.id = id) :
      (d.insertBlock z).children BlockId.root = d.children BlockId.root := by
    rw [Document.children, Document.block?_insertBlock, hz, if_neg fun h ↦ hne h.2]
    rfl
  have hmodify := Document.modifyBlock_insertBlock x (fun _ ↦ y) hnew hx hy
  unfold closed
  rw [Document.modifyBlock_setChildren_of_ne hne]
  dsimp only
  rw [hmodify, hchildren x hx, hchildren y hy]

/-- A class that is applied to a new block before its declaration makes the block what it is when
the class is applied afterwards, its children, columns and styles included, but for its width and
its directions, which are then those of a block that is never declared, and for the markdown of a
label that is the id. -/
theorem build_classify_declare {limit : Nat} {ss : List (Located Statement)} {d : Document}
    {node : NodeDecl} (h : build limit ss = .ok d) (hword : IsWord node.id)
    (hnew : d.contains node.id = false) (hroom : d.size - 1 < limit) (name : String)
    (span span' : Span) :
    ∃ d₁ d₂ x y,
      build limit (ss ++ [⟨.applyClass node.id name, span⟩, ⟨.node node, span'⟩]) = .ok d₁ ∧
      build limit (ss ++ [⟨.node node, span'⟩, ⟨.applyClass node.id name, span⟩]) = .ok d₂ ∧
      d₁.block? node.id = some x ∧ d₂.block? node.id = some y ∧
      d₂ = d₁.modifyBlock node.id (fun _ ↦ y) ∧
      y = { x with markdown := y.markdown, width := y.width, directions := y.directions } ∧
      x.shape = y.shape ∧ x.label = y.label ∧ x.classes = y.classes ∧
      (x.label ≠ node.id → x.markdown = y.markdown) ∧
      (x.label = node.id → x.markdown = false ∧ y.markdown = (labelOf node).markdown) ∧
      x.width = 1 ∧ y.width = max node.width 1 ∧
      x.directions = [] ∧ y.directions = node.directions := by
  obtain ⟨children, b, -, rfl, henclosing, hroot, hbuild⟩ := exists_run_of_build h
  rw [contains_closed] at hnew
  rw [size_closed] at hroom
  have hapart : node.id ∉ b.enclosing := by
    rw [henclosing]
    exact List.not_mem_nil
  obtain ⟨placed, children', hplace⟩ := exists_run_place node.id b children
  have hx : (classedFirst node name).id = node.id :=
    congrArg Block.id (classedFirst_eq node name)
  have hy : (declaredFirst node name).id = node.id :=
    congrArg Block.id (declaredFirst_eq node name)
  refine ⟨_, _, classedFirst node name, declaredFirst node name, ?_, ?_,
    block?_closed_insertBlock children' hnew hroot hx,
    block?_closed_insertBlock children' hnew hroot hy,
    closed_insertBlock_eq b placed children' hnew hroot hx hy, ?_⟩
  · rw [hbuild, run_classify_declare hword hapart hnew hroom hplace]
    rfl
  · rw [hbuild, run_declare_classify hword hapart hnew hroom hplace]
    rfl
  · rw [classedFirst_eq, declaredFirst_eq]
    exact ⟨rfl, rfl, rfl, rfl, fun hne ↦ if_neg hne, fun heq ↦ ⟨if_pos heq, rfl⟩, rfl, rfl, rfl,
      rfl⟩

/-! ### A block of two columns -/

/-- A block that spans two columns. -/
def wideNode : NodeDecl := { id := "a", width := 2 }

/-- A class that is applied to it. -/
def wideClass : Statement := .applyClass "a" "c"

/-- The block spans one column where the class comes first. -/
theorem width_classedFirst : ∃ d₁ d₂ x y,
    build 9 [⟨wideClass, .emptyAt 0⟩, ⟨.node wideNode, .emptyAt 0⟩] = .ok d₁ ∧
    build 9 [⟨.node wideNode, .emptyAt 0⟩, ⟨wideClass, .emptyAt 0⟩] = .ok d₂ ∧
    d₁.block? "a" = some x ∧ d₂.block? "a" = some y ∧ x.width = 1 ∧ y.width = 2 := by
  have hword : IsWord wideNode.id := ⟨by decide, List.all_eq_true.1 (by decide +kernel)⟩
  obtain ⟨d₁, d₂, x, y, h₁, h₂, hx, hy, -, -, -, -, -, -, -, hwidth, hwidth', -⟩ :=
    @build_classify_declare 9 [] _ wideNode rfl hword (by decide +kernel) (by decide +kernel) "c"
      (.emptyAt 0) (.emptyAt 0)
  exact ⟨d₁, d₂, x, y, h₁, h₂, hx, hy, hwidth, hwidth'⟩

private theorem exists_block_of_width (ss : List (Located Statement)) (id : BlockId) (width : Nat)
    (h : ((build 9 ss).toOption.bind (·.block? id)).map Block.width = some width) :
    ∃ d x, build 9 ss = .ok d ∧ d.block? id = some x ∧ x.width = width := by
  obtain ⟨x, hx, hwidth⟩ := Option.map_eq_some_iff.1 h
  obtain ⟨d, hd, hblock⟩ := Option.bind_eq_some_iff.1 hx
  exact ⟨d, x, eq_ok_of_toOption hd, hblock, hwidth⟩

/-- The two orders give the block different widths. -/
theorem width_ne_of_wideNode : ∃ d d₁ d₂ x y, build 9 [] = .ok d ∧ d.contains "a" = false ∧
    build 9 ([] ++ [⟨wideClass, .emptyAt 0⟩, ⟨.node wideNode, .emptyAt 0⟩]) = .ok d₁ ∧
    build 9 ([] ++ [⟨.node wideNode, .emptyAt 0⟩, ⟨wideClass, .emptyAt 0⟩]) = .ok d₂ ∧
    d₁.block? "a" = some x ∧ d₂.block? "a" = some y ∧ x.width ≠ y.width := by
  obtain ⟨d₁, x, h₁, hx, hwidth⟩ := exists_block_of_width
    [⟨wideClass, .emptyAt 0⟩, ⟨.node wideNode, .emptyAt 0⟩] "a" 1 (by decide +kernel)
  obtain ⟨d₂, y, h₂, hy, hwidth'⟩ := exists_block_of_width
    [⟨.node wideNode, .emptyAt 0⟩, ⟨wideClass, .emptyAt 0⟩] "a" 2 (by decide +kernel)
  refine ⟨_, d₁, d₂, x, y, rfl, by decide +kernel, h₁, h₂, hx, hy, ?_⟩
  rw [hwidth, hwidth']
  decide

end Builder

end BlockDiagram
