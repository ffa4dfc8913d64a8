import BlockDiagram.Proofs.Layout.Separation

/-!
# Cells and what they hold

In exact arithmetic the cells of a composite have room for its children: no block is smaller than it
is by nature, which for a label is the size of the shape around it (`size_of_compute`). A block
without children has exactly the size of the cells it takes, which it shares with the blocks next to
it (`Grown.get?_child`).
-/

namespace BlockDiagram

namespace OrderedMap

variable {α β : Type}

/-- Of several values with the same key the last one is found. -/
theorem get?_foldl_insert_eq (key : β → String) (value : β → α) (m : OrderedMap α) (xs : List β)
    (other : String) :
    (xs.foldl (fun m x ↦ m.insert (key x) (value x)) m).get? other =
      ((xs.reverse.find? fun x ↦ key x = other).map value).or (m.get? other) := by
  induction xs generalizing m with
  | nil => rfl
  | cons x xs ih =>
    rw [List.foldl_cons, ih, get?_insert, List.reverse_cons, List.find?_append, Option.map_or,
      Option.or_assoc]
    by_cases h : key x = other <;> simp [h]

/-- Values whose keys differ are all found by their keys. -/
theorem get?_foldl_insert {m : OrderedMap α} {key : β → String} {value : β → α} {xs : List β}
    (h : (xs.map key).Nodup) {x : β} (hx : x ∈ xs) :
    (xs.foldl (fun m x ↦ m.insert (key x) (value x)) m).get? (key x) = some (value x) := by
  have hfound : (xs.reverse.find? fun y ↦ key y = key x).isSome :=
    List.find?_isSome.2 ⟨x, List.mem_reverse.2 hx, by simp⟩
  obtain ⟨y, hy⟩ := Option.isSome_iff_exists.1 hfound
  have hmem : y ∈ xs := List.mem_reverse.1 (List.mem_of_find?_eq_some hy)
  have hkey : key y = key x := by simpa using List.find?_some hy
  rw [get?_foldl_insert_eq, hy, List.inj_on_of_nodup_map h hmem hx hkey]
  rfl

end OrderedMap

namespace Layout

open Scalar

variable {d : Document} {padding : ℚ} {labels sizes : Sizes ℚ} {plans : Plans ℚ}
  {listing : List Mention} {layout : Layout ℚ}

/-- A literal is the rational number that it says. -/
theorem literal_rat (n : Nat) : (@OfNat.ofNat ℚ n (Scalar.instOfNat n)) = n :=
  ofNat_rat n

/-! ### Children -/

/-- The natural size of a composite that has grown is that of the cells of its plan. -/
theorem Grown.naturalOf_eq {id : BlockId} {plan : Plan ℚ} {cell : Size ℚ}
    (h : Grown d padding plans sizes id plan cell) :
    naturalOf padding labels plans id = extent padding plan plan.cell := by
  rw [naturalOf, h.planned]

/-- The size of a composite that has grown is that of its cells. -/
theorem Grown.sizeOf_eq {id : BlockId} {plan : Plan ℚ} {cell : Size ℚ}
    (h : Grown d padding plans sizes id plan cell) :
    sizeOf sizes id = extent padding plan cell := by
  rw [sizeOf, h.size, Option.getD_some]

/-- No composite is smaller than it is by nature. -/
theorem Grown.natural_le {id : BlockId} {plan : Plan ℚ} {grid : Grid} {cell : Size ℚ}
    (h : Grown d padding plans sizes id plan cell)
    (hroomy : Roomy d padding labels plans id plan grid) :
    (naturalOf padding labels plans id).width ≤ (sizeOf sizes id).width ∧
      (naturalOf padding labels plans id).height ≤ (sizeOf sizes id).height := by
  have hwidth := mul_le_mul_of_nonneg_left h.width_le hroomy.columns_pos.le
  have hheight := mul_le_mul_of_nonneg_left h.height_le hroomy.rows_pos.le
  rw [h.naturalOf_eq, h.sizeOf_eq, extent_rat, extent_rat]
  constructor
  · dsimp only
    linarith
  · dsimp only
    linarith

/-- A child without children has the size of the cells it takes. -/
theorem Grown.get?_child {id child : BlockId} {plan : Plan ℚ} {grid : Grid} {cell : Size ℚ}
    (hd : d.Sound) (hpadding : 0 ≤ padding)
    (hplans : ∀ id plan, plans[id]? = some plan → ∃ grid, Roomy d padding labels plans id plan grid)
    (h : Grown d padding plans sizes id plan cell)
    (hroomy : Roomy d padding labels plans id plan grid) (hchild : child ∈ d.children id)
    (hleaf : d.children child = []) :
    sizes.get? child = some ⟨spanWidth padding cell.width (spanOf d child), cell.height⟩ := by
  obtain ⟨t, rfl, hfitted⟩ := h.child child hchild
  have hwidth := hroomy.width_nonneg.trans h.width_le
  rw [stamped_rat hpadding (spanOf_bounds hd t.id).1 hwidth] at hfitted
  cases hfitted with
  | leaf hnone hplan hsize => exact hsize
  | composite hchildren hplan hfit hsize hfitted =>
    obtain ⟨grid', hroomy'⟩ := hplans _ _ hplan
    exact absurd hleaf hroomy'.nonempty

/-! ### Trees -/

/-- Holds for sizes in which the cells of all composites have grown from those of their plans. -/
structure Grows (d : Document) (padding : ℚ) (labels sizes : Sizes ℚ) : Prop where
  sound : d.Sound
  padding_nonneg : 0 ≤ padding
  planned : ∀ id plan, (plansOf d padding labels)[id]? = some plan →
    d.children id ≠ [] ∧ Planned d padding labels (plansOf d padding labels) id plan
  grown : ∀ id, d.children id ≠ [] →
    ∃ plan cell, Grown d padding (plansOf d padding labels) sizes id plan cell

/-- The sizes of a sound document whose blocks form a tree have grown. -/
theorem grows_of_sizesOf (hd : d.Sound) (hlisted : d.ListedBy listing) (hpadding : 0 ≤ padding)
    (hsizes : sizesOf d padding labels = .ok sizes) : Grows d padding labels sizes := by
  obtain ⟨t, hroot, ht⟩ := hlisted.exists_shows
  obtain ⟨hplanned, hgrown⟩ := grown_of_sizesOf hd ht hroot (ht.nodup_ids hlisted hroot)
    hlisted.length_le_size hsizes hpadding
  refine ⟨hd, hpadding, hplanned, fun id hne ↦ hgrown id ?_ hne⟩
  obtain ⟨child, hchild⟩ := List.exists_mem_of_ne_nil _ hne
  rw [ht.mem_ids_iff hlisted hroot]
  exact hlisted.rooted.composite_mem _ (hlisted.mem_children_iff.1 hchild)

namespace Grows

/-- Where all sizes have grown, the plan of a composite has room for its children. -/
theorem roomy (h : Grows d padding labels sizes) (id : BlockId) (plan : Plan ℚ)
    (hplan : (plansOf d padding labels)[id]? = some plan) :
    ∃ grid, Roomy d padding labels (plansOf d padding labels) id plan grid :=
  exists_roomy h.sound h.planned id plan hplan

/-- A block without children is by nature as large as its label is. -/
theorem naturalOf_leaf (h : Grows d padding labels sizes) {id : BlockId}
    (hleaf : d.children id = []) :
    naturalOf padding labels (plansOf d padding labels) id = (labels.get? id).getD .zero := by
  have hplan : (plansOf d padding labels)[id]? = none := by
    rw [Option.eq_none_iff_forall_ne_some]
    intro plan hplan
    obtain ⟨grid, hroomy⟩ := h.roomy id plan hplan
    exact hroomy.nonempty hleaf
  rw [naturalOf, hplan]

/-- The plan and the cells of a composite. -/
theorem exists_cells (h : Grows d padding labels sizes) {id : BlockId} (hne : d.children id ≠ []) :
    ∃ plan grid cell, Roomy d padding labels (plansOf d padding labels) id plan grid ∧
      Grown d padding (plansOf d padding labels) sizes id plan cell := by
  obtain ⟨plan, cell, hgrown⟩ := h.grown id hne
  obtain ⟨grid, hroomy⟩ := h.roomy id plan hgrown.planned
  exact ⟨plan, grid, cell, hroomy, hgrown⟩

/-- No child of a composite is smaller than it is by nature, unless it is a spacer. -/
theorem natural_le (h : Grows d padding labels sizes) {id child : BlockId}
    (hchild : child ∈ d.children id) (hspacer : ¬ d.IsSpacer child) :
    (naturalOf padding labels (plansOf d padding labels) child).width ≤
        (sizeOf sizes child).width ∧
      (naturalOf padding labels (plansOf d padding labels) child).height ≤
        (sizeOf sizes child).height := by
  by_cases hleaf : d.children child = []
  · obtain ⟨plan, grid, cell, hroomy, hgrown⟩ := h.exists_cells (List.ne_nil_of_mem hchild)
    obtain ⟨hwidth, hheight⟩ := hgrown.room hroomy child hchild hspacer
    have hspan : cell.width * spanOf d child ≤ spanWidth padding cell.width (spanOf d child) :=
      le_spanWidth h.padding_nonneg (spanOf_bounds h.sound child).1
    rw [sizeOf, hgrown.get?_child h.sound h.padding_nonneg h.roomy hroomy hchild hleaf]
    exact ⟨hwidth.trans hspan, hheight⟩
  · obtain ⟨plan, grid, cell, hroomy, hgrown⟩ := h.exists_cells hleaf
    exact hgrown.natural_le hroomy

/-- No child of a composite has a negative size. -/
theorem size_nonneg (h : Grows d padding labels sizes) {id child : BlockId}
    (hchild : child ∈ d.children id) :
    0 ≤ (sizeOf sizes child).width ∧ 0 ≤ (sizeOf sizes child).height := by
  obtain ⟨plan, grid, cell, hroomy, hgrown⟩ := h.exists_cells (List.ne_nil_of_mem hchild)
  have hsized := hgrown.sized h.sound h.padding_nonneg h.roomy hroomy
  have hspan := (spanOf_bounds h.sound child).1
  rw [hsized.child_width child hchild]
  refine ⟨?_, (hsized.child_height child hchild).1⟩
  refine le_trans ?_ (le_spanWidth h.padding_nonneg hspan)
  exact mul_nonneg hsized.width_nonneg (Nat.cast_nonneg _)

end Grows

/-! ### Labels -/

/-- Every block of the tree with a label has its size among those of the labels. -/
theorem get?_labelSizes {settings : Settings ℚ} {measure : String → Size ℚ} (hd : d.Sound)
    (hlisted : d.ListedBy listing) {b : Block} (hb : b ∈ d.walk) (hcomposite : b.shape ≠ .composite)
    (hspace : b.shape ≠ .space) :
    (labelSizes settings measure d).get? b.id = some (labelledSize settings measure b) := by
  refine OrderedMap.get?_foldl_insert ?_ ?_
  · exact (hlisted.map_id_walk hd).1.sublist (List.Sublist.map Block.id List.filter_sublist)
  · simp [hb, Block.isComposite, Block.isSpace, hcomposite, hspace]

/-- The least sizes of shapes make no block smaller. -/
theorem content_le_labelledSize (settings : Settings ℚ) (measure : String → Size ℚ) (b : Block) :
    (b.shape.contentSize (measure b.label) settings.nodePadding b.directions).width ≤
        (labelledSize settings measure b).width ∧
      (b.shape.contentSize (measure b.label) settings.nodePadding b.directions).height ≤
        (labelledSize settings measure b).height := by
  rw [labelledSize]
  cases settings.leastSizes.lookup b.shape with
  | none => exact ⟨le_refl _, le_refl _⟩
  | some least => exact ⟨le_max_left _ _, le_max_left _ _⟩

/-- A block without children in the tree has room for its shape around its label. -/
theorem Grows.content_le {settings : Settings ℚ} {measure : String → Size ℚ} {id : BlockId}
    {b : Block} (h : Grows d padding (labelSizes settings measure d) sizes)
    (hlisted : d.ListedBy listing) (hb : b ∈ d.walk) (hchild : b.id ∈ d.children id)
    (hleaf : b.children = []) :
    (b.shape.contentSize (measure b.label) settings.nodePadding b.directions).width ≤
        (sizeOf sizes b.id).width ∧
      (b.shape.contentSize (measure b.label) settings.nodePadding b.directions).height ≤
        (sizeOf sizes b.id).height := by
  have hblock := hlisted.block?_of_mem_walk h.sound hb
  by_cases hcomposite : b.shape = .composite
  · rw [hcomposite, Shape.contentSize, zeroSize_rat]
    exact h.size_nonneg hchild
  by_cases hspace : b.shape = .space
  · rw [hspace, Shape.contentSize, zeroSize_rat]
    exact h.size_nonneg hchild
  have hspacer : ¬ d.IsSpacer b.id := by
    rintro ⟨b', hb', hspace'⟩
    rw [hblock] at hb'
    cases hb'
    exact hspace hspace'
  have hnatural := h.natural_le hchild hspacer
  rw [h.naturalOf_leaf ((Document.children_of_block? hblock).trans hleaf),
    get?_labelSizes h.sound hlisted hb hcomposite hspace, Option.getD_some] at hnatural
  have hcontent := content_le_labelledSize settings measure b
  exact ⟨hcontent.1.trans hnatural.1, hcontent.2.trans hnatural.2⟩

/-- Every block of a layout has a size, and if it has no children, there is room for its shape around
its label. -/
theorem size_of_compute {settings : Settings ℚ} {measure : String → Size ℚ} (hd : d.Sound)
    (hlisted : d.ListedBy listing) (hcompute : compute settings measure d = .ok layout) :
    ∀ b ∈ d.walk, ∃ size, layout.sizes.get? b.id = some size ∧ 0 ≤ size.width ∧ 0 ≤ size.height ∧
      (b.children = [] →
        (b.shape.contentSize (measure b.label) settings.nodePadding b.directions).width ≤
            size.width ∧
          (b.shape.contentSize (measure b.label) settings.nodePadding b.directions).height ≤
            size.height) := by
  obtain ⟨hvalid, harrange⟩ := arrange_of_compute hcompute
  have hpadding := nonneg_of_isValidPadding hvalid
  intro b hb
  have hid := ((hlisted.map_id_walk hd).2 b.id).1 (List.mem_map_of_mem hb)
  obtain ⟨-, size, -, hsize⟩ :=
    exists_place_of_arrange hlisted harrange b.id (List.mem_cons_of_mem _ hid)
  obtain ⟨sizes, hsizes, harrange⟩ := bind_eq_ok_iff.1 harrange
  obtain ⟨centers, -, harrange⟩ := bind_eq_ok_iff.1 harrange
  cases harrange
  have hgrows := grows_of_sizesOf hd hlisted hpadding hsizes
  obtain ⟨composite, hcount, -⟩ := hlisted.exists_count_eq_one hid
  have hchild : b.id ∈ d.children composite := List.count_pos_iff.1 (by omega)
  have hsizeOf : sizeOf sizes b.id = size := by rw [sizeOf, hsize, Option.getD_some]
  obtain ⟨hwidth, hheight⟩ := hgrows.size_nonneg hchild
  have hcontent := hgrows.content_le hlisted hb hchild
  rw [hsizeOf] at hwidth hheight hcontent
  exact ⟨size, hsize, hwidth, hheight, hcontent⟩

/-- The distance from the borders of shapes to their labels is not negative in a layout. -/
theorem nodePadding_nonneg {settings : Settings ℚ} {measure : String → Size ℚ}
    (h : compute settings measure d = .ok layout) : 0 ≤ settings.nodePadding := by
  rw [compute] at h
  split at h
  · cases h
  · next hvalid =>
    have hvalid := List.find?_eq_none.1 hvalid settings.nodePadding (by simp)
    exact nonneg_of_isValidPadding (by simpa using hvalid)

/-! ### A row with one wide block -/

open Grammar (Production headRules labelRules)

/-- A source in which the last block is wide and gives its width to all the others. -/
def crowded : String :=
  "block-beta a((\"x\")) b[(\"x\")] c<[\"x\"]>(down) block:g space end d[\"wide\"]"

/-- The rules that derive it. -/
def crowdedRules : List Production :=
  let node : List Production := [.documentMore, .nodes, .chainStart, .unsizedNode]
  [.start] ++ node ++ labelRules ++ node ++ labelRules ++ node ++
    [.shapedNode, .arrowShape, .plainText, .lastDirection] ++ headRules ++
    [.documentMore, .space, .documentEnd] ++ node ++ labelRules ++ [.documentEnd]

/-- Its circle. -/
def crowdedCircle : Block :=
  { id := "a", label := "x", shape := .circle }

/-- Its cylinder. -/
def crowdedCylinder : Block :=
  { id := "b", label := "x", shape := .cylinder }

/-- Its arrow. -/
def crowdedArrow : Block :=
  { id := "c", label := "x", shape := .blockArrow, directions := [.down] }

/-- Its composite. -/
def crowdedComposite : Block :=
  { id := "g", label := "", shape := .composite, children := ["g-0"] }

/-- The spacer in the composite. -/
def crowdedSpacer : Block :=
  { id := "g-0", label := "g-0", shape := .space }

/-- All blocks of the source. -/
def crowdedBlocks : List Block :=
  [crowdedCircle, crowdedCylinder, crowdedArrow, crowdedComposite, crowdedSpacer,
    { id := "d", label := "wide", shape := .square }]

/-- A measure for its labels. -/
def crowdedMeasure (text : String) : Size ℚ :=
  if text = "wide" then ⟨300, 10⟩ else ⟨10, 10⟩

/-- No text is measured to be smaller than nothing. -/
theorem crowdedMeasure_nonneg (text : String) :
    0 ≤ (crowdedMeasure text).width ∧ 0 ≤ (crowdedMeasure text).height := by
  rw [crowdedMeasure]
  split
  · norm_num
  · norm_num

/-- In its layout all blocks are as wide as the last one. -/
theorem exists_crowded : ∃ ss d layout, statements crowded = .ok ss ∧
    Document.parse 9 crowded = .ok d ∧ BlockId.root ∉ namesIn ss ∧
      compute ⟨2, 0, []⟩ crowdedMeasure d = .ok layout ∧
      (∀ b ∈ crowdedBlocks, b ∈ d.walk ∧ d.block? b.id = some b) ∧
      ["a", "b", "c", "g", "g-0"].map layout.sizes.get? =
        [some ⟨300, 20⟩, some ⟨300, 20⟩, some ⟨300, 20⟩, some ⟨300, 20⟩, some ⟨296, 16⟩] ∧
      ["a", "b", "g", "g-0"].map layout.centers.get? =
        [some ⟨150, 0⟩, some ⟨452, 0⟩, some ⟨1056, 0⟩, some ⟨1056, -8⟩] := by
  have hdecide : ((statementsAlong crowdedRules crowded).bind fun ss ↦
      (Builder.build 9 ss).toOption.map fun d ↦
        decide (BlockId.root ∉ namesIn ss) && decide (d.walk = crowdedBlocks) &&
          (compute ⟨2, 0, []⟩ crowdedMeasure d).toOption.any fun layout ↦
            decide (["a", "b", "c", "g", "g-0"].map layout.sizes.get? =
              [some ⟨300, 20⟩, some ⟨300, 20⟩, some ⟨300, 20⟩, some ⟨300, 20⟩, some ⟨296, 16⟩]) &&
            decide (["a", "b", "g", "g-0"].map layout.centers.get? =
              [some ⟨150, 0⟩, some ⟨452, 0⟩, some ⟨1056, 0⟩, some ⟨1056, -8⟩])) = some true := by
    decide +kernel
  obtain ⟨ss, d, hss, -, hd, hresult⟩ := parse_of_along hdecide
  simp only [Bool.and_eq_true, decide_eq_true_eq, Option.any_eq_true] at hresult
  obtain ⟨⟨hroot, hwalk⟩, layout, hlayout, hsizes, hcenters⟩ := hresult
  obtain ⟨mentions, h⟩ := Document.describes_of_parse hss hd hroot
  have hblocks : ∀ b ∈ crowdedBlocks, b ∈ d.walk ∧ d.block? b.id = some b := by
    intro b hb
    rw [← hwalk] at hb
    exact ⟨hb, h.listed.block?_of_mem_walk h.sound hb⟩
  exact ⟨ss, d, layout, hss, hd, hroot, eq_ok_of_toOption hlayout, hblocks, hsizes, hcenters⟩

end Layout

end BlockDiagram
