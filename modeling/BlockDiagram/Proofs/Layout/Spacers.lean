import BlockDiagram.Proofs.Layout.Cells

/-!
# Spacers and the boxes around them

A spacer is as tall as the cells of its composite, while the rows are only as high as the tallest
child that is no spacer. Where both heights differ, a spacer is still in the middle of its row, so it
may rise above the box of the composite, but never leaves it on the other three sides
(`spacers_of_parse`). The heights agree next to a block without children and in composites that are
not stretched.
-/

namespace BlockDiagram

namespace Bounds

/-- Nothing is added to a box by the boxes that lie in it, and by no others. -/
theorem merge_eq_left_iff {a b : Bounds ℚ} : a.merge b = a ↔ b.LiesIn a 0 := by
  have hmerge : a.merge b =
      ⟨min a.minX b.minX, min a.minY b.minY, max a.maxX b.maxX, max a.maxY b.maxY⟩ := rfl
  rw [hmerge]
  cases a
  simp only [Bounds.mk.injEq, min_eq_left_iff, max_eq_left_iff]
  constructor
  · rintro ⟨hminX, hminY, hmaxX, hmaxY⟩
    constructor <;> linarith
  · intro h
    have hminX := h.minX
    have hminY := h.minY
    have hmaxX := h.maxX
    have hmaxY := h.maxY
    simp only [add_zero] at hminX hminY hmaxX hmaxY
    exact ⟨hminX, hminY, hmaxX, hmaxY⟩

end Bounds

namespace Layout

open Scalar

variable {d : Document} {padding left : ℚ} {labels sizes : Sizes ℚ} {centers : Centers ℚ}
  {listing : List Mention}

/-! ### Heights -/

/-- The cell for blocks with natural sizes is no taller than all of them that are no spacers. -/
theorem naturalCell_height_le {natural : BlockId → Size ℚ} {cell : Size ℚ} {children : List BlockId}
    {limit : ℚ} (hcell : cell.height ≤ limit)
    (h : ∀ child ∈ children, ¬ d.IsSpacer child → (natural child).height ≤ limit) :
    (naturalCell d natural cell children).height ≤ limit := by
  induction children generalizing cell with
  | nil => exact hcell
  | cons child children ih =>
    obtain ⟨hchild, hchildren⟩ := List.forall_mem_cons.1 h
    have hwidened : (widened d cell child (spanOf d child) (natural child)).height ≤ limit := by
      rw [widened]
      split
      · exact hcell
      · next hspacer => exact max_le hcell (hchild (mt isSpacer_iff.2 hspacer))
    exact ih hwidened hchildren

/-- The rows of a composite have the height of its cells if a child without children stands in
them. -/
theorem Grows.rowHeight_of_leaf {id child : BlockId} {plan : Plan ℚ} {grid : Grid} {cell : Size ℚ}
    (h : Grows d padding labels sizes)
    (hroomy : Roomy d padding labels (plansOf d padding labels) id plan grid)
    (hgrown : Grown d padding (plansOf d padding labels) sizes id plan cell)
    (hchild : child ∈ d.children id) (hspacer : ¬ d.IsSpacer child)
    (hleaf : d.children child = []) : cell.height ≤ rowHeight d sizes (d.children id) := by
  have hsize := hgrown.get?_child h.sound h.padding_nonneg h.roomy hroomy hchild hleaf
  obtain ⟨-, hheights⟩ := rowHeight_le_iff.1 (le_refl (rowHeight d sizes (d.children id)))
  have hle := hheights child hchild hspacer
  rwa [sizeOf, hsize] at hle

/-- The rows of a composite have the height of its cells if it is as tall as it is by nature. -/
theorem Grows.rowHeight_of_natural {id : BlockId} {plan : Plan ℚ} {grid : Grid} {cell : Size ℚ}
    (h : Grows d padding labels sizes)
    (hroomy : Roomy d padding labels (plansOf d padding labels) id plan grid)
    (hgrown : Grown d padding (plansOf d padding labels) sizes id plan cell)
    (hnatural : (sizeOf sizes id).height =
      (naturalOf padding labels (plansOf d padding labels) id).height) :
    cell.height ≤ rowHeight d sizes (d.children id) := by
  have hcell : cell.height = plan.cell.height := by
    rw [hgrown.naturalOf_eq, hgrown.sizeOf_eq, extent_rat, extent_rat] at hnatural
    have := mul_left_cancel₀ hroomy.rows_pos.ne' (add_right_cancel hnatural)
    linarith
  obtain ⟨hnonneg, hheights⟩ := rowHeight_le_iff.1 (le_refl (rowHeight d sizes (d.children id)))
  rw [hcell, (h.planned id plan hgrown.planned).2.cell]
  refine naturalCell_height_le ?_ fun child hchild hspacer ↦ ?_
  · rw [zeroSize_rat]
    exact hnonneg
  · exact (h.natural_le hchild hspacer).2.trans (hheights child hchild hspacer)

/-! ### Boxes -/

/-- Where a child of a composite stands, in terms of the row that it stands in. -/
structure Stands (sizes : Sizes ℚ) (centers : Centers ℚ) (padding : ℚ) (child : BlockId)
    (room : Bounds ℚ) (height : ℚ) (row : Nat) : Prop where
  minX : room.minX + padding ≤ (boxOf sizes centers child).minX
  maxX : (boxOf sizes centers child).maxX + padding ≤ room.maxX
  maxY : (boxOf sizes centers child).maxY + padding ≤ room.maxY
  minY : (boxOf sizes centers child).minY = room.minY + padding + row * (height + padding) +
    (height - (sizeOf sizes child).height) / 2

/-- Every child of a sized composite stands in one of its rows, in the middle. -/
theorem stands_of_placed {id : BlockId} {grid : Grid} {cell : Size ℚ} (hpadding : 0 ≤ padding)
    (hsized : Sized d padding sizes id grid cell) (h : Placed d padding sizes centers id left) :
    ∀ e ∈ (d.children id).zip grid.cells, Stands sizes centers padding e.1
      ⟨left, topOf sizes centers id, left + (sizeOf sizes id).width,
        topOf sizes centers id + (sizeOf sizes id).height⟩
      (rowHeight d sizes (d.children id)) e.2.row := by
  obtain ⟨grid', hgrid', hplaces⟩ := h
  obtain rfl : grid' = grid := Except.ok.inj (hgrid'.symm.trans hsized.gridOf_eq)
  intro e he
  obtain ⟨hchild, hcell⟩ := List.of_mem_zip he
  have hrows := inRows_of_placed hpadding hsized hplaces
  obtain ⟨x, hcenter⟩ := center_of_places hplaces e he
  obtain ⟨hnonneg, -⟩ := rowHeight_le_iff.1 (le_refl (rowHeight d sizes (d.children id)))
  have hle : rowHeight d sizes (d.children id) ≤ cell.height :=
    rowHeight_le_iff.2
      ⟨hsized.height_nonneg, fun child hchild _ ↦ (hsized.child_height child hchild).2⟩
  have hheight := (hsized.child_height e.1 hchild).2
  have hright := hrows.le_right e he
  refine ⟨hrows.left_le e he, ?_, ?_, ?_⟩
  · rw [hsized.size]
    dsimp only
    linarith
  · -- the rows up to this one are no higher than as many cells
    have hpitch : 0 ≤ cell.height + padding := add_nonneg hsized.height_nonneg hpadding
    have hrow : ((e.2.row + 1 : Nat) : ℚ) * (cell.height + padding) ≤
        grid'.rows * (cell.height + padding) :=
      mul_le_mul_of_nonneg_right (Nat.cast_le.2 (hsized.fills.row_lt e.2 hcell)) hpitch
    have hbefore : (e.2.row : ℚ) * (rowHeight d sizes (d.children id) + padding) ≤
        e.2.row * (cell.height + padding) :=
      mul_le_mul_of_nonneg_left (by linarith) (Nat.cast_nonneg _)
    rw [boxOf_eq hcenter, hsized.size]
    dsimp only
    push_cast at hrow
    linarith
  · rw [boxOf_eq hcenter]
    dsimp only
    ring

/-- Where a spacer of a composite stands in the box of the composite. -/
structure Seats (d : Document) (padding : ℚ) (labels : Sizes ℚ) (layout : Layout ℚ)
    (id spacer : BlockId) : Prop where
  minX : (layout.box id).minX + padding ≤ (layout.box spacer).minX
  maxX : (layout.box spacer).maxX + padding ≤ (layout.box id).maxX
  maxY : (layout.box spacer).maxY + padding ≤ (layout.box id).maxY
  /-- A spacer leaves the composite if it is taller than its row by twice the distance of the row
  from the border. -/
  inside_iff : ∃ grid cell, gridOf d id = .ok grid ∧
    (spacer, cell) ∈ (d.children id).zip grid.cells ∧
    ((layout.box spacer).LiesIn (layout.box id) 0 ↔
      (sizeOf layout.sizes spacer).height ≤ rowHeight d layout.sizes (d.children id) +
        2 * (padding + cell.row * (rowHeight d layout.sizes (d.children id) + padding)))
  /-- A spacer adds nothing to the box of its composite as long as it stays inside. -/
  merge_iff : (layout.box id).merge (layout.box spacer) = layout.box id ↔
    (layout.box spacer).LiesIn (layout.box id) 0
  /-- It keeps the padding next to a block without children. -/
  inside_of_leaf : (∃ child ∈ d.children id, ¬ d.IsSpacer child ∧ d.children child = []) →
    (layout.box spacer).LiesIn (layout.box id) padding
  /-- It keeps the padding in a composite that is as tall as it is by nature. -/
  inside_of_natural : (sizeOf layout.sizes id).height =
      (naturalOf padding labels (plansOf d padding labels) id).height →
    (layout.box spacer).LiesIn (layout.box id) padding

/-- The spacers of a composite whose cells have grown. -/
theorem seats_of_stands {layout : Layout ℚ} {id spacer : BlockId} {plan : Plan ℚ} {grid : Grid}
    {cell : Size ℚ} {place : Cell} (h : Grows d padding labels layout.sizes)
    (hroomy : Roomy d padding labels (plansOf d padding labels) id plan grid)
    (hgrown : Grown d padding (plansOf d padding labels) layout.sizes id plan cell)
    (hplace : (spacer, place) ∈ (d.children id).zip grid.cells) (hspacer : d.IsSpacer spacer)
    (hstands : Stands layout.sizes layout.centers padding spacer (layout.box id)
      (rowHeight d layout.sizes (d.children id)) place.row) :
    Seats d padding labels layout id spacer := by
  have hheight : (sizeOf layout.sizes spacer).height = cell.height := by
    rw [sizeOf, hgrown.get?_child h.sound h.padding_nonneg h.roomy hroomy (List.of_mem_zip hplace).1
      (h.sound.spacer spacer hspacer), Option.getD_some]
  obtain ⟨hnonneg, -⟩ :=
    rowHeight_le_iff.1 (le_refl (rowHeight d layout.sizes (d.children id)))
  obtain ⟨hminX, hmaxX, hmaxY, hminY⟩ := hstands
  have hminY : (layout.box spacer).minY = _ := hminY
  have hpadding := h.padding_nonneg
  have hbefore : 0 ≤ (place.row : ℚ) * (rowHeight d layout.sizes (d.children id) + padding) :=
    mul_nonneg (Nat.cast_nonneg _) (add_nonneg hnonneg hpadding)
  have hinside : cell.height ≤ rowHeight d layout.sizes (d.children id) →
      (layout.box spacer).LiesIn (layout.box id) padding := by
    intro hle
    refine ⟨hminX, ?_, hmaxX, hmaxY⟩
    rw [hminY, hheight]
    linarith
  refine ⟨hminX, hmaxX, hmaxY, ⟨grid, place, hroomy.gridOf_eq, hplace, ?_⟩,
    Bounds.merge_eq_left_iff, ?_, ?_⟩
  · constructor
    · intro hlies
      have hle := hlies.minY
      rw [hminY] at hle
      linarith
    · intro hle
      refine ⟨?_, ?_, ?_, ?_⟩
      · exact (add_le_add_right hpadding _).trans hminX
      · rw [hminY]
        linarith
      · exact (add_le_add_right hpadding _).trans hmaxX
      · exact (add_le_add_right hpadding _).trans hmaxY
  · rintro ⟨child, hchild, hproper, hleaf⟩
    exact hinside (h.rowHeight_of_leaf hroomy hgrown hchild hproper hleaf)
  · exact fun hnatural ↦ hinside (h.rowHeight_of_natural hroomy hgrown hnatural)

/-- The spacers of a layout of a sound document whose blocks form a tree. -/
theorem seats_of_arrange {layout : Layout ℚ} (hd : d.Sound) (hlisted : d.ListedBy listing)
    (hpadding : 0 ≤ padding) (harrange : arrange d padding labels = .ok layout) :
    ∀ id, id ≠ BlockId.root → ∀ spacer ∈ d.children id, d.IsSpacer spacer →
      Seats d padding labels layout id spacer := by
  obtain ⟨sizes, hsizes, h⟩ := bind_eq_ok_iff.1 harrange
  obtain ⟨centers, hcenters, h⟩ := bind_eq_ok_iff.1 h
  cases h
  intro id hroot spacer hchild hspacer
  have hne := List.ne_nil_of_mem hchild
  have hgrows := grows_of_sizesOf hd hlisted hpadding hsizes
  obtain ⟨plan, grid, cell, hroomy, hgrown⟩ := hgrows.exists_cells hne
  have hsized := hgrown.sized hd hpadding hgrows.roomy hroomy
  obtain ⟨t, htop, ht⟩ := hlisted.exists_shows
  have hid : id ∈ t.ids := (ht.mem_ids_iff hlisted htop).2
    (hlisted.rooted.composite_mem _ (hlisted.mem_children_iff.1 hchild))
  obtain ⟨center, hcenter, hplaced⟩ := (places_of_centersOf ht htop (ht.nodup_ids hlisted htop)
    hlisted.length_le_size hcenters).1 id hid
  have hplaced := hplaced hroot hne
  rw [two_rat] at hplaced
  have hstands := stands_of_placed hpadding hsized hplaced
  rw [room_eq_boxOf hcenter] at hstands
  have hfst := List.map_fst_zip (Nat.le_of_eq hsized.fills.length.symm)
  rw [← hfst] at hchild
  obtain ⟨⟨_, place⟩, hplace, rfl⟩ := List.mem_map.1 hchild
  exact seats_of_stands hgrows hroomy hgrown hplace hspacer (hstands _ hplace)

/-- In exact arithmetic the spacers of a source that does not declare the root leave the composites
around them at most at the top, and do so exactly if the cells have been stretched by more than the
rows leave room for. -/
theorem spacers_of_parse {limit : Nat} {source : String} {ss : List (Source.Located Statement)}
    (hss : statements source = .ok ss) (hd : Document.parse limit source = .ok d)
    (hroot : BlockId.root ∉ namesIn ss) :
    (∀ (padding : ℚ) (labels : Sizes ℚ) (layout : Layout ℚ), 0 ≤ padding →
      arrange d padding labels = .ok layout →
      ∀ id, id ≠ BlockId.root → ∀ spacer ∈ d.children id, d.IsSpacer spacer →
        Seats d padding labels layout id spacer) ∧
    (∀ (settings : Settings ℚ) (measure : String → Size ℚ) (layout : Layout ℚ),
      compute settings measure d = .ok layout →
      ∀ id, id ≠ BlockId.root → ∀ spacer ∈ d.children id, d.IsSpacer spacer →
        Seats d settings.padding (labelSizes settings measure d) layout id spacer) := by
  obtain ⟨mentions, h⟩ := Document.describes_of_parse hss hd hroot
  constructor
  · intro padding labels layout hpadding harrange
    exact seats_of_arrange h.sound h.listed hpadding harrange
  · intro settings measure layout hcompute
    obtain ⟨hvalid, harrange⟩ := arrange_of_compute hcompute
    exact seats_of_arrange h.sound h.listed (nonneg_of_isValidPadding hvalid) harrange

/-- The composite of a crowded row and the spacer in it. -/
theorem crowded_spacer {d : Document}
    (h : ∀ b ∈ crowdedBlocks, b ∈ d.walk ∧ d.block? b.id = some b) :
    "g-0" ∈ d.children "g" ∧ d.IsSpacer "g-0" := by
  obtain ⟨-, hcomposite⟩ := h crowdedComposite (by decide)
  obtain ⟨-, hspacer⟩ := h crowdedSpacer (by decide)
  rw [show "g" = crowdedComposite.id from rfl, Document.children_of_block? hcomposite]
  exact ⟨List.mem_singleton_self _, _, hspacer, rfl⟩

/-- The spacer in a crowded row does not leave its composite at the bottom. -/
theorem exists_maxY_crowded : ∃ (ss : List (Source.Located Statement)) (d : Document)
    (layout : Layout ℚ), statements crowded = .ok ss ∧ Document.parse 9 crowded = .ok d ∧
      BlockId.root ∉ namesIn ss ∧ compute ⟨2, 0, []⟩ crowdedMeasure d = .ok layout ∧
      (layout.box "g-0").maxY + 2 ≤ (layout.box "g").maxY := by
  obtain ⟨ss, d, layout, hss, hd, hroot, hlayout, hblocks, -⟩ := exists_crowded
  obtain ⟨hchild, hspacer⟩ := crowded_spacer hblocks
  have hseats := (spacers_of_parse hss hd hroot).2 ⟨2, 0, []⟩ crowdedMeasure layout hlayout "g"
    (by decide) "g-0" hchild hspacer
  exact ⟨ss, d, layout, hss, hd, hroot, hlayout, hseats.maxY⟩

/-- The spacer in a crowded row leaves its composite at the top. -/
theorem exists_spacer_above : ∃ (ss : List (Source.Located Statement)) (d : Document)
    (layout : Layout ℚ), statements crowded = .ok ss ∧ Document.parse 9 crowded = .ok d ∧
      BlockId.root ∉ namesIn ss ∧ compute ⟨2, 0, []⟩ crowdedMeasure d = .ok layout ∧
      "g" ≠ BlockId.root ∧ "g-0" ∈ d.children "g" ∧ d.IsSpacer "g-0" ∧
      (layout.box "g-0").minY < (layout.box "g").minY ∧
      ¬ (layout.box "g-0").LiesIn (layout.box "g") 0 := by
  obtain ⟨ss, d, layout, hss, hd, hroot, hlayout, hblocks, hsizes, hcenters⟩ := exists_crowded
  obtain ⟨hchild, hspacer⟩ := crowded_spacer hblocks
  simp only [List.map_cons, List.cons.injEq] at hsizes hcenters
  obtain ⟨-, -, -, hsize, hsize', -⟩ := hsizes
  obtain ⟨-, -, hcenter, hcenter', -⟩ := hcenters
  have habove : (layout.box "g-0").minY < (layout.box "g").minY := by
    rw [box, box, boxOf_eq hcenter, boxOf_eq hcenter', sizeOf, sizeOf, hsize, hsize']
    norm_num
  refine ⟨ss, d, layout, hss, hd, hroot, hlayout, by decide, hchild, hspacer, habove, fun h ↦ ?_⟩
  linarith [h.minY]

end Layout

end BlockDiagram
