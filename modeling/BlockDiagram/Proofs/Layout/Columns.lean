import BlockDiagram.Proofs.Layout.Packing
import BlockDiagram.Proofs.Layout.Separation

/-!
# Columns

Blocks are placed one behind the other, without a look at the columns of their cells. In exact
arithmetic they stand at these columns all the same, since packed rows have no gaps and every child is
just as wide as the cells it takes (`minX_of_packs`, `aligned_of_parse`).
-/

namespace BlockDiagram.Layout

open Scalar

variable {d : Document} {padding left top height width : ℚ} {sizes labels : Sizes ℚ}
  {centers : Centers ℚ}

/-- In packed rows a child stands where its column starts. -/
theorem minX_of_packs {active row used : Nat} {cells : List (BlockId × Cell)}
    (h : Packs (spanOf d) active row used cells)
    (hwidths : ∀ e ∈ cells, (sizeOf sizes e.1).width = spanWidth padding width (spanOf d e.1))
    (hplaces : ∀ place ∈ placesFrom padding left top height sizes
        ⟨left + used * (width + padding), row⟩ cells, centers.get? place.1 = some place.2) :
    ∀ e ∈ cells,
      (boxOf sizes centers e.1).minX = left + e.2.column * (width + padding) + padding := by
  induction h with
  | done => exact List.forall_mem_nil _
  | @same row used child rest hspan h ih =>
    obtain ⟨hwidth, hwidths⟩ := List.forall_mem_cons.1 hwidths
    rw [placesFrom, two_rat] at hplaces
    obtain ⟨hcenter, hplaces⟩ := List.forall_mem_cons.1 hplaces
    obtain ⟨hminX, -, hnext⟩ := columns_of_center hcenter (if_pos rfl) hwidth
    rw [hnext] at hplaces
    exact List.forall_mem_cons.2 ⟨hminX, ih hwidths hplaces⟩
  | @next row used child rest hfull hspan h ih =>
    obtain ⟨hwidth, hwidths⟩ := List.forall_mem_cons.1 hwidths
    rw [placesFrom, two_rat] at hplaces
    obtain ⟨hcenter, hplaces⟩ := List.forall_mem_cons.1 hplaces
    have hstart : (if row + 1 = row then left + used * (width + padding) else left) =
        left + (0 : Nat) * (width + padding) := by
      rw [if_neg (Nat.succ_ne_self row), Nat.cast_zero, zero_mul, add_zero]
    obtain ⟨hminX, -, hnext⟩ := columns_of_center hcenter hstart hwidth
    rw [hnext, Nat.zero_add] at hplaces
    exact List.forall_mem_cons.2 ⟨hminX, ih hwidths hplaces⟩

/-- The children of a composite are packed if its grid is not too wide. -/
theorem packs_of_gridOf (hd : d.Sound) {id : BlockId} {grid : Grid} (hne : d.children id ≠ [])
    (hcolumns : grid.columns ≤ maxGridColumns) (h : gridOf d id = .ok grid) :
    Packs (spanOf d) grid.columns 0 0 ((d.children id).zip grid.cells) :=
  packs_of_ofSpans hne (fun child _ ↦ (spanOf_bounds hd child).1) hcolumns h

/-- The children of a sized composite stand at their columns once they are placed. -/
theorem minX_of_placed {id : BlockId} {grid : Grid} {cell : Size ℚ} (hd : d.Sound)
    (hne : d.children id ≠ []) (hcolumns : grid.columns ≤ maxGridColumns)
    (hsized : Sized d padding sizes id grid cell)
    (hplaces : ∀ place ∈ placesFrom padding left top height sizes ⟨left, 0⟩
      ((d.children id).zip grid.cells), centers.get? place.1 = some place.2) :
    ∀ e ∈ (d.children id).zip grid.cells,
      (boxOf sizes centers e.1).minX = left + e.2.column * (cell.width + padding) + padding := by
  have hstart : left = left + (0 : Nat) * (cell.width + padding) := by
    rw [Nat.cast_zero, zero_mul, add_zero]
  exact minX_of_packs (packs_of_gridOf hd hne hcolumns hsized.gridOf_eq)
    (fun e he ↦ hsized.child_width e.1 (List.of_mem_zip he).1) (by rwa [← hstart])

/-- Holds for a composite of a layout whose children stand at the columns of its grid, where cells
have the given size. -/
structure Aligned (layout : Layout ℚ) (d : Document) (padding : ℚ) (id : BlockId) (grid : Grid)
    (cell : Size ℚ) : Prop where
  placed : ∀ child ∈ d.children id, ∃ center size,
    layout.centers.get? child = some center ∧ layout.sizes.get? child = some size
  minX : ∀ e ∈ (d.children id).zip grid.cells, (layout.box e.1).minX =
    layout.rowStart padding id + padding + e.2.column * (cell.width + padding)
  /-- Children in the same column line up. -/
  lines_up : ∀ a ∈ (d.children id).zip grid.cells, ∀ b ∈ (d.children id).zip grid.cells,
    a.2.column = b.2.column → (layout.box a.1).minX = (layout.box b.1).minX

/-- The children of all composites of a layout stand at their columns, unless a grid is too wide. -/
theorem aligned_of_arrange {listing : List Mention} {layout : Layout ℚ} (hd : d.Sound)
    (hlisted : d.ListedBy listing) (hpadding : 0 ≤ padding)
    (harrange : arrange d padding labels = .ok layout) {id : BlockId} (hne : d.children id ≠ []) :
    ∃ grid cell, Sized d padding layout.sizes id grid cell ∧
      (grid.columns ≤ maxGridColumns → Aligned layout d padding id grid cell) := by
  obtain ⟨grid, cell, hsized, grid', hgrid', hplaces⟩ :=
    placed_of_arrange hd hlisted hpadding harrange hne
  obtain rfl : grid' = grid := Except.ok.inj (hgrid'.symm.trans hsized.gridOf_eq)
  refine ⟨grid', cell, hsized, fun hcolumns ↦ ?_⟩
  have hminX : ∀ e ∈ (d.children id).zip grid'.cells, (layout.box e.1).minX =
      layout.rowStart padding id + padding + e.2.column * (cell.width + padding) := by
    intro e he
    rw [box, minX_of_placed hd hne hcolumns hsized hplaces e he, add_right_comm]
  refine ⟨fun child hchild ↦ ?_, hminX, fun a ha b hb heq ↦ ?_⟩
  · exact exists_place_of_arrange hlisted harrange child
      (List.mem_cons_of_mem _ (hlisted.mem_idsOf_of_mem_children hchild))
  · rw [hminX a ha, hminX b hb, heq]

/-- In exact arithmetic the children of every composite stand at the columns of its grid, in every
layout of a source that does not declare the root, unless the grid is too wide. There is such a layout
if no column count is zero, for all but gigantic documents. -/
theorem aligned_of_parse {limit : Nat} {source : String} {ss : List (Source.Located Statement)}
    (hss : statements source = .ok ss) (hd : Document.parse limit source = .ok d)
    (hroot : BlockId.root ∉ namesIn ss) :
    (∀ (padding : ℚ) (labels : Sizes ℚ) (layout : Layout ℚ), 0 ≤ padding →
      arrange d padding labels = .ok layout → ∀ id, d.children id ≠ [] →
        ∃ grid cell, Sized d padding layout.sizes id grid cell ∧
          (grid.columns ≤ maxGridColumns → Aligned layout d padding id grid cell)) ∧
    (∀ (settings : Settings ℚ) (measure : String → Size ℚ) (layout : Layout ℚ),
      compute settings measure d = .ok layout → ∀ id, d.children id ≠ [] →
        ∃ grid cell, Sized d settings.padding layout.sizes id grid cell ∧
          (grid.columns ≤ maxGridColumns → Aligned layout d settings.padding id grid cell)) ∧
    ((∀ id b, d.block? id = some b → b.columns ≠ 0) → d.size ≤ 2 ^ 29 →
      ∀ (padding : ℚ) (labels : Sizes ℚ), ∃ layout, arrange d padding labels = .ok layout) := by
  obtain ⟨mentions, h⟩ := Document.describes_of_parse hss hd hroot
  refine ⟨fun padding labels layout hpadding harrange id hne ↦ ?_,
    fun settings measure layout hcompute id hne ↦ ?_, fun hcolumns hsize padding labels ↦ ?_⟩
  · exact aligned_of_arrange h.sound h.listed hpadding harrange hne
  · obtain ⟨hvalid, harrange⟩ := arrange_of_compute hcompute
    exact aligned_of_arrange h.sound h.listed (nonneg_of_isValidPadding hvalid) harrange hne
  · exact exists_arrange h.sound h.listed hcolumns hsize padding labels

open Grammar (Production nodeRules)

/-- A source with a row that its last block does not fit into. -/
def twoRows : String :=
  "block-beta columns 3 a b c:2 d"

/-- The rules that derive it. -/
def twoRowsRules : List Production :=
  [.start, .documentMore, .columns] ++ nodeRules ++ nodeRules ++
    [.documentMore, .nodes, .chainStart, .sizedNode, .bareNode] ++ nodeRules ++ [.documentEnd]

private theorem exists_twoRows : ∃ ss d, statements twoRows = .ok ss ∧
    Document.parse 9 twoRows = .ok d ∧ BlockId.root ∉ namesIn ss ∧
      d.children BlockId.root = ["a", "b", "c", "d"] ∧ d.size = 5 ∧
      gridOf d BlockId.root = .ok ⟨3, 2, [⟨0, 0⟩, ⟨1, 0⟩, ⟨0, 1⟩, ⟨2, 1⟩]⟩ ∧
      (∀ id b, d.block? id = some b → b.columns ≠ 0) := by
  have hdecide : ((statementsAlong twoRowsRules twoRows).bind fun ss ↦
      (Builder.build 9 ss).toOption.map fun d ↦
        decide (BlockId.root ∉ namesIn ss) &&
          decide (d.children BlockId.root = ["a", "b", "c", "d"]) && decide (d.size = 5) &&
          decide (gridOf d BlockId.root = .ok ⟨3, 2, [⟨0, 0⟩, ⟨1, 0⟩, ⟨0, 1⟩, ⟨2, 1⟩]⟩) &&
          d.blocks.keys.toList.all fun id ↦ (d.block? id).all fun b ↦ b.columns ≠ 0) =
        some true := by
    decide +kernel
  obtain ⟨ss, d, hss, -, hd, hresult⟩ := parse_of_along hdecide
  simp only [Bool.and_eq_true, decide_eq_true_eq] at hresult
  obtain ⟨⟨⟨⟨hroot, hchildren⟩, hsize⟩, hgrid⟩, hcolumns⟩ := hresult
  exact ⟨ss, d, hss, hd, hroot, hchildren, hsize, hgrid, fun id b hb ↦
    of_decide_eq_true (Document.forall_of_all_keys hcolumns hb)⟩

/-- Its third block stands below the first one, and its last one two columns behind them. -/
theorem exists_aligned_twoRows : ∃ (ss : List (Source.Located Statement)) (d : Document)
    (layout : Layout ℚ) (grid : Grid) (cell : Size ℚ), statements twoRows = .ok ss ∧
      Document.parse 9 twoRows = .ok d ∧ BlockId.root ∉ namesIn ss ∧
      arrange d 8 .empty = .ok layout ∧ Sized d 8 layout.sizes BlockId.root grid cell ∧
      (layout.box "c").minX = (layout.box "a").minX ∧
      (layout.box "d").minX = layout.rowStart 8 BlockId.root + 8 + (2 : Nat) * (cell.width + 8) := by
  obtain ⟨ss, d, hss, hd, hroot, hchildren, hsize, hgrid, hcolumns⟩ := exists_twoRows
  obtain ⟨haligned, -, hexists⟩ := aligned_of_parse hss hd hroot
  obtain ⟨layout, hlayout⟩ := hexists hcolumns (by rw [hsize]; decide) 8 .empty
  obtain ⟨grid, cell, hsized, haligned⟩ := haligned 8 .empty layout (by norm_num) hlayout
    BlockId.root (by rw [hchildren]; exact List.cons_ne_nil _ _)
  cases hsized.gridOf_eq.symm.trans hgrid
  obtain ⟨-, hminX, hlines⟩ := haligned (by decide)
  rw [hchildren] at hminX hlines
  refine ⟨ss, d, layout, _, cell, hss, hd, hroot, hlayout, hsized, ?_, ?_⟩
  · exact hlines ("c", ⟨0, 1⟩) (by decide) ("a", ⟨0, 0⟩) (by decide) rfl
  · exact hminX ("d", ⟨2, 1⟩) (by decide)

end BlockDiagram.Layout
