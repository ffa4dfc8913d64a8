import BlockDiagram.Grammar.Meaning
import BlockDiagram.Layout.Grid
import BlockDiagram.Proofs.Except
import Mathlib.Algebra.Order.BigOperators.Group.List
import Mathlib.Algebra.Order.Ring.Int
import Mathlib.Algebra.Order.Ring.Nat
import Mathlib.Data.List.Pairwise
import Mathlib.Order.MinMax

/-!
# Rows of a grid

A grid has the cells that its blocks get in rows of its length (`cells_of_ofSpans`). They fill its rows
from the left, and the rows come in order (`Fits`). No position is so large that it is taken for a
negative one and then for a small one again, since no block and no row has more columns than can be
written.
-/

namespace BlockDiagram.Layout

/-- The largest of several numbers is bounded exactly if all of them are. -/
theorem foldl_max_le_iff {α : Type} [LinearOrder α] {xs : List α} {a b : α} :
    xs.foldl max a ≤ b ↔ a ≤ b ∧ ∀ x ∈ xs, x ≤ b := by
  induction xs generalizing a with
  | nil => simp
  | cons x xs ih => rw [List.foldl_cons, ih, max_le_iff, List.forall_mem_cons, and_assoc]

variable {β : Type} {span : β → Nat}

/-- Holds for blocks with their cells when `used` columns of a row are taken in front of them. Each
block stands in the same row if its span is left there, and starts a later one otherwise. -/
inductive Fits (span : β → Nat) (active : Nat) : Nat → Nat → List (β × Cell) → Prop where
  | done {row used : Nat} : Fits span active row used []
  | same {row used : Nat} {b : β} {cell : Cell} {rest : List (β × Cell)} (hrow : cell.row = row)
      (hspan : used + span b ≤ active) (h : Fits span active row (used + span b) rest) :
      Fits span active row used ((b, cell) :: rest)
  | next {row used : Nat} {b : β} {cell : Cell} {rest : List (β × Cell)} (hrow : row < cell.row)
      (hspan : span b ≤ active) (h : Fits span active cell.row (span b) rest) :
      Fits span active row used ((b, cell) :: rest)

namespace Fits

variable {active row used : Nat} {blocks : List (β × Cell)}

/-- No block stands above the row in which the first of them fits. -/
theorem row_le (h : Fits span active row used blocks) : ∀ b ∈ blocks, row ≤ b.2.row := by
  induction h with
  | done => exact List.forall_mem_nil _
  | same hrow hspan h ih => exact List.forall_mem_cons.2 ⟨Nat.le_of_eq hrow.symm, ih⟩
  | next hrow hspan h ih =>
    have hle := Nat.le_of_lt hrow
    exact List.forall_mem_cons.2 ⟨hle, fun b hb ↦ Nat.le_trans hle (ih b hb)⟩

/-- No block stands above one in front of it. -/
theorem pairwise_row_le (h : Fits span active row used blocks) :
    blocks.Pairwise fun a b ↦ a.2.row ≤ b.2.row := by
  induction h with
  | done => exact List.Pairwise.nil
  | same hrow hspan h ih => exact ih.cons fun b hb ↦ hrow ▸ h.row_le b hb
  | next hrow hspan h ih => exact ih.cons h.row_le

end Fits

/-! ### Cells -/

/-- A position in the lower half of the range is what it is. -/
theorem inWord_of_lt {position : Nat} (h : position < 2 ^ 63) : inWord position = position := by
  unfold inWord
  rw [Int.bmod_def]
  split <;> omega

/-- A position in the upper half of the range is negative. -/
theorem inWord_neg {position : Nat} (h : 2 ^ 63 ≤ position) (hlt : position < 2 ^ 64) :
    inWord position < 0 := by
  unfold inWord
  rw [Int.bmod_def]
  split <;> omega

/-- A position in the lower half of the range has a cell. -/
theorem cellAt_of_lt {columns position : Nat} (hcolumns : 0 < columns) (h : position < 2 ^ 63) :
    cellAt columns (inWord position) = .ok ⟨position % columns, position / columns⟩ := by
  rw [inWord_of_lt h, cellAt, if_neg (by omega), if_neg (by omega), if_neg (by omega)]
  rfl

/-- A position in the upper half of the range has none. -/
theorem cellAt_of_le {columns position : Nat} (hcolumns : 0 < columns) (h : 2 ^ 63 ≤ position)
    (hlt : position < 2 ^ 64) :
    cellAt columns (inWord position) = .error (.negativePosition (inWord position)) := by
  rw [cellAt, if_neg (by omega), if_pos (inWord_neg h hlt)]
  rfl

/-- With a negative column count there is one row. -/
theorem row_cellAt {columns position : Int} {cell : Cell} (hcolumns : columns < 0)
    (h : cellAt columns position = .ok cell) : cell.row = 0 := by
  rw [cellAt, if_neg (Int.ne_of_lt hcolumns)] at h
  split at h
  · cases h
  · cases h
    rfl

private theorem eq_of_cellAt {columns position : Nat} {cell : Cell} (hcolumns : 0 < columns)
    (hposition : position < 2 ^ 64) (h : cellAt columns (inWord position) = .ok cell) :
    position < 2 ^ 63 ∧ cell = ⟨position % columns, position / columns⟩ := by
  by_cases hlt : position < 2 ^ 63
  · rw [cellAt_of_lt hcolumns hlt] at h
    cases h
    exact ⟨hlt, rfl⟩
  · rw [cellAt_of_le hcolumns (Nat.not_lt.1 hlt) hposition] at h
    cases h

private theorem length_cellsFrom {columns : Int} {active position : Nat} {spans : List Nat}
    {cells : List Cell} (h : Grid.cellsFrom columns active position spans = .ok cells) :
    cells.length = spans.length := by
  induction spans generalizing position cells with
  | nil =>
    cases h
    rfl
  | cons span spans ih =>
    rw [Grid.cellsFrom, bind_eq_ok_iff] at h
    obtain ⟨cell, -, h⟩ := h
    split at h
    · obtain ⟨cell', -, h⟩ := bind_eq_ok_iff.1 h
      obtain ⟨rest, hrest, h⟩ := bind_eq_ok_iff.1 h
      cases h
      rw [List.length_cons, List.length_cons, ih hrest]
    · obtain ⟨rest, hrest, h⟩ := bind_eq_ok_iff.1 h
      cases h
      rw [List.length_cons, List.length_cons, ih hrest]

/-- A grid has a cell for every block. -/
theorem length_ofSpans {columns : Int} {spans : List Nat} {grid : Grid}
    (h : Grid.ofSpans columns spans = .ok grid) : grid.cells.length = spans.length := by
  rw [Grid.ofSpans] at h
  split at h
  · cases h
  · obtain ⟨cells, hcells, h⟩ := bind_eq_ok_iff.1 h
    cases h
    exact length_cellsFrom hcells

/-- Blocks that all fit into one row. -/
theorem fits_of_neg {columns : Int} {active position used : Nat} {blocks : List β}
    {cells : List Cell} (hcolumns : columns < 0)
    (hused : used + (blocks.map span).sum ≤ active)
    (h : Grid.cellsFrom columns active position (blocks.map span) = .ok cells) :
    Fits span active 0 used (blocks.zip cells) := by
  induction blocks generalizing position used cells with
  | nil => exact .done
  | cons b blocks ih =>
    rw [List.map_cons, List.sum_cons] at hused
    rw [List.map_cons, Grid.cellsFrom, bind_eq_ok_iff] at h
    obtain ⟨cell, hcell, h⟩ := h
    have hrows : ¬ 0 < columns := Int.not_lt.2 (Int.le_of_lt hcolumns)
    rw [if_neg (by simp [hrows])] at h
    obtain ⟨rest, hrest, h⟩ := bind_eq_ok_iff.1 h
    cases h
    have hrest := @ih _ (used + span b) _ (by omega) hrest
    exact .same (row_cellAt hcolumns hcell) (by omega) hrest

/-- Blocks in several rows. In front of each one the columns used are among the positions passed since
the start of the row. -/
theorem fits_of_pos {columns active position row used : Nat} {blocks : List β} {cells : List Cell}
    (hcolumns : 0 < columns) (hactive : columns ≤ active) (hbound : active ≤ 2 ^ 32)
    (hspans : ∀ b ∈ blocks, span b ≤ active) (hposition : position < 2 ^ 64)
    (hused : row * columns + used ≤ position)
    (h : Grid.cellsFrom columns active position (blocks.map span) = .ok cells) :
    Fits span active row used (blocks.zip cells) := by
  induction blocks generalizing position row used cells with
  | nil => exact .done
  | cons b blocks ih =>
    obtain ⟨hspan, hspans⟩ := List.forall_mem_cons.1 hspans
    rw [List.map_cons, Grid.cellsFrom, bind_eq_ok_iff] at h
    obtain ⟨cell, hcell, h⟩ := h
    obtain ⟨hlt, rfl⟩ := eq_of_cellAt hcolumns hposition hcell
    have hrow : row ≤ position / columns := (Nat.le_div_iff_mul_le hcolumns).2 (by omega)
    have hparts := Nat.div_add_mod' position columns
    have hmod := Nat.mod_lt position hcolumns
    split at h
    · next hmoved =>
      -- the block does not fit into the rest of its row
      obtain ⟨cell', hcell', h⟩ := bind_eq_ok_iff.1 h
      obtain ⟨hlt', rfl⟩ := eq_of_cellAt hcolumns (by omega) hcell'
      obtain ⟨rest, hrest, h⟩ := bind_eq_ok_iff.1 h
      cases h
      have hnext : position / columns + 1 ≤ (position + (active - position % columns)) / columns := by
        rw [Nat.le_div_iff_mul_le hcolumns, Nat.add_mul]
        omega
      have hstart := Nat.div_mul_le_self (position + (active - position % columns)) columns
      have hfits := ih hspans (by omega) (Nat.add_le_add_right hstart (span b)) hrest
      exact .next (Nat.lt_of_le_of_lt hrow hnext) hspan hfits
    · next hstays =>
      obtain ⟨rest, hrest, h⟩ := bind_eq_ok_iff.1 h
      cases h
      simp only [Bool.and_eq_true, decide_eq_true_eq, not_and, and_imp] at hstays
      have hstays := hstays (Int.natCast_pos.2 hcolumns)
      rcases Nat.eq_or_lt_of_le hrow with heq | hlater
      · have hfit : used + span b ≤ active := by
          subst heq
          omega
        exact .same heq.symm hfit (ih hspans (by omega) (by omega) hrest)
      · have hfits := ih hspans (by omega) (Nat.add_le_add_right
          (Nat.div_mul_le_self position columns) (span b)) hrest
        exact .next hlater hspan hfits

/-! ### Column counts -/

/-- The grid with the given cells. -/
def Grid.ofCells (columns : Nat) (cells : List Cell) : Grid where
  columns := columns
  rows := cells.getLast?.elim 0 (·.row + 1)
  cells := cells

/-- Holds for the column counts that apply: a grid with another one has a single row. -/
def Wraps (columns : Int) (spans : List Nat) : Prop :=
  0 ≤ columns ∧ columns < spans.sum

/-- Whether a column count applies can be checked. -/
instance (columns : Int) (spans : List Nat) : Decidable (Wraps columns spans) :=
  inferInstanceAs (Decidable (_ ∧ _))

/-- The number of columns of a grid: the column count, if it applies, but no less than the widest block
needs. -/
def activeColumns (columns : Int) (spans : List Nat) : Nat :=
  if Wraps columns spans then max columns.toNat (spans.foldl max 0) else spans.sum

section

variable {columns : Int} {spans : List Nat}

/-- With a column count that applies, blocks take their cells in rows of so many columns. -/
theorem ofSpans_of_wraps (hzero : columns ≠ 0) (h : Wraps columns spans) :
    Grid.ofSpans columns spans =
      (Grid.cellsFrom (min (activeColumns columns spans) maxGridColumns : Nat)
        (activeColumns columns spans) 0 spans).map (Grid.ofCells (activeColumns columns spans)) := by
  have hempty : spans.isEmpty = false := by
    refine List.isEmpty_eq_false_iff.2 ?_
    rintro rfl
    simp only [Wraps, List.sum_nil] at h
    omega
  have hwraps : (decide (0 ≤ columns) && decide (columns.toNat < spans.foldr (· + ·) 0)) = true := by
    rw [← List.sum_eq_foldr]
    simp only [Wraps] at h
    simp only [Bool.and_eq_true, decide_eq_true_eq]
    omega
  have hmin : ∀ n : Nat, ((min n maxGridColumns : Nat) : Int) = min (n : Int) maxGridColumns := by
    omega
  rw [Grid.ofSpans, if_neg hzero, activeColumns, if_pos h, hmin]
  simp only [hwraps, hempty, Bool.false_eq_true, if_true, if_false]
  cases Grid.cellsFrom _ _ 0 spans <;> rfl

/-- With another column count all blocks stand in a single row. -/
theorem ofSpans_of_not_wraps (hzero : columns ≠ 0) (h : ¬ Wraps columns spans) :
    Grid.ofSpans columns spans =
      (Grid.cellsFrom (-1) spans.sum 0 spans).map (Grid.ofCells spans.sum) := by
  have hwraps : (decide (0 ≤ columns) && decide (columns.toNat < spans.foldr (· + ·) 0)) = false := by
    rw [← List.sum_eq_foldr]
    simp only [Wraps] at h
    simp only [Bool.and_eq_false_iff, decide_eq_false_iff_not]
    omega
  rw [Grid.ofSpans, if_neg hzero]
  simp only [hwraps, Bool.false_eq_true, if_false]
  rw [← List.sum_eq_foldr]
  cases Grid.cellsFrom _ _ 0 spans <;> rfl

/-- No block is wider than its grid. -/
theorem span_le_activeColumns (columns : Int) (spans : List Nat) :
    ∀ span ∈ spans, span ≤ activeColumns columns spans := by
  intro span hspan
  unfold activeColumns
  split
  · exact ((foldl_max_le_iff.1 (Nat.le_max_right columns.toNat _)).2 span hspan)
  · exact List.single_le_sum (fun _ _ ↦ Nat.zero_le _) span hspan

/-- A grid has no more columns than are asked for, or than its widest block has. -/
theorem activeColumns_le {n : Nat} (hwraps : Wraps columns spans) (hcolumns : columns ≤ n)
    (hspans : ∀ span ∈ spans, span ≤ n) : activeColumns columns spans ≤ n := by
  rw [activeColumns, if_pos hwraps]
  exact Nat.max_le.2 ⟨by omega, foldl_max_le_iff.2 ⟨Nat.zero_le _, hspans⟩⟩

/-- The cells of a grid are those that its blocks get in rows of its length. -/
theorem cells_of_ofSpans {grid : Grid} (h : Grid.ofSpans columns spans = .ok grid) :
    columns ≠ 0 ∧ grid = Grid.ofCells (activeColumns columns spans) grid.cells ∧
      Grid.cellsFrom
        (if Wraps columns spans then (min (activeColumns columns spans) maxGridColumns : Nat) else -1)
        (activeColumns columns spans) 0 spans = .ok grid.cells := by
  have hzero : columns ≠ 0 := by
    rintro rfl
    cases h
  refine ⟨hzero, ?_⟩
  by_cases hwraps : Wraps columns spans
  · rw [ofSpans_of_wraps hzero hwraps] at h
    rw [if_pos hwraps]
    cases hcells : Grid.cellsFrom _ _ 0 spans <;> rw [hcells] at h <;> cases h
    exact ⟨rfl, rfl⟩
  · rw [ofSpans_of_not_wraps hzero hwraps] at h
    rw [if_neg hwraps, activeColumns, if_neg hwraps]
    cases hcells : Grid.cellsFrom _ _ 0 spans <;> rw [hcells] at h <;> cases h
    exact ⟨rfl, rfl⟩

end

/-! ### Grids that blocks fill -/

/-- Holds for a grid whose cells take up the given blocks. -/
structure Grid.Fills (grid : Grid) (span : β → Nat) (blocks : List β) : Prop where
  length : grid.cells.length = blocks.length
  fits : Fits span grid.columns 0 0 (blocks.zip grid.cells)
  row_lt : ∀ cell ∈ grid.cells, cell.row < grid.rows
  columns_pos : 0 < grid.columns

/-- A grid with blocks in it has rows. -/
theorem Grid.Fills.rows_pos {grid : Grid} {blocks : List β} (h : grid.Fills span blocks)
    (hne : blocks ≠ []) : 0 < grid.rows := by
  have hcells : grid.cells ≠ [] := by
    rw [← List.length_pos_iff, h.length]
    exact List.length_pos_iff.2 hne
  obtain ⟨cell, hcell⟩ := List.exists_mem_of_ne_nil grid.cells hcells
  exact Nat.lt_of_le_of_lt (Nat.zero_le _) (h.row_lt cell hcell)

private theorem row_lt_of_pairwise {cells : List Cell}
    (h : cells.Pairwise fun a b ↦ a.row ≤ b.row) :
    ∀ cell ∈ cells, cell.row < cells.getLast?.elim 0 (·.row + 1) := by
  intro cell hcell
  have hrefl : Std.Refl fun a b : Cell ↦ a.row ≤ b.row := ⟨fun a ↦ Nat.le_refl a.row⟩
  have hlast := h.rel_getLast hcell
  rw [List.getLast?_eq_some_getLast (List.ne_nil_of_mem hcell)]
  exact Nat.lt_succ_of_le hlast

/-- A grid takes up the blocks it is made for. -/
theorem fills_of_ofSpans {columns : Int} {blocks : List β} {grid : Grid} (hne : blocks ≠ [])
    (hspans : ∀ b ∈ blocks, 1 ≤ span b ∧ span b ≤ Grammar.maxWidth)
    (hcolumns : columns ≤ Grammar.maxColumns)
    (h : Grid.ofSpans columns (blocks.map span) = .ok grid) : grid.Fills span blocks := by
  obtain ⟨-, hgrid, hcells⟩ := cells_of_ofSpans h
  have hactive : grid.columns = activeColumns columns (blocks.map span) :=
    congrArg Grid.columns hgrid
  have hrows : grid.rows = grid.cells.getLast?.elim 0 (·.row + 1) := congrArg Grid.rows hgrid
  rw [← hactive] at hcells
  have hlength : grid.cells.length = blocks.length := by
    rw [length_ofSpans h, List.length_map]
  have hwide : ∀ b ∈ blocks, span b ≤ grid.columns := by
    intro b hb
    rw [hactive]
    exact span_le_activeColumns _ _ _ (List.mem_map_of_mem hb)
  obtain ⟨b, hb⟩ := List.exists_mem_of_ne_nil blocks hne
  have hpos : 0 < grid.columns := Nat.lt_of_lt_of_le (hspans b hb).1 (hwide b hb)
  have hfits : Fits span grid.columns 0 0 (blocks.zip grid.cells) := by
    by_cases hwraps : Wraps columns (blocks.map span)
    · rw [if_pos hwraps] at hcells
      have hbound : grid.columns ≤ Grammar.maxWidth := by
        rw [hactive]
        exact activeColumns_le hwraps (hcolumns.trans (by decide))
          (List.forall_mem_map.2 fun b hb ↦ (hspans b hb).2)
      have hmax : Grammar.maxWidth ≤ 2 ^ 32 ∧ 0 < maxGridColumns := by decide
      exact fits_of_pos (by omega) (Nat.min_le_left _ _) (by omega) hwide (by omega) (by omega)
        hcells
    · rw [if_neg hwraps] at hcells
      rw [activeColumns, if_neg hwraps] at hactive
      exact fits_of_neg (by decide) (by omega) hcells
  have hordered : grid.cells.Pairwise fun a b ↦ a.row ≤ b.row := by
    have hsnd : (blocks.zip grid.cells).map Prod.snd = grid.cells :=
      List.map_snd_zip (Nat.le_of_eq hlength)
    rw [← hsnd]
    exact List.pairwise_map.2 hfits.pairwise_row_le
  exact ⟨hlength, hfits, hrows ▸ row_lt_of_pairwise hordered, hpos⟩

/-! ### Success -/

private theorem exists_cellAt {columns : Int} {position : Nat} (hcolumns : columns ≠ 0)
    (hposition : position < 2 ^ 63) : ∃ cell, cellAt columns (inWord position) = .ok cell := by
  rw [inWord_of_lt hposition, cellAt, if_neg hcolumns, if_neg (Int.not_lt.2 (Int.natCast_nonneg _))]
  split
  · exact ⟨_, rfl⟩
  · exact ⟨_, rfl⟩

/-- Every step goes on by less than two rows. -/
theorem exists_cellsFrom {columns : Int} {active position : Nat} {spans : List Nat}
    (hcolumns : columns ≠ 0) (hactive : 0 < columns → active ≤ 2 ^ 32)
    (hspans : ∀ span ∈ spans, span ≤ 2 ^ 32)
    (hposition : position + spans.length * 2 ^ 33 < 2 ^ 63) :
    ∃ cells, Grid.cellsFrom columns active position spans = .ok cells := by
  induction spans generalizing position with
  | nil => exact ⟨[], rfl⟩
  | cons span spans ih =>
    obtain ⟨hspan, hspans⟩ := List.forall_mem_cons.1 hspans
    rw [List.length_cons] at hposition
    obtain ⟨cell, hcell⟩ := @exists_cellAt columns position hcolumns (by omega)
    rw [Grid.cellsFrom, hcell]
    by_cases hmoved : (0 < columns && 0 < cell.column && active < cell.column + span) = true
    · simp only [Bool.and_eq_true, decide_eq_true_eq] at hmoved
      have hactive := hactive hmoved.1.1
      obtain ⟨cell', hcell'⟩ :=
        @exists_cellAt columns (position + (active - cell.column)) hcolumns (by omega)
      obtain ⟨cells, hcells⟩ := @ih (position + (active - cell.column) + span) hspans (by omega)
      refine ⟨cell' :: cells, ?_⟩
      simp [bind, Except.bind, hmoved, hcell', hcells, pure, Except.pure]
    · obtain ⟨cells, hcells⟩ := @ih (position + span) hspans (by omega)
      refine ⟨cell :: cells, ?_⟩
      simp only [bind, Except.bind, if_neg hmoved, hcells]
      rfl

/-- There is a grid for blocks unless the column count is zero, or there are very many of them. -/
theorem exists_ofSpans {columns : Int} {spans : List Nat} (hzero : columns ≠ 0)
    (hcolumns : columns ≤ Grammar.maxColumns) (hspans : ∀ span ∈ spans, span ≤ Grammar.maxWidth)
    (hlength : spans.length ≤ 2 ^ 29) : ∃ grid, Grid.ofSpans columns spans = .ok grid := by
  have hmax : Grammar.maxWidth ≤ 2 ^ 32 ∧ 0 < maxGridColumns := by decide
  have hwide : ∀ span ∈ spans, span ≤ 2 ^ 32 := fun span hspan ↦ (hspans span hspan).trans hmax.1
  by_cases hwraps : Wraps columns spans
  · have hactive : activeColumns columns spans ≤ 2 ^ 32 :=
      activeColumns_le hwraps (hcolumns.trans (by decide)) hwide
    have hpos : 0 < activeColumns columns spans := by
      have := hwraps.1
      rw [activeColumns, if_pos hwraps]
      omega
    obtain ⟨cells, hcells⟩ := @exists_cellsFrom (min (activeColumns columns spans) maxGridColumns : Nat)
      (activeColumns columns spans) 0 spans (by omega) (fun _ ↦ hactive) hwide (by omega)
    exact ⟨_, by rw [ofSpans_of_wraps hzero hwraps, hcells]; rfl⟩
  · obtain ⟨cells, hcells⟩ := @exists_cellsFrom (-1) spans.sum 0 spans (by decide) (by omega) hwide
      (by omega)
    exact ⟨_, by rw [ofSpans_of_not_wraps hzero hwraps, hcells]; rfl⟩

end BlockDiagram.Layout
