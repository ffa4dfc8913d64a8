import BlockDiagram.Layout.Sizing
import BlockDiagram.Proofs.Document.Parsed
import BlockDiagram.Proofs.Layout.Packing
import Mathlib.Data.List.Chain

/-!
# Rows without blocks

In a grid of up to `maxGridColumns` columns every row has a block. In a wider one rows end later than
positions are divided, so that a block comes to stand up to four rows below the one before it
(`rows_of_ofSpans`).
-/

namespace BlockDiagram.Layout

variable {β : Type} {span : β → Nat}

/-- Holds for cells of which none is above the one before it, or more than `step` rows below it. -/
def Descends (step : Nat) (cells : List Cell) : Prop :=
  cells.IsChain fun a b ↦ a.row ≤ b.row ∧ b.row ≤ a.row + step

namespace Descends

variable {step : Nat} {cells : List Cell}

private theorem mono (h : Descends step cells) {step' : Nat} (hle : step ≤ step') :
    Descends step' cells :=
  List.IsChain.imp (fun _ _ hab ↦ ⟨hab.1, hab.2.trans (Nat.add_le_add_left hle _)⟩) h

private theorem row_getLast_le {first : Cell} (h : Descends step (first :: cells)) :
    ((first :: cells).getLast (List.cons_ne_nil _ _)).row ≤ first.row + step * cells.length := by
  induction cells generalizing first with
  | nil => exact Nat.le_refl _
  | cons next cells ih =>
    obtain ⟨hnext, h⟩ := List.isChain_cons_cons.1 h
    have hlast := ih h
    rw [List.getLast_cons_cons, List.length_cons, Nat.mul_succ]
    omega

private theorem rows_le (h : Descends step cells) (hhead : cells.head? = some ⟨0, 0⟩)
    (columns : Nat) : (Grid.ofCells columns cells).rows ≤ step * (cells.length - 1) + 1 := by
  cases cells with
  | nil => cases hhead
  | cons first cells =>
    cases hhead
    have hlast := h.row_getLast_le
    rw [Grid.ofCells, List.getLast?_eq_some_getLast (List.cons_ne_nil _ _), Option.elim_some,
      List.length_cons, Nat.add_sub_cancel]
    dsimp only at hlast ⊢
    omega

end Descends

/-- In packed rows every block stands in the row of the one before it or in the next one. -/
theorem Packs.descends {active row used : Nat} {blocks : List (β × Cell)}
    (h : Packs span active row used blocks) (column : Nat) :
    Descends 1 (⟨column, row⟩ :: blocks.map Prod.snd) := by
  induction h generalizing column with
  | done => exact List.isChain_singleton _
  | same hspan h ih => exact List.isChain_cons_cons.2 ⟨by simp, ih _⟩
  | next hfull hspan h ih => exact List.isChain_cons_cons.2 ⟨by simp, ih _⟩

/-! ### Steps in wide grids -/

section

variable {columns active position : Nat} {spans : List Nat} {cells : List Cell}

/-- The cell at a position, in rows of the given length. -/
def cellOf (columns position : Nat) : Cell :=
  ⟨position % columns, position / columns⟩

private theorem position_cellOf (columns position : Nat) :
    (cellOf columns position).position columns = position := by
  rw [Cell.position, cellOf]
  exact Nat.div_add_mod' position columns

/-- One step back: the next block has taken the cell at its start. -/
theorem exists_of_cellsFrom_cons {span : Nat} (hcolumns : 0 < columns) (hactive : active ≤ 2 ^ 32)
    (hposition : position ≤ 2 ^ 63 + 2 ^ 32)
    (h : Grid.cellsFrom columns active position (span :: spans) = .ok cells) :
    startOf columns active position span < 2 ^ 63 ∧
      ∃ rest, cells = cellOf columns (startOf columns active position span) :: rest ∧
        Grid.cellsFrom columns active (startOf columns active position span + span) spans =
          .ok rest := by
  have hle := startOf_le columns active position span
  by_cases hstart : startOf columns active position span < 2 ^ 63
  · rw [cellsFrom_cons hcolumns hstart] at h
    refine ⟨hstart, ?_⟩
    cases hrest : Grid.cellsFrom columns active (startOf columns active position span + span) spans with
    | error e => rw [hrest] at h; cases h
    | ok rest =>
      rw [hrest] at h
      cases h
      exact ⟨rest, rfl, rfl⟩
  · obtain ⟨p, -, herror⟩ := cellsFrom_cons_error hcolumns (Nat.not_lt.1 hstart) (by omega) spans
    cases h.symm.trans herror

/-- Holds for a block and the one behind it, which starts as soon as it may. -/
def Follows (columns active : Nat) (a b : Nat × Cell) : Prop :=
  a.2.column < columns ∧
    b.2 = cellOf columns (startOf columns active (a.2.position columns + a.1) b.1)

private theorem isChain_follows (hcolumns : 0 < columns) (hactive : active ≤ 2 ^ 32)
    (hspans : ∀ span ∈ spans, span ≤ 2 ^ 32) {a : Nat × Cell} (ha : a.2.column < columns)
    (hposition : a.2.position columns + a.1 ≤ 2 ^ 63 + 2 ^ 32)
    (h : Grid.cellsFrom columns active (a.2.position columns + a.1) spans = .ok cells) :
    (a :: spans.zip cells).IsChain (Follows columns active) := by
  induction spans generalizing a cells with
  | nil => exact List.isChain_singleton _
  | cons span spans ih =>
    obtain ⟨hspan, hspans⟩ := List.forall_mem_cons.1 hspans
    obtain ⟨hstart, rest, rfl, hrest⟩ := exists_of_cellsFrom_cons hcolumns hactive hposition h
    rw [List.zip_cons_cons, List.isChain_cons_cons]
    refine ⟨⟨ha, rfl⟩, ih hspans (Nat.mod_lt _ hcolumns) ?_ ?_⟩
    · rw [position_cellOf]
      omega
    · rwa [position_cellOf]

/-- A block is in the row that the one before it ends in, and lower if it would reach over the end of
a row. -/
theorem Follows.row_eq {a b : Nat × Cell} (h : Follows columns active a b)
    (hactive : columns ≤ active) :
    b.2.row = a.2.row + (a.2.column + a.1) / columns +
      if 0 < (a.2.column + a.1) % columns ∧ active < (a.2.column + a.1) % columns + b.1 then
        active / columns else 0 := by
  obtain ⟨ha, hb⟩ := h
  have hcolumns : 0 < columns := Nat.lt_of_le_of_lt (Nat.zero_le _) ha
  have hparts := Nat.div_add_mod' (a.2.column + a.1) columns
  have hmod := Nat.mod_lt (a.2.column + a.1) hcolumns
  rw [hb, cellOf, startOf, Cell.position, Nat.add_assoc, Nat.mul_add_mod']
  dsimp only
  split
  · have hstart : a.2.row * columns + (a.2.column + a.1) +
        (active - (a.2.column + a.1) % columns) =
        active + (a.2.row + (a.2.column + a.1) / columns) * columns := by
      rw [Nat.add_mul]
      omega
    rw [hstart, Nat.add_mul_div_right _ _ hcolumns, Nat.add_comm]
  · rw [Nat.add_comm, Nat.add_mul_div_right _ _ hcolumns, Nat.add_comm, Nat.add_zero]

/-- Where rows are up to twice as long as the count that positions are divided by, a block may reach
into the third row behind its own, or end in the second one with no room left for the next. -/
theorem Follows.row_le {a b : Nat × Cell} (h : Follows maxGridColumns active a b)
    (hwide : maxGridColumns < active) (hmax : active ≤ Grammar.maxWidth) (hspan : a.1 ≤ active) :
    a.2.row ≤ b.2.row ∧ b.2.row ≤ a.2.row + 4 := by
  have hcolumn := h.1
  rw [h.row_eq hwide.le]
  unfold Grammar.maxWidth at hmax
  unfold maxGridColumns at hwide hcolumn ⊢
  constructor
  · omega
  · split <;> omega

private theorem Follows.le_row {a b : Nat × Cell} (h : Follows maxGridColumns active a b)
    (hwide : maxGridColumns < active) (hspan : 2 * maxGridColumns ≤ a.1) :
    a.2.row + 2 ≤ b.2.row := by
  rw [h.row_eq hwide.le]
  unfold maxGridColumns at hspan ⊢
  omega

/-- With a negative column count there is one row. -/
theorem row_eq_zero_of_cellsFrom {columns : Int} (hcolumns : columns < 0)
    (h : Grid.cellsFrom columns active position spans = .ok cells) : ∀ cell ∈ cells, cell.row = 0 := by
  induction spans generalizing position cells with
  | nil =>
    cases h
    exact List.forall_mem_nil _
  | cons span spans ih =>
    have hnot : ¬ 0 < columns := Int.not_lt.2 (Int.le_of_lt hcolumns)
    rw [Grid.cellsFrom, bind_eq_ok_iff] at h
    obtain ⟨cell, hcell, h⟩ := h
    rw [if_neg (by simp [hnot])] at h
    obtain ⟨rest, hrest, h⟩ := bind_eq_ok_iff.1 h
    cases h
    exact List.forall_mem_cons.2 ⟨row_cellAt hcolumns hcell, ih hrest⟩

/-- The first block has the first cell. -/
theorem head?_of_cellsFrom {columns : Int} {span : Nat}
    (h : Grid.cellsFrom columns active 0 (span :: spans) = .ok cells) :
    cells.head? = some ⟨0, 0⟩ := by
  rw [Grid.cellsFrom, bind_eq_ok_iff] at h
  obtain ⟨cell, hcell, h⟩ := h
  obtain rfl : cell = ⟨0, 0⟩ := by
    rw [cellAt, show inWord 0 = 0 by decide, if_neg (Int.lt_irrefl 0)] at hcell
    split at hcell
    · cases hcell
    · split at hcell
      · cases hcell
        rfl
      · cases hcell
        simp
  rw [if_neg (by simp)] at h
  obtain ⟨rest, -, h⟩ := bind_eq_ok_iff.1 h
  cases h
  rfl

end

/-! ### Grids -/

section

variable {columns : Int} {spans : List Nat} {grid : Grid}

private theorem head?_of_ofSpans (hne : spans ≠ []) (h : Grid.ofSpans columns spans = .ok grid) :
    grid.cells.head? = some ⟨0, 0⟩ := by
  obtain ⟨-, -, hcells⟩ := cells_of_ofSpans h
  cases spans with
  | nil => exact absurd rfl hne
  | cons span spans => exact head?_of_cellsFrom hcells

/-- A grid that is no wider than positions are divided has no row without a block. -/
theorem descends_of_columns_le (hne : spans ≠ []) (hspans : ∀ span ∈ spans, 1 ≤ span)
    (hcolumns : grid.columns ≤ maxGridColumns) (h : Grid.ofSpans columns spans = .ok grid) :
    Descends 1 grid.cells := by
  have hsnd : (spans.zip grid.cells).map Prod.snd = grid.cells :=
    List.map_snd_zip (Nat.le_of_eq (length_ofSpans h))
  rw [← List.map_id spans] at h
  have hpacks := packs_of_ofSpans hne hspans hcolumns h
  rw [← hsnd]
  exact (List.isChain_cons.1 (hpacks.descends 0)).2

/-- Neither has one with a single row. -/
theorem descends_of_not_wraps (hwraps : ¬ Wraps columns spans)
    (h : Grid.ofSpans columns spans = .ok grid) : Descends 1 grid.cells := by
  obtain ⟨-, -, hcells⟩ := cells_of_ofSpans h
  rw [if_neg hwraps] at hcells
  have hrows := row_eq_zero_of_cellsFrom (by decide) hcells
  refine List.Pairwise.isChain (List.pairwise_of_forall_mem_list fun a ha b hb ↦ ?_)
  rw [hrows a ha, hrows b hb]
  omega

/-- In a grid that is wider every block starts as soon as it may after the one before it. -/
theorem isChain_of_wraps (hwraps : Wraps columns spans)
    (hwide : maxGridColumns ≤ activeColumns columns spans)
    (hmax : activeColumns columns spans ≤ 2 ^ 32) (h : Grid.ofSpans columns spans = .ok grid) :
    (spans.zip grid.cells).IsChain (Follows maxGridColumns (activeColumns columns spans)) := by
  obtain ⟨-, -, hcells⟩ := cells_of_ofSpans h
  rw [if_pos hwraps, Nat.min_eq_right hwide] at hcells
  have hspans : ∀ span ∈ spans, span ≤ 2 ^ 32 := fun span hspan ↦
    (span_le_activeColumns columns spans span hspan).trans hmax
  have hchain := isChain_follows (a := (0, ⟨0, 0⟩)) (by decide) hmax hspans (by decide) (by decide)
    hcells
  exact (List.isChain_cons.1 hchain).2

/-- Where positions are divided too early a block can be up to four rows below the one before it. -/
theorem descends_of_wide (hwraps : Wraps columns spans)
    (hwide : maxGridColumns < activeColumns columns spans)
    (hmax : activeColumns columns spans ≤ Grammar.maxWidth)
    (h : Grid.ofSpans columns spans = .ok grid) :
    Descends 4 grid.cells ∧ (spans.zip grid.cells).IsChain fun a b ↦
      2 * maxGridColumns ≤ a.1 → a.2.row + 2 ≤ b.2.row := by
  have hsnd : (spans.zip grid.cells).map Prod.snd = grid.cells :=
    List.map_snd_zip (Nat.le_of_eq (length_ofSpans h))
  have hchain := isChain_of_wraps hwraps hwide.le (hmax.trans (by decide)) h
  constructor
  · rw [Descends, ← hsnd, List.isChain_map]
    exact hchain.imp_of_mem_imp fun a b ha _ hab ↦
      hab.row_le hwide hmax (span_le_activeColumns columns spans a.1 (List.of_mem_zip ha).1)
  · exact hchain.imp fun a b hab ↦ hab.le_row hwide

/-- Every grid of blocks that can be written starts with the first block, and its rows come in order.
Every row has a block if no block is wider than the largest column count or all stand in one row.
Otherwise up to three rows in front of a block have none, and there are such rows behind every block
but the last that is twice as wide. -/
theorem rows_of_ofSpans (hzero : columns ≠ 0) (hcolumns : columns ≤ Grammar.maxColumns)
    (hne : spans ≠ []) (hspans : ∀ span ∈ spans, 1 ≤ span ∧ span ≤ Grammar.maxWidth) :
    (spans.length ≤ 2 ^ 29 → ∃ grid, Grid.ofSpans columns spans = .ok grid) ∧
    ∀ grid, Grid.ofSpans columns spans = .ok grid →
      grid.cells.length = spans.length ∧ grid.cells.head? = some ⟨0, 0⟩ ∧
      Descends 4 grid.cells ∧ grid.rows ≤ 4 * (spans.length - 1) + 1 ∧
      ((∀ span ∈ spans, span ≤ maxGridColumns) ∨ ¬ Wraps columns spans →
        Descends 1 grid.cells ∧ grid.rows ≤ spans.length) ∧
      (Wraps columns spans → (spans.zip grid.cells).IsChain fun a b ↦
        2 * maxGridColumns ≤ a.1 → a.2.row + 2 ≤ b.2.row) := by
  refine ⟨exists_ofSpans hzero hcolumns fun span hspan ↦ (hspans span hspan).2, fun grid h ↦ ?_⟩
  have hlength := length_ofSpans h
  have hhead := head?_of_ofSpans hne h
  obtain ⟨-, hgrid, -⟩ := cells_of_ofSpans h
  have hrows : ∀ {step}, Descends step grid.cells → grid.rows ≤ step * (spans.length - 1) + 1 := by
    intro step hdescends
    rw [hgrid, ← hlength]
    exact hdescends.rows_le hhead _
  have hones : ∀ span ∈ spans, 1 ≤ span := fun span hspan ↦ (hspans span hspan).1
  have hpos := List.length_pos_iff.2 hne
  by_cases hwraps : Wraps columns spans
  · rcases Nat.lt_or_ge maxGridColumns (activeColumns columns spans) with hwide | hnarrow
    · have hmax := activeColumns_le hwraps (hcolumns.trans (by decide)) fun span hspan ↦
        (hspans span hspan).2
      obtain ⟨hdescends, hgaps⟩ := descends_of_wide hwraps hwide hmax h
      refine ⟨hlength, hhead, hdescends, hrows hdescends, ?_, fun _ ↦ hgaps⟩
      rintro (hspans | hsingle)
      · exact absurd (activeColumns_le hwraps hcolumns hspans) (Nat.not_le_of_lt hwide)
      · exact absurd hwraps hsingle
    · have hdescends := descends_of_columns_le hne hones
        ((congrArg Grid.columns hgrid).trans_le hnarrow) h
      have hle := hrows hdescends
      refine ⟨hlength, hhead, hdescends.mono (by decide), by omega, fun _ ↦ ⟨hdescends, by omega⟩,
        fun _ ↦ ?_⟩
      refine List.Pairwise.isChain (List.pairwise_of_forall_mem_list fun a ha b _ hwide ↦ ?_)
      have hspan := span_le_activeColumns columns spans a.1 (List.of_mem_zip ha).1
      have hpositive : 0 < maxGridColumns := by decide
      omega
  · have hdescends := descends_of_not_wraps hwraps h
    have hle := hrows hdescends
    exact ⟨hlength, hhead, hdescends.mono (by decide), by omega, fun _ ↦ ⟨hdescends, by omega⟩,
      fun h ↦ absurd h hwraps⟩

/-- A narrow grid has a block in each of its rows. -/
theorem descends_straddling : (3 : Int) ≠ 0 ∧ (3 : Int) ≤ Grammar.maxColumns ∧ [1, 1, 2, 1] ≠ [] ∧
    (∀ span ∈ [1, 1, 2, 1], 1 ≤ span ∧ span ≤ Grammar.maxWidth) ∧
    ∃ grid, Grid.ofSpans 3 [1, 1, 2, 1] = .ok grid ∧ Descends 1 grid.cells ∧ grid.rows ≤ 4 := by
  obtain ⟨hexists, hgrids⟩ := @rows_of_ofSpans 3 [1, 1, 2, 1] (by decide) (by decide) (by decide)
    (by decide)
  obtain ⟨grid, hgrid⟩ := hexists (by decide)
  obtain ⟨-, -, -, -, hnarrow, -⟩ := hgrids grid hgrid
  exact ⟨by decide, by decide, by decide, by decide, grid, hgrid, hnarrow (.inl (by decide))⟩

example : Grid.ofSpans 1 [4294967295, 4294967295] = .ok ⟨4294967295, 5, [⟨0, 0⟩, ⟨1, 4⟩]⟩ := by
  decide +kernel

end

open Grammar (Production nodeRules)

/-- A block as wide as can be written, and another one. -/
def oversized : String :=
  "block-beta columns 1 a:4294967295 b"

/-- The rules that derive it. -/
def oversizedRules : List Production :=
  [.start, .documentMore, .columns, .documentMore, .nodes, .chainStart, .sizedNode, .bareNode] ++
    nodeRules ++ [.documentEnd]

/-- They stand in a grid of three rows. -/
theorem exists_row_without_block : ∃ d, Document.parse 4 oversized = .ok d ∧
    d.children BlockId.root = ["a", "b"] ∧
    gridOf d BlockId.root = .ok ⟨4294967295, 3, [⟨0, 0⟩, ⟨1, 2⟩]⟩ := by
  have hdecide : ((statementsAlong oversizedRules oversized).bind fun ss ↦
      (Builder.build 4 ss).toOption.map fun d ↦
        decide (d.children BlockId.root = ["a", "b"]) &&
          decide (gridOf d BlockId.root = .ok ⟨4294967295, 3, [⟨0, 0⟩, ⟨1, 2⟩]⟩)) = some true := by
    decide +kernel
  obtain ⟨ss, d, -, -, hd, hresult⟩ := parse_of_along hdecide
  simp only [Bool.and_eq_true, decide_eq_true_eq] at hresult
  exact ⟨d, hd, hresult⟩

end BlockDiagram.Layout
