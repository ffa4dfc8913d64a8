import BlockDiagram.Proofs.Layout.Rows

/-!
# Packed grids

A grid whose rows are as long as the count that positions are divided by is packed, unless a position,
which counts what is left free at the ends of rows, is taken for a negative one: then there is no grid
(`ofSpans_of_packs`, `exists_packing`).
-/

namespace BlockDiagram.Layout

variable {β : Type} {span : β → Nat}

/-! ### Steps -/

/-- Where a block starts if the given position is the first that is free. -/
def startOf (columns active position span : Nat) : Nat :=
  if 0 < position % columns ∧ active < position % columns + span then
    position + (active - position % columns)
  else position

private theorem le_startOf (columns active position span : Nat) :
    position ≤ startOf columns active position span := by
  unfold startOf
  split
  · exact Nat.le_add_right _ _
  · exact Nat.le_refl _

/-- A block starts no later than a whole row behind the first free position. -/
theorem startOf_le (columns active position span : Nat) :
    startOf columns active position span ≤ position + active := by
  unfold startOf
  split <;> omega

/-- One step: the next block takes the cell at its start. -/
theorem cellsFrom_cons {columns active position span : Nat} (hcolumns : 0 < columns)
    (hstart : startOf columns active position span < 2 ^ 63) (spans : List Nat) :
    Grid.cellsFrom columns active position (span :: spans) =
      (Grid.cellsFrom columns active (startOf columns active position span + span) spans).map
        (⟨startOf columns active position span % columns,
          startOf columns active position span / columns⟩ :: ·) := by
  have hposition := Nat.lt_of_le_of_lt (le_startOf columns active position span) hstart
  have hcolumns' : (0 : Int) < columns := Int.natCast_pos.2 hcolumns
  rw [Grid.cellsFrom, cellAt_of_lt hcolumns hposition]
  unfold startOf at hstart ⊢
  by_cases hmoved : 0 < position % columns ∧ active < position % columns + span
  · rw [if_pos hmoved] at hstart ⊢
    simp only [bind, Except.bind, hcolumns', hmoved, decide_true, Bool.and_self, if_true,
      cellAt_of_lt hcolumns hstart]
    cases Grid.cellsFrom columns active _ spans <;> rfl
  · rw [if_neg hmoved]
    have hstays : ¬ (decide ((0 : Int) < columns) && decide (0 < position % columns) &&
        decide (active < position % columns + span)) = true := by
      simpa [hcolumns] using hmoved
    simp only [bind, Except.bind, if_neg hstays]
    cases Grid.cellsFrom columns active _ spans <;> rfl

/-- A block whose start is taken for a negative position has no cell. -/
theorem cellsFrom_cons_error {columns active position span : Nat} (hcolumns : 0 < columns)
    (hstart : 2 ^ 63 ≤ startOf columns active position span)
    (hlt : startOf columns active position span < 2 ^ 64) (spans : List Nat) :
    ∃ p < 0, Grid.cellsFrom columns active position (span :: spans) =
      .error (.negativePosition p) := by
  have hcolumns' : (0 : Int) < columns := Int.natCast_pos.2 hcolumns
  have hle := le_startOf columns active position span
  by_cases hposition : 2 ^ 63 ≤ position
  · have hposition' := Nat.lt_of_le_of_lt hle hlt
    refine ⟨inWord position, inWord_neg hposition hposition', ?_⟩
    rw [Grid.cellsFrom, cellAt_of_le hcolumns hposition hposition']
    rfl
  · refine ⟨_, inWord_neg hstart hlt, ?_⟩
    rw [Grid.cellsFrom, cellAt_of_lt hcolumns (by omega)]
    unfold startOf at hstart hlt ⊢
    by_cases hmoved : 0 < position % columns ∧ active < position % columns + span
    · rw [if_pos hmoved] at hstart hlt ⊢
      simp only [bind, Except.bind, hcolumns', hmoved, decide_true, Bool.and_self, if_true,
        cellAt_of_le hcolumns hstart hlt]
    · rw [if_neg hmoved] at hstart
      exact absurd hstart hposition

/-! ### Grids -/

variable {active row used : Nat} {blocks : List (β × Cell)}

/-- In rows of the length that positions are divided by, a block starts where it is packed. -/
theorem Packs.uncons {b : β × Cell} (h : Packs span active row used (b :: blocks))
    (hused : used ≤ active) (hpos : 1 ≤ span b.1) :
    startOf active active (row * active + used) (span b.1) = b.2.position active ∧
      (⟨b.2.position active % active, b.2.position active / active⟩ : Cell) = b.2 ∧
      b.2.column + span b.1 ≤ active ∧
      Packs span active b.2.row (b.2.column + span b.1) blocks := by
  have hcell : ∀ {row used}, used < active →
      (⟨(row * active + used) % active, (row * active + used) / active⟩ : Cell) = ⟨used, row⟩ := by
    intro row used hlt
    rw [Nat.mul_add_mod', Nat.mod_eq_of_lt hlt, Nat.mul_comm, Nat.mul_add_div (by omega),
      Nat.div_eq_of_lt hlt, Nat.add_zero]
  cases h with
  | @same _ _ b _ hspan h =>
    dsimp only [Cell.position] at hpos ⊢
    refine ⟨?_, hcell (by omega), hspan, h⟩
    rw [startOf, Nat.mul_add_mod', Nat.mod_eq_of_lt (by omega), if_neg (by omega)]
  | @next _ _ b _ hfull hspan h =>
    dsimp only [Cell.position] at hpos ⊢
    refine ⟨?_, hcell (by omega), by rwa [Nat.zero_add], by rwa [Nat.zero_add]⟩
    rw [startOf, Nat.mul_add_mod', Nat.succ_mul]
    rcases Nat.eq_or_lt_of_le hused with rfl | hlt
    · rw [Nat.mod_self, if_neg (by omega)]
      rfl
    · rw [Nat.mod_eq_of_lt hlt, if_pos (by omega)]
      omega

/-- Blocks get the cells that they are packed into if none of their positions is too large. -/
theorem cellsFrom_of_packs (h : Packs span active row used blocks) (hactive : 0 < active)
    (hused : used ≤ active) (hspans : ∀ b ∈ blocks, 1 ≤ span b.1)
    (hpositions : ∀ b ∈ blocks, b.2.position active < 2 ^ 63) :
    Grid.cellsFrom active active (row * active + used) (blocks.map fun b ↦ span b.1) =
      .ok (blocks.map Prod.snd) := by
  induction blocks generalizing row used with
  | nil => rfl
  | cons b blocks ih =>
    obtain ⟨hpos, hspans⟩ := List.forall_mem_cons.1 hspans
    obtain ⟨hposition, hpositions⟩ := List.forall_mem_cons.1 hpositions
    obtain ⟨hstart, hcell, hinside, hrest⟩ := h.uncons hused hpos
    have hcells := ih hrest hinside hspans hpositions
    rw [← Nat.add_assoc] at hcells
    rw [List.map_cons, cellsFrom_cons hactive (by rwa [hstart]), hstart, hcell, Cell.position, hcells]
    rfl

/-- They get none if one of their positions is too large. -/
theorem cellsFrom_error_of_packs (h : Packs span active row used blocks) (hactive : 0 < active)
    (hmax : active ≤ 2 ^ 32) (hused : used ≤ active) (hspans : ∀ b ∈ blocks, 1 ≤ span b.1)
    (hposition : row * active + used ≤ 2 ^ 63 + active)
    (hlarge : ∃ b ∈ blocks, 2 ^ 63 ≤ b.2.position active) :
    ∃ p < 0, Grid.cellsFrom active active (row * active + used) (blocks.map fun b ↦ span b.1) =
      .error (.negativePosition p) := by
  induction blocks generalizing row used with
  | nil =>
    obtain ⟨b, hb, -⟩ := hlarge
    cases hb
  | cons b blocks ih =>
    obtain ⟨hpos, hspans⟩ := List.forall_mem_cons.1 hspans
    obtain ⟨hstart, hcell, hinside, hrest⟩ := h.uncons hused hpos
    have hle := startOf_le active active (row * active + used) (span b.1)
    rw [List.map_cons]
    -- a step goes on by less than two rows, so that no position is so large that it is taken for a
    -- small one again
    by_cases hlt : b.2.position active < 2 ^ 63
    · have hlarge := (List.or_exists_of_exists_mem_cons hlarge).resolve_left (Nat.not_le_of_lt hlt)
      rw [Cell.position] at hlt
      obtain ⟨p, hp, herror⟩ := ih hrest hinside hspans (by omega) hlarge
      refine ⟨p, hp, ?_⟩
      rw [← Nat.add_assoc] at herror
      rw [cellsFrom_cons hactive (by rwa [hstart]), hstart, Cell.position, herror]
      rfl
    · exact cellsFrom_cons_error hactive (by omega) (by omega) _

/-- With a negative column count the blocks get the cells of a single row. -/
theorem cellsFrom_of_row {columns : Int} (hcolumns : columns < 0)
    (h : Packs span active 0 used blocks) (hspans : ∀ b ∈ blocks, 1 ≤ span b.1)
    (hfits : used + (blocks.map fun b ↦ span b.1).sum ≤ active) (hactive : active ≤ 2 ^ 63) :
    Grid.cellsFrom columns active used (blocks.map fun b ↦ span b.1) =
      .ok (blocks.map Prod.snd) := by
  generalize hrow : 0 = row at h
  induction h with
  | done => rfl
  | @same row used b rest hspan h ih =>
    subst hrow
    obtain ⟨hpos, hspans⟩ := List.forall_mem_cons.1 hspans
    rw [List.map_cons, List.sum_cons] at hfits
    dsimp only at hpos hfits
    have hcell : cellAt columns (inWord used) = .ok ⟨used, 0⟩ := by
      rw [inWord_of_lt (by omega), cellAt, if_neg (by omega), if_neg (by omega), if_pos hcolumns]
      rfl
    have hnot : ¬ 0 < columns := by omega
    rw [List.map_cons, Grid.cellsFrom, hcell]
    simp only [bind, Except.bind, hnot, decide_false, Bool.false_and, Bool.false_eq_true, if_false,
      ih hspans (by omega) rfl]
    rfl
  | @next row used b rest hfull hspan h ih =>
    rw [List.map_cons, List.sum_cons] at hfits
    dsimp only at hfits
    omega

section

variable {columns : Int} {spans : List Nat} {cells : List Cell}

/-- A grid is packed unless a position is too large. -/
theorem ofSpans_of_packs (hzero : columns ≠ 0) (hne : spans ≠ []) (hspans : ∀ span ∈ spans, 1 ≤ span)
    (hactive : activeColumns columns spans ≤ maxGridColumns) (hlength : cells.length = spans.length)
    (h : Packs id (activeColumns columns spans) 0 0 (spans.zip cells)) :
    ((∀ cell ∈ cells, cell.position (activeColumns columns spans) < 2 ^ 63) →
      Grid.ofSpans columns spans = .ok (Grid.ofCells (activeColumns columns spans) cells)) ∧
    ((∃ cell ∈ cells, 2 ^ 63 ≤ cell.position (activeColumns columns spans)) →
      ∃ p < 0, Grid.ofSpans columns spans = .error (.negativePosition p)) := by
  obtain ⟨span, hspan⟩ := List.exists_mem_of_ne_nil spans hne
  have hpos : 0 < activeColumns columns spans :=
    Nat.lt_of_lt_of_le (hspans span hspan) (span_le_activeColumns columns spans span hspan)
  have hfst : (spans.zip cells).map (fun b ↦ id b.1) = spans :=
    List.map_fst_zip (Nat.le_of_eq hlength.symm)
  have hsnd : (spans.zip cells).map Prod.snd = cells := List.map_snd_zip (Nat.le_of_eq hlength)
  have hones : ∀ b ∈ spans.zip cells, 1 ≤ id b.1 := fun b hb ↦
    hspans b.1 (List.of_mem_zip hb).1
  have hmax : maxGridColumns ≤ 2 ^ 32 := by decide
  by_cases hwraps : Wraps columns spans
  · rw [ofSpans_of_wraps hzero hwraps, Nat.min_eq_left hactive]
    constructor
    · intro hpositions
      have hcells := cellsFrom_of_packs h hpos (Nat.zero_le _) hones fun b hb ↦
        hpositions b.2 (List.of_mem_zip hb).2
      rw [hfst, hsnd, Nat.zero_mul] at hcells
      rw [hcells]
      rfl
    · rintro ⟨cell, hcell, hle⟩
      rw [← hsnd] at hcell
      obtain ⟨b, hb, rfl⟩ := List.mem_map.1 hcell
      obtain ⟨p, hp, herror⟩ := cellsFrom_error_of_packs h hpos (hactive.trans hmax) (Nat.zero_le _)
        hones (by omega) ⟨b, hb, hle⟩
      rw [hfst, Nat.zero_mul] at herror
      exact ⟨p, hp, by rw [herror]; rfl⟩
  · have htotal : activeColumns columns spans = spans.sum := if_neg hwraps
    rw [htotal] at h hactive hpos ⊢
    have hfits : 0 + ((spans.zip cells).map fun b ↦ id b.1).sum ≤ spans.sum := by rw [hfst]; omega
    rw [ofSpans_of_not_wraps hzero hwraps]
    constructor
    · intro _
      have hcells := cellsFrom_of_row (by decide : (-1 : Int) < 0) h hones hfits (by omega)
      rw [hfst, hsnd] at hcells
      rw [hcells]
      rfl
    · rintro ⟨cell, hcell, hle⟩
      rw [← hsnd] at hcell
      obtain ⟨b, hb, rfl⟩ := List.mem_map.1 hcell
      have hrow := h.row_eq hfits b hb
      have hinside := h.inside b hb
      rw [Cell.position, hrow] at hle
      omega

end

/-- Blocks are packed as their spans are. -/
theorem Packs.map_span (h : Packs span active row used blocks) :
    Packs id active row used (blocks.map (Prod.map span id)) := by
  induction h with
  | done => exact .done
  | same hspan h ih => exact .same hspan ih
  | next hfull hspan h ih => exact .next hfull hspan ih

/-- In a grid that is no wider than the largest column count the blocks are packed. -/
theorem packs_of_ofSpans {columns : Int} {blocks : List β} {grid : Grid} (hne : blocks ≠ [])
    (hspans : ∀ b ∈ blocks, 1 ≤ span b) (hcolumns : grid.columns ≤ maxGridColumns)
    (h : Grid.ofSpans columns (blocks.map span) = .ok grid) :
    Packs span grid.columns 0 0 (blocks.zip grid.cells) := by
  obtain ⟨hzero, hgrid, -⟩ := cells_of_ofSpans h
  have hactive := congrArg Grid.columns hgrid
  change grid.columns = activeColumns columns (blocks.map span) at hactive
  rw [hactive] at hcolumns
  have hwidest : ∀ b ∈ blocks, span b ≤ activeColumns columns (blocks.map span) := fun b hb ↦
    span_le_activeColumns columns _ _ (List.mem_map_of_mem hb)
  obtain ⟨cells, hlength, hpacks⟩ := exists_packs 0 0 hwidest
  have hpacks' := hpacks.map_span
  rw [← List.zip_map_left] at hpacks'
  obtain ⟨hok, herror⟩ := ofSpans_of_packs hzero (mt List.map_eq_nil_iff.1 hne)
    (List.forall_mem_map.2 hspans) hcolumns (by rwa [List.length_map]) hpacks'
  by_cases hpositions : ∀ cell ∈ cells, cell.position (activeColumns columns (blocks.map span)) < 2 ^ 63
  · cases h.symm.trans (hok hpositions)
    exact hpacks
  · simp only [not_forall, Nat.not_lt] at hpositions
    obtain ⟨cell, hcell, hle⟩ := hpositions
    obtain ⟨p, -, herror⟩ := herror ⟨cell, hcell, hle⟩
    cases h.symm.trans herror

/-- Every list of blocks has a packing, which takes no more rows than any other way to break the blocks
into rows. The grid of the blocks is that packing if its positions, which count what is left free at
the ends of rows, are no larger than can be told from negative ones, and there is no grid otherwise. -/
theorem exists_packing {columns : Int} {spans : List Nat} (hzero : columns ≠ 0) (hne : spans ≠ [])
    (hspans : ∀ span ∈ spans, 1 ≤ span)
    (hactive : activeColumns columns spans ≤ maxGridColumns) :
    ∃ grid : Grid, grid.columns = activeColumns columns spans ∧
      Packing grid.columns spans grid.cells ∧
      (columns < 0 ∨ spans.sum ≤ columns → ∀ cell ∈ grid.cells, cell.row = 0) ∧
      IsLeast {n | ∃ rows, Splits grid.columns spans rows ∧ rows.length = n} grid.rows ∧
      ((∀ cell ∈ grid.cells, cell.position grid.columns < 2 ^ 63) →
        Grid.ofSpans columns spans = .ok grid) ∧
      ((∃ cell ∈ grid.cells, 2 ^ 63 ≤ cell.position grid.columns) →
        ∃ p < 0, Grid.ofSpans columns spans = .error (.negativePosition p)) ∧
      (spans.length ≤ 2 ^ 32 ∨ spans.sum ≤ 2 ^ 62 →
        ∀ cell ∈ grid.cells, cell.position grid.columns < 2 ^ 63) := by
  have hwidest : ∀ span ∈ spans, id span ≤ activeColumns columns spans :=
    span_le_activeColumns columns spans
  obtain ⟨cells, hlength, h⟩ := exists_packs 0 0 hwidest
  obtain ⟨hok, herror⟩ := ofSpans_of_packs hzero hne hspans hactive hlength h
  have hfst : (spans.zip cells).map (fun b ↦ id b.1) = spans :=
    List.map_fst_zip (Nat.le_of_eq hlength.symm)
  have hsnd : (spans.zip cells).map Prod.snd = cells := List.map_snd_zip (Nat.le_of_eq hlength)
  refine ⟨Grid.ofCells (activeColumns columns spans) cells, rfl, h.packing hlength hspans, ?_,
    h.isLeast hlength hne, hok, herror, ?_⟩
  · intro hsingle cell hcell
    have htotal : activeColumns columns spans = spans.sum := by
      refine if_neg ?_
      rw [Wraps]
      omega
    change cell ∈ cells at hcell
    rw [← hsnd] at hcell
    obtain ⟨b, hb, rfl⟩ := List.mem_map.1 hcell
    exact h.row_eq (by rw [hfst, htotal]; omega) b hb
  · intro hsize cell hcell
    change cell ∈ cells at hcell
    rw [← hsnd] at hcell
    obtain ⟨b, hb, rfl⟩ := List.mem_map.1 hcell
    refine h.position_lt (fun b hb ↦ hspans b.1 (List.of_mem_zip hb).1) hactive ?_ b hb
    rwa [List.length_zip, hlength, Nat.min_self, hfst]

/-- A block that would leave its row starts the next one, and there is no way to do with a row less. -/
theorem isLeast_rows_straddling : (3 : Int) ≠ 0 ∧ [1, 1, 2, 1] ≠ [] ∧
    (∀ span ∈ [1, 1, 2, 1], 1 ≤ span) ∧ activeColumns 3 [1, 1, 2, 1] ≤ maxGridColumns ∧
    ∃ grid, Grid.ofSpans 3 [1, 1, 2, 1] = .ok grid ∧
      IsLeast {n | ∃ rows, Splits grid.columns [1, 1, 2, 1] rows ∧ rows.length = n} grid.rows := by
  obtain ⟨grid, -, -, -, hleast, hok, -, hsmall⟩ :=
    @exists_packing 3 [1, 1, 2, 1] (by decide) (by decide) (by decide) (by decide)
  exact ⟨by decide, by decide, by decide, by decide, grid, hok (hsmall (.inl (by decide))), hleast⟩

/-- Blocks of one length of which no two fit into a row are packed one to a row. -/
theorem packs_replicate {active span : Nat} (hspan : span ≤ active) (hfull : active < span + span)
    (row count : Nat) :
    Packs id active row span
      ((List.replicate count span).zip ((List.range' (row + 1) count).map fun n ↦ ⟨0, n⟩)) := by
  induction count generalizing row with
  | zero => exact .done
  | succ count ih =>
    rw [List.replicate_succ, List.range'_succ, List.map_cons, List.zip_cons_cons]
    exact .next hfull hspan (ih (row + 1))

/-- With so many of them that the rows have more positions than can be told from negative ones there is
no grid. -/
theorem exists_error_of_replicate {columns span count : Nat} (hspan : span ≤ columns)
    (hfull : columns < span + span) (hmax : columns ≤ maxGridColumns)
    (hcount : 2 ^ 63 ≤ count * columns) :
    activeColumns columns (List.replicate (count + 1) span) = columns ∧
      ∃ p < 0, Grid.ofSpans columns (List.replicate (count + 1) span) =
        .error (.negativePosition p) := by
  have hpos : 0 < count := Nat.pos_of_ne_zero fun hzero ↦ by simp [hzero] at hcount
  have hsum : (List.replicate (count + 1) span).sum = (count + 1) * span := List.sum_replicate_nat
  have hwraps : Wraps columns (List.replicate (count + 1) span) := by
    rw [Wraps, hsum]
    have : 2 * span ≤ (count + 1) * span := Nat.mul_le_mul_right _ (by omega)
    omega
  have hwidest : (List.replicate (count + 1) span).foldl max 0 ≤ columns := by
    refine foldl_max_le_iff.2 ⟨Nat.zero_le _, fun s hs ↦ ?_⟩
    rwa [List.eq_of_mem_replicate hs]
  have hactive : activeColumns columns (List.replicate (count + 1) span) = columns := by
    rw [activeColumns, if_pos hwraps, Int.toNat_natCast, Nat.max_eq_left hwidest]
  have hpacks : Packs id columns 0 0 ((List.replicate (count + 1) span).zip
      (⟨0, 0⟩ :: (List.range' 1 count).map fun n ↦ ⟨0, n⟩)) := by
    rw [List.replicate_succ, List.zip_cons_cons]
    refine .same (by simpa using hspan) ?_
    rw [Nat.zero_add]
    exact packs_replicate hspan hfull 0 count
  refine ⟨hactive, ?_⟩
  rw [← hactive] at hpacks
  refine (ofSpans_of_packs (by omega) (by simp) ?_ (by rwa [hactive]) (by simp) hpacks).2 ?_
  · intro s hs
    rw [List.eq_of_mem_replicate hs]
    omega
  · refine ⟨⟨0, count⟩, List.mem_cons_of_mem _ (List.mem_map.2 ⟨count, ?_, rfl⟩), ?_⟩
    · exact List.mem_range'_1.2 (by omega)
    · rwa [Cell.position, hactive, Nat.add_zero]

/-- A total that can be told from a negative number is not enough: what is left free at the ends of the
rows counts, too. -/
theorem exists_error_below_total : (2147483647 : Int) ≠ 0 ∧
    List.replicate (4294967299 + 1) 1073741825 ≠ [] ∧
    (∀ span ∈ List.replicate (4294967299 + 1) 1073741825, 1 ≤ span) ∧
    (List.replicate (4294967299 + 1) 1073741825).sum < 2 ^ 63 ∧
    activeColumns 2147483647 (List.replicate (4294967299 + 1) 1073741825) ≤ maxGridColumns ∧
    ∃ p < 0, Grid.ofSpans 2147483647 (List.replicate (4294967299 + 1) 1073741825) =
      .error (.negativePosition p) := by
  obtain ⟨hactive, herror⟩ :=
    @exists_error_of_replicate 2147483647 1073741825 4294967299 (by decide) (by decide) (by decide)
      (by decide)
  refine ⟨by decide, List.cons_ne_nil _ _, fun span hspan ↦ ?_, ?_, ?_, herror⟩
  · rw [List.eq_of_mem_replicate hspan]
    decide
  · rw [List.sum_replicate_nat]
    decide
  · exact Nat.le_of_eq hactive

end BlockDiagram.Layout
