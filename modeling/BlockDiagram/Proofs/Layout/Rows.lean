import BlockDiagram.Proofs.Layout.Grid
import Mathlib.Data.List.Basic
import Mathlib.Order.Bounds.Basic

/-!
# Packed rows

Blocks are packed into rows when each of them stands right behind the one before it, and starts the
next row exactly if it does not fit into the rest of its own (`Packs`). Packed rows have no gaps and
start at the left (`Packing`), and no other way to break the blocks into rows needs fewer of them
(`Packs.isLeast`).
-/

namespace BlockDiagram.Layout

/-- The position of a cell in reading order, in rows of the given length. -/
def Cell.position (columns : Nat) (cell : Cell) : Nat :=
  cell.row * columns + cell.column

variable {β : Type} {span : β → Nat}

/-- Holds for blocks with their cells when `used` columns of a row are taken in front of them. Each
block stands behind them if its span is left there, and at the start of the next row otherwise. -/
inductive Packs (span : β → Nat) (active : Nat) : Nat → Nat → List (β × Cell) → Prop where
  | done {row used : Nat} : Packs span active row used []
  | same {row used : Nat} {b : β} {rest : List (β × Cell)} (hspan : used + span b ≤ active)
      (h : Packs span active row (used + span b) rest) :
      Packs span active row used ((b, ⟨used, row⟩) :: rest)
  | next {row used : Nat} {b : β} {rest : List (β × Cell)} (hfull : active < used + span b)
      (hspan : span b ≤ active) (h : Packs span active (row + 1) (span b) rest) :
      Packs span active row used ((b, ⟨0, row + 1⟩) :: rest)

/-- There is one way to pack blocks none of which is longer than a row. -/
theorem exists_packs {active : Nat} (row used : Nat) {blocks : List β}
    (hspans : ∀ b ∈ blocks, span b ≤ active) :
    ∃ cells, cells.length = blocks.length ∧ Packs span active row used (blocks.zip cells) := by
  induction blocks generalizing row used with
  | nil => exact ⟨[], rfl, .done⟩
  | cons b blocks ih =>
    obtain ⟨hspan, hspans⟩ := List.forall_mem_cons.1 hspans
    by_cases hfits : used + span b ≤ active
    · obtain ⟨cells, hlength, h⟩ := ih row (used + span b) hspans
      exact ⟨⟨used, row⟩ :: cells, congrArg Nat.succ hlength, .same hfits h⟩
    · obtain ⟨cells, hlength, h⟩ := ih (row + 1) (span b) hspans
      exact ⟨⟨0, row + 1⟩ :: cells, congrArg Nat.succ hlength, .next (Nat.lt_of_not_le hfits) hspan h⟩

namespace Packs

variable {active row used : Nat} {blocks : List (β × Cell)}

/-! ### Rows without gaps -/

/-- No block stands out of its row. -/
theorem inside (h : Packs span active row used blocks) :
    ∀ b ∈ blocks, b.2.column + span b.1 ≤ active := by
  induction h with
  | done => exact List.forall_mem_nil _
  | same hspan h ih => exact List.forall_mem_cons.2 ⟨hspan, ih⟩
  | next hfull hspan h ih =>
    refine List.forall_mem_cons.2 ⟨?_, ih⟩
    rwa [Nat.zero_add]

/-- No block stands in front of the columns that are taken. -/
theorem behind (h : Packs span active row used blocks) :
    ∀ b ∈ blocks, row < b.2.row ∨ row = b.2.row ∧ used ≤ b.2.column := by
  induction h with
  | done => exact List.forall_mem_nil _
  | same hspan h ih =>
    refine List.forall_mem_cons.2 ⟨.inr ⟨rfl, Nat.le_refl _⟩, fun b hb ↦ ?_⟩
    have := ih b hb
    omega
  | next hfull hspan h ih =>
    refine List.forall_mem_cons.2 ⟨.inl (Nat.lt_succ_self _), fun b hb ↦ ?_⟩
    have := ih b hb
    omega

/-- A block ends in front of all later ones. -/
theorem apart (h : Packs span active row used blocks) :
    blocks.Pairwise fun a b ↦
      a.2.row < b.2.row ∨ a.2.row = b.2.row ∧ a.2.column + span a.1 ≤ b.2.column := by
  induction h with
  | done => exact List.Pairwise.nil
  | same hspan h ih => exact ih.cons h.behind
  | next hfull hspan h ih =>
    refine ih.cons fun b hb ↦ ?_
    have := h.behind b hb
    dsimp only
    omega

/-- In front of a block there are, in its row, just the columns of those before it. -/
theorem column_eq (h : Packs span active row used blocks) {before after : List (β × Cell)}
    {e : β × Cell} (heq : blocks = before ++ e :: after) :
    e.2.column = (if e.2.row = row then used else 0) +
      ((before.filter fun b ↦ b.2.row = e.2.row).map fun b ↦ span b.1).sum := by
  induction h generalizing before with
  | done => exact absurd heq.symm (by simp)
  | @same row used b rest hspan h ih =>
    cases before with
    | nil =>
      obtain ⟨rfl, -⟩ := List.cons.inj heq
      simp
    | cons first before =>
      obtain ⟨rfl, hrest⟩ := List.cons.inj heq
      rw [ih hrest, List.filter_cons]
      by_cases hrow : e.2.row = row
      · simp [hrow, Nat.add_assoc]
      · simp [hrow, Ne.symm hrow]
  | @next row used b rest hfull hspan h ih =>
    cases before with
    | nil =>
      obtain ⟨rfl, -⟩ := List.cons.inj heq
      simp
    | cons first before =>
      obtain ⟨rfl, hrest⟩ := List.cons.inj heq
      have hbehind := h.behind e (hrest ▸ List.mem_append_right _ List.mem_cons_self)
      have hlater : e.2.row ≠ row := by omega
      rw [ih hrest, List.filter_cons, if_neg hlater]
      by_cases hrow : e.2.row = row + 1
      · simp [hrow]
      · simp [hrow, Ne.symm hrow]

/-- Every later row up to that of a block starts with a block. -/
theorem exists_start (h : Packs span active row used blocks) :
    ∀ b ∈ blocks, ∀ n, row < n → n ≤ b.2.row → ∃ e ∈ blocks, e.2 = ⟨0, n⟩ := by
  induction h with
  | done => exact List.forall_mem_nil _
  | same hspan h ih =>
    refine List.forall_mem_cons.2 ⟨fun n hlt hle ↦ ?_, fun b hb n hlt hle ↦ ?_⟩
    · exact absurd hle (Nat.not_le_of_lt hlt)
    · obtain ⟨e, he, hstart⟩ := ih b hb n hlt hle
      exact ⟨e, List.mem_cons_of_mem _ he, hstart⟩
  | @next row used first rest hfull hspan h ih =>
    have hnext : ∃ e ∈ (first, Cell.mk 0 (row + 1)) :: rest, e.2 = ⟨0, row + 1⟩ :=
      ⟨_, List.mem_cons_self, rfl⟩
    refine List.forall_mem_cons.2 ⟨fun n hlt hle ↦ ?_, fun b hb n hlt hle ↦ ?_⟩
    · obtain rfl : n = row + 1 := Nat.le_antisymm hle hlt
      exact hnext
    · rcases Nat.eq_or_lt_of_le (Nat.succ_le_of_lt hlt) with rfl | hlater
      · exact hnext
      · obtain ⟨e, he, hstart⟩ := ih b hb n hlater hle
        exact ⟨e, List.mem_cons_of_mem _ he, hstart⟩

/-- The first block starts the first row. -/
theorem head_eq {first : β × Cell} (h : Packs span active 0 0 (first :: blocks)) :
    first.2 = ⟨0, 0⟩ := by
  cases h with
  | same hspan h => rfl
  | next hfull hspan h => omega

/-- Blocks that all fit into the rest of a row stay in it. -/
theorem row_eq (h : Packs span active row used blocks)
    (hfits : used + (blocks.map fun b ↦ span b.1).sum ≤ active) : ∀ b ∈ blocks, b.2.row = row := by
  induction h with
  | done => exact List.forall_mem_nil _
  | same hspan h ih =>
    rw [List.map_cons, List.sum_cons] at hfits
    exact List.forall_mem_cons.2 ⟨rfl, ih (by dsimp only at hfits; omega)⟩
  | next hfull hspan h ih =>
    rw [List.map_cons, List.sum_cons] at hfits
    dsimp only at hfits
    omega

/-! ### The fewest rows -/

/-- A row of any other split ends no earlier than the packed row: when its blocks, up to the end of row
`n`, are packed, nothing has been put below row `n`. -/
theorem ahead {others rest : List (β × Cell)} {n before : Nat}
    (h : Packs span active row used (others ++ rest))
    (hahead : row < n ∨ row = n ∧ used ≤ before)
    (hsum : before + (others.map fun b ↦ span b.1).sum ≤ active) :
    (∀ b ∈ others, b.2.row ≤ n) ∧
      ∃ row' used', row' ≤ n ∧ Packs span active row' used' rest := by
  -- `before` columns of the other row are taken, no fewer than of the packed row if that is row `n`
  induction others generalizing row used before with
  | nil =>
    refine ⟨List.forall_mem_nil _, row, used, ?_, h⟩
    omega
  | cons b others ih =>
    rw [List.map_cons, List.sum_cons] at hsum
    rw [List.cons_append] at h
    cases h with
    | @same _ _ b _ hspan h =>
      dsimp only at hsum
      obtain ⟨hrows, hrest⟩ := @ih row _ (before + span b) h (by omega) (by omega)
      refine ⟨List.forall_mem_cons.2 ⟨?_, hrows⟩, hrest⟩
      dsimp only
      omega
    | @next _ _ b _ hfull hspan h =>
      dsimp only at hsum
      have hlt : row < n := by omega
      obtain ⟨hrows, hrest⟩ := @ih (row + 1) _ (before + span b) h (by omega) (by omega)
      exact ⟨List.forall_mem_cons.2 ⟨hlt, hrows⟩, hrest⟩

/-- No split of the blocks into rows has fewer rows. -/
theorem row_lt_of_flatten {rows : List (List Nat)} {n : Nat}
    (h : Packs span active row used blocks) (hahead : row < n ∨ row = n ∧ used = 0)
    (hrows : rows.flatten = blocks.map fun b ↦ span b.1) (hsums : ∀ r ∈ rows, r.sum ≤ active) :
    ∀ b ∈ blocks, b.2.row < n + rows.length := by
  induction rows generalizing row used blocks n with
  | nil =>
    obtain rfl : blocks = [] := List.map_eq_nil_iff.1 hrows.symm
    exact List.forall_mem_nil _
  | cons r rows ih =>
    obtain ⟨hsum, hsums⟩ := List.forall_mem_cons.1 hsums
    rw [List.flatten_cons] at hrows
    obtain ⟨others, rest, rfl, hothers, hrest⟩ := List.map_eq_append_iff.1 hrows.symm
    obtain ⟨hle, row', used', hrow, hpacks⟩ :=
      @ahead _ _ _ _ _ _ _ n 0 h (by omega) (by rw [hothers]; omega)
    have hlt := @ih row' used' rest (n + 1) hpacks (.inl (Nat.lt_succ_of_le hrow)) hrest.symm hsums
    rw [List.length_cons]
    refine List.forall_mem_append.2 ⟨fun b hb ↦ ?_, fun b hb ↦ ?_⟩
    · have := hle b hb
      omega
    · have := hlt b hb
      omega

/-- The packed rows themselves are such a split. -/
theorem exists_flatten (h : Packs span active row used blocks) (hused : used ≤ active) :
    ∃ first rest, (first :: rest).flatten = blocks.map (fun b ↦ span b.1) ∧
      used + first.sum ≤ active ∧ (∀ r ∈ rest, r.sum ≤ active) ∧
      blocks.getLast?.elim row (fun b ↦ b.2.row) = row + rest.length := by
  induction h with
  | done => exact ⟨[], [], rfl, hused, List.forall_mem_nil _, rfl⟩
  | @same row used b blocks hspan h ih =>
    obtain ⟨first, rest, hflatten, hfirst, hrest, hlast⟩ := ih hspan
    refine ⟨span b :: first, rest, ?_, ?_, hrest, ?_⟩
    · rw [List.flatten_cons] at hflatten ⊢
      rw [List.map_cons, ← hflatten, List.cons_append]
    · rw [List.sum_cons]
      omega
    · rw [← hlast, List.getLast?_cons]
      cases blocks.getLast? <;> rfl
  | @next row used b blocks hfull hspan h ih =>
    obtain ⟨first, rest, hflatten, hfirst, hrest, hlast⟩ := ih hspan
    refine ⟨[], (span b :: first) :: rest, ?_, hused, ?_, ?_⟩
    · rw [List.flatten_cons] at hflatten
      rw [List.map_cons, ← hflatten, List.flatten_cons, List.flatten_cons, List.nil_append,
        List.cons_append]
    · refine List.forall_mem_cons.2 ⟨?_, hrest⟩
      rwa [List.sum_cons]
    · rw [List.length_cons, Nat.add_comm rest.length, ← Nat.add_assoc, ← hlast, List.getLast?_cons]
      cases blocks.getLast? <;> rfl

/-! ### Positions -/

/-- What is left free at the end of a row is less than the block that did not fit there. -/
theorem position_add_le (h : Packs span active row used blocks) :
    ∀ b ∈ blocks, b.2.position active + span b.1 ≤
      row * active + used + 2 * (blocks.map fun b ↦ span b.1).sum := by
  induction h with
  | done => exact List.forall_mem_nil _
  | same hspan h ih =>
    rw [List.map_cons, List.sum_cons]
    refine List.forall_mem_cons.2 ⟨?_, fun b hb ↦ ?_⟩
    · dsimp only [Cell.position]
      omega
    · have := ih b hb
      dsimp only
      omega
  | next hfull hspan h ih =>
    rw [List.map_cons, List.sum_cons]
    rw [Nat.succ_mul] at ih
    refine List.forall_mem_cons.2 ⟨?_, fun b hb ↦ ?_⟩
    · dsimp only [Cell.position]
      rw [Nat.succ_mul]
      omega
    · have := ih b hb
      dsimp only
      omega

/-- As many rows as blocks are always enough. -/
theorem row_lt_length (h : Packs span active 0 0 blocks) : ∀ b ∈ blocks, b.2.row < blocks.length := by
  have hflatten : (blocks.map fun b ↦ [span b.1]).flatten = blocks.map fun b ↦ span b.1 := by
    rw [← List.flatMap_def, ← List.map_eq_flatMap]
  have hsums : ∀ r ∈ blocks.map fun b ↦ [span b.1], r.sum ≤ active := by
    refine List.forall_mem_map.2 fun b hb ↦ ?_
    rw [List.sum_singleton]
    exact Nat.le_trans (Nat.le_add_left _ _) (h.inside b hb)
  have hlt := h.row_lt_of_flatten (.inr ⟨rfl, rfl⟩) hflatten hsums
  rwa [List.length_map, Nat.zero_add] at hlt

/-- Short rows and few blocks keep all positions small, and so does a small total. -/
theorem position_lt (h : Packs span active 0 0 blocks) (hspans : ∀ b ∈ blocks, 1 ≤ span b.1)
    (hactive : active ≤ maxGridColumns)
    (hsize : blocks.length ≤ 2 ^ 32 ∨ (blocks.map fun b ↦ span b.1).sum ≤ 2 ^ 62) :
    ∀ b ∈ blocks, b.2.position active < 2 ^ 63 := by
  intro b hb
  rcases hsize with hlength | hsum
  · have hrow : b.2.row + 1 ≤ 2 ^ 32 := Nat.le_trans (h.row_lt_length b hb) hlength
    have hcolumn := h.inside b hb
    have hspan := hspans b hb
    have hle : (b.2.row + 1) * active ≤ 2 ^ 32 * maxGridColumns := Nat.mul_le_mul hrow hactive
    rw [Nat.succ_mul] at hle
    rw [Cell.position]
    have : 2 ^ 32 * maxGridColumns ≤ 2 ^ 63 := by decide
    omega
  · have hle := h.position_add_le b hb
    have hspan := hspans b hb
    omega

end Packs

/-! ### Packings -/

/-- Holds for cells that blocks with the given spans take row by row, without a gap. -/
structure Packing (columns : Nat) (spans : List Nat) (cells : List Cell) : Prop where
  length : cells.length = spans.length
  inside : ∀ b ∈ spans.zip cells, b.2.column + b.1 ≤ columns
  /-- The cells come in reading order. -/
  increasing : cells.Pairwise fun a b ↦ a.row < b.row ∨ a.row = b.row ∧ a.column < b.column
  apart : (spans.zip cells).Pairwise fun a b ↦
    a.2.row = b.2.row → a.2.column + a.1 ≤ b.2.column
  /-- In front of a block there are, in its row, just the columns of those before it. -/
  column_eq : ∀ before b after, spans.zip cells = before ++ b :: after →
    b.2.column = ((before.filter fun a ↦ a.2.row = b.2.row).map Prod.fst).sum
  /-- No row is empty in front. -/
  start : ∀ cell ∈ cells, ∀ row ≤ cell.row, ⟨0, row⟩ ∈ cells

/-- Holds for a way to break blocks into rows without changing their order. -/
def Splits (columns : Nat) (spans : List Nat) (rows : List (List Nat)) : Prop :=
  rows.flatten = spans ∧ ∀ row ∈ rows, row.sum ≤ columns

namespace Packs

variable {active : Nat} {spans : List Nat} {cells : List Cell}

/-- Blocks that are packed into an empty grid are a packing of it. -/
theorem packing (h : Packs id active 0 0 (spans.zip cells)) (hlength : cells.length = spans.length)
    (hspans : ∀ span ∈ spans, 1 ≤ span) : Packing active spans cells := by
  have hsnd : (spans.zip cells).map Prod.snd = cells := List.map_snd_zip (Nat.le_of_eq hlength)
  refine ⟨hlength, h.inside, ?_, ?_, fun before b after heq ↦ ?_, fun cell hcell row hrow ↦ ?_⟩
  · rw [← hsnd, List.pairwise_map]
    refine h.apart.imp_of_mem fun {a b} ha _ hab ↦ ?_
    have := hspans a.1 (List.of_mem_zip ha).1
    simp only [id] at hab
    omega
  · refine h.apart.imp fun {a b} hab hrow ↦ ?_
    simp only [id] at hab
    omega
  · rw [h.column_eq heq, ite_self, Nat.zero_add]
    rfl
  · rw [← hsnd] at hcell ⊢
    obtain ⟨b, hb, rfl⟩ := List.mem_map.1 hcell
    rcases Nat.eq_zero_or_pos row with rfl | hpos
    · generalize spans.zip cells = blocks at h hb ⊢
      cases blocks with
      | nil => cases hb
      | cons first rest =>
        rw [List.map_cons, h.head_eq]
        exact List.mem_cons_self
    · obtain ⟨e, he, hstart⟩ := h.exists_start b hb row hpos hrow
      exact List.mem_map.2 ⟨e, he, hstart⟩

/-- Packed blocks take the fewest rows. -/
theorem isLeast (h : Packs id active 0 0 (spans.zip cells)) (hlength : cells.length = spans.length)
    (hne : spans ≠ []) :
    IsLeast {n | ∃ rows, Splits active spans rows ∧ rows.length = n}
      (Grid.ofCells active cells).rows := by
  have hfst : (spans.zip cells).map (fun b ↦ id b.1) = spans :=
    List.map_fst_zip (Nat.le_of_eq hlength.symm)
  have hsnd : (spans.zip cells).map Prod.snd = cells := List.map_snd_zip (Nat.le_of_eq hlength)
  have hblocks : spans.zip cells ≠ [] := by
    rw [← hfst] at hne
    exact mt (congrArg (List.map fun b ↦ id b.1)) hne
  have hlast : cells.getLast? = some ((spans.zip cells).getLast hblocks).2 := by
    have hmap := List.getLast?_map (f := Prod.snd) (l := spans.zip cells)
    rw [hsnd, List.getLast?_eq_some_getLast hblocks] at hmap
    exact hmap
  have hrows : (Grid.ofCells active cells).rows = ((spans.zip cells).getLast hblocks).2.row + 1 := by
    rw [Grid.ofCells, hlast]
    rfl
  rw [hrows]
  constructor
  · obtain ⟨first, rest, hflatten, hfirst, hrest, hlast⟩ := h.exists_flatten (Nat.zero_le _)
    rw [List.getLast?_eq_some_getLast hblocks, Option.elim_some, Nat.zero_add] at hlast
    rw [hfst] at hflatten
    rw [Nat.zero_add] at hfirst
    exact ⟨first :: rest, ⟨hflatten, List.forall_mem_cons.2 ⟨hfirst, hrest⟩⟩, by
      rw [List.length_cons, hlast]⟩
  · rintro n ⟨rows, ⟨hflatten, hsums⟩, rfl⟩
    have hlt := h.row_lt_of_flatten (.inr ⟨rfl, rfl⟩) (hflatten.trans hfst.symm) hsums
      _ (List.getLast_mem hblocks)
    omega

end Packs

end BlockDiagram.Layout
