import BlockDiagram.Proofs.Document.Parsed
import BlockDiagram.Proofs.Layout.Exact

/-!
# Separation of boxes

In exact arithmetic the boxes of the blocks inside a composite keep the padding to its border and to
each other, next to each other in a row and above each other in different rows (`Spaced`). So the
boxes of two blocks overlap only when one of the blocks is inside the other (`separates_of_arrange`).
-/

namespace BlockDiagram

namespace Bounds

/-- Holds for a box in another one that keeps a distance to all of its sides. -/
structure LiesIn (a b : Bounds ℚ) (distance : ℚ) : Prop where
  minX : b.minX + distance ≤ a.minX
  minY : b.minY + distance ≤ a.minY
  maxX : a.maxX + distance ≤ b.maxX
  maxY : a.maxY + distance ≤ b.maxY

/-- Holds for the points inside a box. -/
structure Surrounds (a : Bounds ℚ) (p : Point ℚ) : Prop where
  minX : a.minX < p.x
  minY : a.minY < p.y
  maxX : p.x < a.maxX
  maxY : p.y < a.maxY

/-- Holds when there is a point inside two boxes. -/
def Overlaps (a b : Bounds ℚ) : Prop :=
  ∃ p, a.Surrounds p ∧ b.Surrounds p

/-- Whatever is inside the inner box is inside the outer one. -/
theorem LiesIn.surrounds {a b : Bounds ℚ} {distance : ℚ} {p : Point ℚ}
    (h : a.LiesIn b distance) (hdistance : 0 ≤ distance) (hp : a.Surrounds p) : b.Surrounds p where
  minX := by linarith [h.minX, hp.minX]
  minY := by linarith [h.minY, hp.minY]
  maxX := by linarith [h.maxX, hp.maxX]
  maxY := by linarith [h.maxY, hp.maxY]

end Bounds

namespace Layout

open Scalar

variable {d : Document} {padding left top height width : ℚ} {sizes labels : Sizes ℚ}
  {centers : Centers ℚ}

/-- The box of a block. -/
def boxOf (sizes : Sizes ℚ) (centers : Centers ℚ) (id : BlockId) : Bounds ℚ :=
  .around ((centers.get? id).getD .origin) (sizeOf sizes id)

/-- The box around a center reaches half of the size in all four directions. -/
theorem around_rat (center : Point ℚ) (size : Size ℚ) :
    Bounds.around center size = ⟨center.x - size.width / 2, center.y - size.height / 2,
      center.x + size.width / 2, center.y + size.height / 2⟩ := by
  rw [Bounds.around, two_rat]

/-- The box of a block lies around its center. -/
theorem boxOf_eq {id : BlockId} {center : Point ℚ} (h : centers.get? id = some center) :
    boxOf sizes centers id = ⟨center.x - (sizeOf sizes id).width / 2,
      center.y - (sizeOf sizes id).height / 2, center.x + (sizeOf sizes id).width / 2,
      center.y + (sizeOf sizes id).height / 2⟩ := by
  rw [boxOf, h, Option.getD_some, around_rat]

private theorem nextCenter_rat (cursor : Cursor ℚ) (cell : Cell) :
    nextCenter padding left top height cursor cell width =
      ⟨(if cell.row = cursor.row then cursor.x else left) + padding + width / 2,
        top + cell.row * (height + padding) + height / 2 + padding⟩ := by
  rw [nextCenter, ofNat_rat, two_rat]

/-! ### Rows -/

/-- Holds for blocks with their cells when `used` columns of a row are taken in front of them, and
`pitch` is the distance from a column to the next one. -/
structure InRows (sizes : Sizes ℚ) (centers : Centers ℚ) (padding left pitch : ℚ)
    (active row used : Nat) (cells : List (BlockId × Cell)) : Prop where
  left_le : ∀ e ∈ cells, left + padding ≤ (boxOf sizes centers e.1).minX
  le_right : ∀ e ∈ cells, (boxOf sizes centers e.1).maxX ≤ left + active * pitch
  behind : ∀ e ∈ cells, e.2.row = row →
    left + used * pitch + padding ≤ (boxOf sizes centers e.1).minX
  apart : cells.Pairwise fun a b ↦ a.2.row = b.2.row →
    (boxOf sizes centers a.1).maxX + padding ≤ (boxOf sizes centers b.1).minX

/-- A block that takes the columns behind the first `before` ones of its row. -/
theorem InRows.cons {pitch : ℚ} {active row used before span : Nat} {child : BlockId} {cell : Cell}
    {rest : List (BlockId × Cell)}
    (h : InRows sizes centers padding left pitch active cell.row (before + span) rest)
    (hpitch : 0 ≤ pitch) (hspan : before + span ≤ active)
    (hminX : (boxOf sizes centers child).minX = left + before * pitch + padding)
    (hmaxX : (boxOf sizes centers child).maxX = left + (before + span : Nat) * pitch)
    (hused : ∀ e ∈ (child, cell) :: rest, e.2.row = row → cell.row = row ∧ used ≤ before) :
    InRows sizes centers padding left pitch active row used ((child, cell) :: rest) := by
  have hmono : ∀ {m n : Nat}, m ≤ n → (m : ℚ) * pitch ≤ n * pitch := fun hle ↦
    mul_le_mul_of_nonneg_right (Nat.cast_le.2 hle) hpitch
  refine ⟨List.forall_mem_cons.2 ⟨?_, h.left_le⟩, List.forall_mem_cons.2 ⟨?_, h.le_right⟩,
    List.forall_mem_cons.2 ⟨fun hrow ↦ ?_, fun e he hrow ↦ ?_⟩, h.apart.cons fun e he hrow ↦ ?_⟩
  · have := hmono (Nat.zero_le before)
    rw [Nat.cast_zero, zero_mul] at this
    linarith
  · have := hmono hspan
    linarith
  · have := hmono (hused _ List.mem_cons_self hrow).2
    linarith
  · obtain ⟨hcell, hle⟩ := hused e (List.mem_cons_of_mem _ he) hrow
    have := hmono (Nat.le_add_right_of_le (k := span) hle)
    have := h.behind e he (hrow.trans hcell.symm)
    linarith
  · have := h.behind e he hrow.symm
    dsimp only
    linarith

/-- Where a child stands in its row, behind the columns in front of it, and where the next one does. -/
theorem columns_of_center {child : BlockId} {cell : Cell} {cursor : Cursor ℚ} {before : Nat}
    (hcenter : centers.get? child =
      some (nextCenter padding left top height cursor cell (sizeOf sizes child).width))
    (hstart : (if cell.row = cursor.row then cursor.x else left) =
      left + before * (width + padding))
    (hwidth : (sizeOf sizes child).width = spanWidth padding width (spanOf d child)) :
    (boxOf sizes centers child).minX = left + before * (width + padding) + padding ∧
      (boxOf sizes centers child).maxX =
        left + (before + spanOf d child : Nat) * (width + padding) ∧
      (nextCenter padding left top height cursor cell (sizeOf sizes child).width).x +
        (sizeOf sizes child).width / 2 =
          left + (before + spanOf d child : Nat) * (width + padding) := by
  rw [boxOf_eq hcenter, nextCenter_rat, hstart, hwidth, spanWidth_rat]
  dsimp only
  push_cast
  refine ⟨?_, ?_, ?_⟩ <;> ring

/-- The children of a composite stand in its rows. -/
theorem inRows_of_fits {active row used : Nat} {cells : List (BlockId × Cell)}
    (h : Fits (spanOf d) active row used cells) (hpitch : 0 ≤ width + padding)
    (hwidths : ∀ e ∈ cells, (sizeOf sizes e.1).width = spanWidth padding width (spanOf d e.1))
    (hplaces : ∀ place ∈ placesFrom padding left top height sizes
        ⟨left + used * (width + padding), row⟩ cells, centers.get? place.1 = some place.2) :
    InRows sizes centers padding left (width + padding) active row used cells := by
  induction h with
  | done =>
    exact ⟨List.forall_mem_nil _, List.forall_mem_nil _, List.forall_mem_nil _, List.Pairwise.nil⟩
  | @same row used child cell rest hrow hspan h ih =>
    obtain ⟨hwidth, hwidths⟩ := List.forall_mem_cons.1 hwidths
    rw [placesFrom, two_rat] at hplaces
    obtain ⟨hcenter, hplaces⟩ := List.forall_mem_cons.1 hplaces
    obtain ⟨hminX, hmaxX, hnext⟩ := columns_of_center hcenter (if_pos hrow) hwidth
    rw [hnext, hrow] at hplaces
    have hrest := ih hwidths hplaces
    rw [← hrow] at hrest
    exact hrest.cons hpitch hspan hminX hmaxX fun _ _ _ ↦ ⟨hrow, le_refl _⟩
  | @next row used child cell rest hrow hspan h ih =>
    obtain ⟨hwidth, hwidths⟩ := List.forall_mem_cons.1 hwidths
    rw [placesFrom, two_rat] at hplaces
    obtain ⟨hcenter, hplaces⟩ := List.forall_mem_cons.1 hplaces
    have hstart : (if cell.row = row then left + used * (width + padding) else left) =
        left + (0 : Nat) * (width + padding) := by
      rw [if_neg (Nat.ne_of_gt hrow), Nat.cast_zero, zero_mul, add_zero]
    obtain ⟨hminX, hmaxX, hnext⟩ := columns_of_center hcenter hstart hwidth
    rw [hnext] at hplaces
    have hrest := ih hwidths (by rwa [Nat.zero_add] at hplaces)
    rw [← Nat.zero_add (spanOf d child)] at hrest hspan
    refine hrest.cons hpitch hspan hminX hmaxX fun e he heq ↦ ?_
    have hle : ∀ e ∈ (child, cell) :: rest, cell.row ≤ e.2.row :=
      List.forall_mem_cons.2 ⟨Nat.le_refl _, h.row_le⟩
    have := hle e he
    omega

/-- How far down a child stands depends on its row alone. -/
theorem center_of_places {cursor : Cursor ℚ} {cells : List (BlockId × Cell)}
    (hplaces : ∀ place ∈ placesFrom padding left top height sizes cursor cells,
      centers.get? place.1 = some place.2) :
    ∀ e ∈ cells, ∃ x, centers.get? e.1 =
      some ⟨x, top + e.2.row * (height + padding) + height / 2 + padding⟩ := by
  induction cells generalizing cursor with
  | nil => exact List.forall_mem_nil _
  | cons e cells ih =>
    rw [placesFrom] at hplaces
    obtain ⟨hcenter, hplaces⟩ := List.forall_mem_cons.1 hplaces
    rw [nextCenter_rat] at hcenter
    exact List.forall_mem_cons.2 ⟨⟨_, hcenter⟩, ih hplaces⟩

/-- A child that is no taller than its row stands between the rows around it. -/
theorem levels_of_places {cursor : Cursor ℚ} {cells : List (BlockId × Cell)}
    (hplaces : ∀ place ∈ placesFrom padding left top height sizes cursor cells,
      centers.get? place.1 = some place.2)
    (hheights : ∀ e ∈ cells, ¬ d.IsSpacer e.1 → (sizeOf sizes e.1).height ≤ height) :
    ∀ e ∈ cells, ¬ d.IsSpacer e.1 →
      top + e.2.row * (height + padding) + padding ≤ (boxOf sizes centers e.1).minY ∧
        (boxOf sizes centers e.1).maxY ≤ top + (e.2.row + 1 : Nat) * (height + padding) := by
  intro e he hspacer
  obtain ⟨x, hcenter⟩ := center_of_places hplaces e he
  have hle := hheights e he hspacer
  rw [boxOf_eq hcenter]
  dsimp only
  push_cast
  constructor <;> linarith

/-- The rows of a composite have room for all of its children that are no spacers. -/
theorem rowHeight_le_iff {children : List BlockId} {limit : ℚ} :
    rowHeight d sizes children ≤ limit ↔ 0 ≤ limit ∧
      ∀ child ∈ children, ¬ d.IsSpacer child → (sizeOf sizes child).height ≤ limit := by
  rw [rowHeight, zero_rat]
  refine foldl_max_le_iff.trans (and_congr_right fun _ ↦ ?_)
  simp only [List.forall_mem_map, List.mem_filter, Bool.not_eq_true', and_imp, ← isSpacer_iff,
    Bool.not_eq_true]

/-- Holds when the children of a composite keep the padding to each other and to the sides of a
room. -/
structure Spaced (d : Document) (padding : ℚ) (sizes : Sizes ℚ) (centers : Centers ℚ)
    (id : BlockId) (room : Bounds ℚ) (grid : Grid) : Prop where
  gridOf_eq : gridOf d id = .ok grid
  length : grid.cells.length = (d.children id).length
  inside : ∀ child ∈ d.children id, ¬ d.IsSpacer child →
    (boxOf sizes centers child).LiesIn room padding
  apart : ((d.children id).zip grid.cells).Pairwise fun a b ↦
    ¬ d.IsSpacer a.1 → ¬ d.IsSpacer b.1 →
      if a.2.row = b.2.row then
        (boxOf sizes centers a.1).maxX + padding ≤ (boxOf sizes centers b.1).minX
      else (boxOf sizes centers a.1).maxY + padding ≤ (boxOf sizes centers b.1).minY

/-- The children of a sized composite stand in its rows once they are placed. -/
theorem inRows_of_placed {id : BlockId} {grid : Grid} {cell : Size ℚ} (hpadding : 0 ≤ padding)
    (hsized : Sized d padding sizes id grid cell)
    (hplaces : ∀ place ∈ placesFrom padding left top height sizes ⟨left, 0⟩
      ((d.children id).zip grid.cells), centers.get? place.1 = some place.2) :
    InRows sizes centers padding left (cell.width + padding) grid.columns 0 0
      ((d.children id).zip grid.cells) := by
  have hwidths : ∀ e ∈ (d.children id).zip grid.cells,
      (sizeOf sizes e.1).width = spanWidth padding cell.width (spanOf d e.1) := fun e he ↦
    hsized.child_width e.1 (List.of_mem_zip he).1
  have hpitch : 0 ≤ cell.width + padding := add_nonneg hsized.width_nonneg hpadding
  have hstart : left = left + (0 : Nat) * (cell.width + padding) := by
    rw [Nat.cast_zero, zero_mul, add_zero]
  exact inRows_of_fits hsized.fills.fits hpitch hwidths (by rwa [← hstart])

/-- The children of a sized composite are spaced once they are placed. -/
theorem spaced_of_placed {id : BlockId} {grid : Grid} {cell : Size ℚ} (hpadding : 0 ≤ padding)
    (hsized : Sized d padding sizes id grid cell) (h : Placed d padding sizes centers id left) :
    Spaced d padding sizes centers id ⟨left, topOf sizes centers id,
      left + (sizeOf sizes id).width, topOf sizes centers id + (sizeOf sizes id).height⟩ grid := by
  obtain ⟨grid', hgrid', hplaces⟩ := h
  obtain rfl : grid' = grid := Except.ok.inj (hgrid'.symm.trans hsized.gridOf_eq)
  have hrows := inRows_of_placed hpadding hsized hplaces
  obtain ⟨hheight, hheights⟩ := rowHeight_le_iff.1 (le_refl (rowHeight d sizes (d.children id)))
  have hcell : rowHeight d sizes (d.children id) ≤ cell.height :=
    rowHeight_le_iff.2
      ⟨hsized.height_nonneg, fun child hchild _ ↦ (hsized.child_height child hchild).2⟩
  have hlevels := levels_of_places hplaces fun e he hspacer ↦
    hheights e.1 (List.of_mem_zip he).1 hspacer
  have hmono : ∀ {m n : Nat}, m ≤ n →
      (m : ℚ) * (rowHeight d sizes (d.children id) + padding) ≤
        n * (rowHeight d sizes (d.children id) + padding) := fun hle ↦
    mul_le_mul_of_nonneg_right (Nat.cast_le.2 hle) (add_nonneg hheight hpadding)
  refine ⟨hgrid', hsized.fills.length, fun child hchild hspacer ↦ ?_, ?_⟩
  · have hfst := List.map_fst_zip (Nat.le_of_eq hsized.fills.length.symm)
    rw [← hfst] at hchild
    obtain ⟨e, he, rfl⟩ := List.mem_map.1 hchild
    obtain ⟨hminY, hmaxY⟩ := hlevels e he hspacer
    have hleft := hrows.left_le e he
    have hright := hrows.le_right e he
    have hrow := hmono (hsized.fills.row_lt e.2 (List.of_mem_zip he).2)
    have hfirst := hmono (Nat.zero_le e.2.row)
    have hrooms : (grid'.rows : ℚ) * (rowHeight d sizes (d.children id) + padding) ≤
        grid'.rows * (cell.height + padding) :=
      mul_le_mul_of_nonneg_left (by linarith) (Nat.cast_nonneg _)
    rw [Nat.cast_zero, zero_mul] at hfirst
    rw [hsized.size]
    exact ⟨hleft, by dsimp only; linarith, by dsimp only; linarith, by dsimp only; linarith⟩
  · refine (hrows.apart.and hsized.fills.fits.pairwise_row_le).imp_of_mem ?_
    rintro a b ha hb ⟨hapart, hle⟩ hspacer hspacer'
    split
    · next heq => exact hapart heq
    · next hne =>
      have hmaxY := (hlevels a ha hspacer).2
      have hminY := (hlevels b hb hspacer').1
      have hnext := hmono (Nat.lt_of_le_of_ne hle hne)
      linarith

/-- The room of a composite that starts its rows at its own left side is its box. -/
theorem room_eq_boxOf {id : BlockId} {center : Point ℚ} (h : centers.get? id = some center) :
    (⟨center.x - (sizeOf sizes id).width / 2, topOf sizes centers id,
      center.x - (sizeOf sizes id).width / 2 + (sizeOf sizes id).width,
      topOf sizes centers id + (sizeOf sizes id).height⟩ : Bounds ℚ) = boxOf sizes centers id := by
  rw [boxOf_eq h, topOf, h, Option.getD_some, two_rat]
  congr 1 <;> ring

/-! ### Overlaps -/

/-- Blocks side by side do not overlap. -/
theorem Spaced.not_overlaps {id : BlockId} {room : Bounds ℚ} {grid : Grid} (hpadding : 0 ≤ padding)
    (h : Spaced d padding sizes centers id room grid) :
    (d.children id).Pairwise fun a b ↦ ¬ d.IsSpacer a → ¬ d.IsSpacer b →
      ¬ (boxOf sizes centers a).Overlaps (boxOf sizes centers b) := by
  have hfst := List.map_fst_zip (Nat.le_of_eq h.length.symm)
  rw [← hfst, List.pairwise_map]
  refine h.apart.imp fun {a b} hapart hspacer hspacer' ↦ ?_
  rintro ⟨p, hp, hp'⟩
  have hapart := hapart hspacer hspacer'
  split at hapart
  · linarith [hp.maxX, hp'.minX]
  · linarith [hp.maxY, hp'.minY]

variable {t : Tree} {levels : Nat}

/-- Spacers hold nothing, so a tree with another block in it has a proper top. -/
theorem not_isSpacer_id (hd : d.Sound) (h : d.Shows levels t) {id : BlockId} (hid : id ∈ t.ids)
    (hspacer : ¬ d.IsSpacer id) : ¬ d.IsSpacer t.id := by
  intro htop
  have hempty := hd.spacer t.id htop
  rw [h.children_eq, List.map_eq_nil_iff] at hempty
  rw [t.ids_eq_cons, hempty, List.flatMap_nil, List.mem_singleton] at hid
  exact hspacer (hid ▸ htop)

/-- Whatever is inside the box of a block is inside the boxes of those that enclose it. -/
theorem surrounds_of_shows (hd : d.Sound) (hpadding : 0 ≤ padding) (h : d.Shows levels t)
    (hinside : ∀ id ∈ t.ids, ∀ child ∈ d.children id, ¬ d.IsSpacer child →
      (boxOf sizes centers child).LiesIn (boxOf sizes centers id) padding)
    {p : Point ℚ} : ∀ id ∈ t.ids, ¬ d.IsSpacer id → (boxOf sizes centers id).Surrounds p →
      (boxOf sizes centers t.id).Surrounds p := by
  induction h with
  | leaf h =>
    intro id hid _ hp
    obtain rfl := List.mem_singleton.1 hid
    exact hp
  | @node levels id children h hchildren ih =>
    rw [Tree.ids_node] at hinside ⊢
    obtain ⟨htop, hbelow⟩ := List.forall_mem_cons.1 hinside
    refine List.forall_mem_cons.2 ⟨fun _ hp ↦ hp, fun other hother hspacer hp ↦ ?_⟩
    obtain ⟨child, hchild, hmem⟩ := List.mem_flatMap.1 hother
    have hheld : child.id ∈ d.children id := by
      rw [h]
      exact List.mem_map_of_mem hchild
    have hproper := not_isSpacer_id hd (hchildren child hchild) hmem hspacer
    have hp' := ih child hchild
      (fun id hid ↦ hbelow id (List.mem_flatMap.2 ⟨child, hchild, hid⟩)) other hmem hspacer hp
    exact (htop child.id hheld hproper).surrounds hpadding hp'

/-- Two blocks of a tree overlap only when one encloses the other, whatever the box of the top is. -/
theorem encloses_of_overlaps (hd : d.Sound) (hpadding : 0 ≤ padding) (h : d.Shows levels t)
    (hnodup : t.ids.Nodup)
    (hinside : ∀ id ∈ t.ids.tail, ∀ child ∈ d.children id, ¬ d.IsSpacer child →
      (boxOf sizes centers child).LiesIn (boxOf sizes centers id) padding)
    (hapart : ∀ id ∈ t.ids, (d.children id).Pairwise fun a b ↦ ¬ d.IsSpacer a → ¬ d.IsSpacer b →
      ¬ (boxOf sizes centers a).Overlaps (boxOf sizes centers b)) :
    ∀ x ∈ t.ids, ∀ y ∈ t.ids, x ≠ y → ¬ d.IsSpacer x → ¬ d.IsSpacer y →
      (boxOf sizes centers x).Overlaps (boxOf sizes centers y) → d.Encloses x y ∨ d.Encloses y x := by
  induction h with
  | leaf h =>
    intro x hx y hy hne
    rw [List.mem_singleton.1 hx, List.mem_singleton.1 hy] at hne
    exact absurd rfl hne
  | @node levels id children h hchildren ih =>
    have htop := (Document.Shows.node h hchildren).encloses
    rw [Tree.ids_node] at hnodup hinside hapart htop ⊢
    obtain ⟨hid, hbelow⟩ := List.nodup_cons.1 hnodup
    obtain ⟨hpairs, hapart⟩ := List.forall_mem_cons.1 hapart
    intro x hx y hy hne hspacerx hspacery hoverlaps
    rcases List.mem_cons.1 hx with rfl | hxbelow
    · exact .inl (htop y ((List.mem_cons.1 hy).resolve_left (Ne.symm hne)))
    rcases List.mem_cons.1 hy with rfl | hybelow
    · exact .inr (htop x hxbelow)
    obtain ⟨child, hchild, hxchild⟩ := List.mem_flatMap.1 hxbelow
    obtain ⟨other, hother, hyother⟩ := List.mem_flatMap.1 hybelow
    have hlies : ∀ tree ∈ children, ∀ id ∈ tree.ids, ∀ child ∈ d.children id,
        ¬ d.IsSpacer child →
          (boxOf sizes centers child).LiesIn (boxOf sizes centers id) padding :=
      fun tree htree id hid ↦ hinside id (List.mem_flatMap.2 ⟨tree, htree, hid⟩)
    by_cases heq : child = other
    · subst heq
      refine ih child hchild ((List.nodup_flatMap.1 hbelow).1 child hchild) ?_ ?_ x hxchild y
        hyother hne hspacerx hspacery hoverlaps
      · exact fun id hid ↦ hlies child hchild id (List.mem_of_mem_tail hid)
      · exact fun id hid ↦ hapart id (List.mem_flatMap.2 ⟨child, hchild, hid⟩)
    · -- the blocks are in the trees of two children, whose boxes do not overlap
      rw [h, List.pairwise_map] at hpairs
      have : Std.Symm fun a b : Tree ↦ ¬ d.IsSpacer a.id → ¬ d.IsSpacer b.id →
          ¬ (boxOf sizes centers a.id).Overlaps (boxOf sizes centers b.id) :=
        ⟨fun a b hab hb ha ⟨p, hp, hp'⟩ ↦ hab ha hb ⟨p, hp', hp⟩⟩
      have hnot := hpairs.forall hchild hother heq
        (not_isSpacer_id hd (hchildren child hchild) hxchild hspacerx)
        (not_isSpacer_id hd (hchildren other hother) hyother hspacery)
      obtain ⟨p, hp, hp'⟩ := hoverlaps
      refine absurd ⟨p, ?_, ?_⟩ hnot
      · exact surrounds_of_shows hd hpadding (hchildren child hchild) (hlies child hchild) x
          hxchild hspacerx hp
      · exact surrounds_of_shows hd hpadding (hchildren other hother) (hlies other hother) y
          hyother hspacery hp'

/-! ### Layouts -/

/-- The box of a block in a layout. -/
def box (layout : Layout ℚ) (id : BlockId) : Bounds ℚ :=
  boxOf layout.sizes layout.centers id

/-- Where the rows of a composite start: at its left side, or, for the root, so that its first child
starts at the origin. -/
def rowStart (layout : Layout ℚ) (padding : ℚ) (id : BlockId) : ℚ :=
  if id = BlockId.root then -padding else (layout.box id).minX

/-- In a layout every composite is sized, and its children are placed in its rows. -/
theorem placed_of_arrange {listing : List Mention} {layout : Layout ℚ} (hd : d.Sound)
    (hlisted : d.ListedBy listing) (hpadding : 0 ≤ padding)
    (harrange : arrange d padding labels = .ok layout) {id : BlockId} (hne : d.children id ≠ []) :
    ∃ grid cell, Sized d padding layout.sizes id grid cell ∧
      Placed d padding layout.sizes layout.centers id (layout.rowStart padding id) := by
  obtain ⟨sizes, hsizes, h⟩ := bind_eq_ok_iff.1 harrange
  obtain ⟨centers, hcenters, h⟩ := bind_eq_ok_iff.1 h
  cases h
  obtain ⟨t, hroot, ht⟩ := hlisted.exists_shows
  have hnodup := ht.nodup_ids hlisted hroot
  obtain ⟨child, hchild⟩ := List.exists_mem_of_ne_nil _ hne
  have hid : id ∈ t.ids := (ht.mem_ids_iff hlisted hroot).2
    (hlisted.rooted.composite_mem _ (hlisted.mem_children_iff.1 hchild))
  obtain ⟨grid, cell, hsized⟩ :=
    sized_of_sizesOf hd hpadding ht hroot hnodup hlisted.length_le_size hsizes id hid hne
  refine ⟨grid, cell, hsized, ?_⟩
  obtain ⟨hplaced, hplacedroot⟩ :=
    places_of_centersOf ht hroot hnodup hlisted.length_le_size hcenters
  rw [rowStart]
  split
  · next heq =>
    rw [heq] at hne ⊢
    exact hplacedroot hne
  · next heq =>
    obtain ⟨center, hcenter, hplacedid⟩ := hplaced id hid
    have hplacedid := hplacedid heq hne
    rw [box, boxOf_eq hcenter]
    rwa [two_rat] at hplacedid

/-- Holds for layouts that keep blocks apart. -/
structure Separates (layout : Layout ℚ) (d : Document) (padding : ℚ) : Prop where
  /-- The root and the blocks of the tree have a place. -/
  placed : ∀ id ∈ BlockId.root :: d.walk.map Block.id, ∃ center size,
    layout.centers.get? id = some center ∧ layout.sizes.get? id = some size
  /-- A composite keeps the padding between its border and its children. -/
  inside : ∀ id, id ≠ BlockId.root → ∀ child ∈ d.children id, ¬ d.IsSpacer child →
    (layout.box child).LiesIn (layout.box id) padding
  /-- The children of a composite keep the padding to each other. -/
  apart : ∀ id, d.children id ≠ [] → ∃ grid, gridOf d id = .ok grid ∧
    grid.cells.length = (d.children id).length ∧
    ((d.children id).zip grid.cells).Pairwise fun a b ↦
      ¬ d.IsSpacer a.1 → ¬ d.IsSpacer b.1 →
        if a.2.row = b.2.row then (layout.box a.1).maxX + padding ≤ (layout.box b.1).minX
        else (layout.box a.1).maxY + padding ≤ (layout.box b.1).minY
  /-- Only blocks inside each other overlap. -/
  overlap : ∀ x ∈ BlockId.root :: d.walk.map Block.id, ∀ y ∈ BlockId.root :: d.walk.map Block.id,
    x ≠ y → ¬ d.IsSpacer x → ¬ d.IsSpacer y → (layout.box x).Overlaps (layout.box y) →
      d.Encloses x y ∨ d.Encloses y x

/-- A layout of a sound document whose blocks form a tree keeps them apart. -/
theorem separates_of_arrange {listing : List Mention} {layout : Layout ℚ} (hd : d.Sound)
    (hlisted : d.ListedBy listing) (hpadding : 0 ≤ padding)
    (harrange : arrange d padding labels = .ok layout) : layout.Separates d padding := by
  obtain ⟨t, hroot, ht⟩ := hlisted.exists_shows
  have hnodup := ht.nodup_ids hlisted hroot
  have hmem : ∀ id, id ∈ t.ids ↔ id ∈ BlockId.root :: d.walk.map Block.id := by
    intro id
    rw [ht.mem_ids_iff hlisted hroot, List.mem_cons, List.mem_cons, (hlisted.map_id_walk hd).2]
  have hspaced : ∀ id, d.children id ≠ [] → ∃ room grid,
      Spaced d padding layout.sizes layout.centers id room grid ∧
        (id ≠ BlockId.root → room = layout.box id) := by
    intro id hne
    obtain ⟨grid, cell, hsized, hplaced⟩ := placed_of_arrange hd hlisted hpadding harrange hne
    refine ⟨_, grid, spaced_of_placed hpadding hsized hplaced, fun heq ↦ ?_⟩
    obtain ⟨child, hchild⟩ := List.exists_mem_of_ne_nil _ hne
    obtain ⟨center, -, hcenter, -⟩ := exists_place_of_arrange hlisted harrange id
      (hlisted.rooted.composite_mem _ (hlisted.mem_children_iff.1 hchild))
    rw [rowStart, if_neg heq, box, ← room_eq_boxOf hcenter]
  have hinside : ∀ id, id ≠ BlockId.root → ∀ child ∈ d.children id, ¬ d.IsSpacer child →
      (layout.box child).LiesIn (layout.box id) padding := by
    intro id hne child hchild hspacer
    obtain ⟨room, grid, hspacedid, hroom⟩ := hspaced id (List.ne_nil_of_mem hchild)
    rw [← hroom hne]
    exact hspacedid.inside child hchild hspacer
  refine ⟨fun id hid ↦ ?_, hinside, fun id hne ↦ ?_, fun x hx y hy ↦ ?_⟩
  · refine exists_place_of_arrange hlisted harrange id ?_
    rwa [← ht.mem_ids_iff hlisted hroot, hmem]
  · obtain ⟨room, grid, hspacedid, -⟩ := hspaced id hne
    exact ⟨grid, hspacedid.gridOf_eq, hspacedid.length, hspacedid.apart⟩
  · refine encloses_of_overlaps hd hpadding ht hnodup (fun id hid ↦ hinside id ?_) (fun id hid ↦ ?_)
      x ((hmem x).2 hx) y ((hmem y).2 hy)
    · rintro rfl
      exact hlisted.root (ht.mem_idsOf_of_mem_tail hlisted hid)
    · by_cases hne : d.children id = []
      · rw [hne]
        exact List.Pairwise.nil
      · obtain ⟨room, grid, hspacedid, -⟩ := hspaced id hne
        exact hspacedid.not_overlaps hpadding

/-- A valid padding is not negative. -/
theorem nonneg_of_isValidPadding (h : isValidPadding padding = true) : 0 ≤ padding := by
  rw [isValidPadding, zero_rat] at h
  simp only [Bool.and_eq_true, Bool.not_eq_true', decide_eq_false_iff_not] at h
  exact not_lt.1 h.2

/-- In exact arithmetic every layout of a source that does not declare the root keeps the blocks apart,
whatever the sizes of the labels are. There is such a layout if no column count is zero, for all but
gigantic documents. -/
theorem separates_of_parse {limit : Nat} {source : String} {ss : List (Source.Located Statement)}
    (hss : statements source = .ok ss) (hd : Document.parse limit source = .ok d)
    (hroot : BlockId.root ∉ namesIn ss) :
    (∀ (padding : ℚ) (labels : Sizes ℚ) (layout : Layout ℚ), 0 ≤ padding →
      arrange d padding labels = .ok layout → layout.Separates d padding) ∧
    (∀ (settings : Settings ℚ) (measure : String → Size ℚ) (layout : Layout ℚ),
      compute settings measure d = .ok layout → layout.Separates d settings.padding) ∧
    ((∀ id b, d.block? id = some b → b.columns ≠ 0) → d.size ≤ 2 ^ 29 →
      ∀ (padding : ℚ) (labels : Sizes ℚ), ∃ layout, arrange d padding labels = .ok layout) := by
  obtain ⟨mentions, h⟩ := Document.describes_of_parse hss hd hroot
  refine ⟨fun padding labels layout hpadding harrange ↦ ?_, fun settings measure layout hcompute ↦ ?_,
    fun hcolumns hsize padding labels ↦ ?_⟩
  · exact separates_of_arrange h.sound h.listed hpadding harrange
  · obtain ⟨hvalid, harrange⟩ := arrange_of_compute hcompute
    exact separates_of_arrange h.sound h.listed (nonneg_of_isValidPadding hvalid) harrange
  · exact exists_arrange h.sound h.listed hcolumns hsize padding labels

/-- Sizes for the labels of a composite that is opened twice: one for either block in it. -/
def reopenedLabels {α : Type} [Scalar α] : Sizes α :=
  (OrderedMap.empty.insert "a" ⟨30, 16⟩).insert "b" ⟨20, 16⟩

/-- In its layout the first block, which is as large as its label, keeps the padding. -/
theorem exists_liesIn_reopened : ∃ (ss : List (Source.Located Statement)) (d : Document)
    (layout : Layout ℚ), statements Document.reopened = .ok ss ∧
      Document.parse 9 Document.reopened = .ok d ∧ arrange d 8 reopenedLabels = .ok layout ∧
      layout.sizes.get? "a" = some ⟨30, 16⟩ ∧ layout.sizes.get? "g" = some ⟨84, 32⟩ ∧
      (layout.box "a").LiesIn (layout.box "g") 8 := by
  have hdecide : ((statementsAlong Document.reopenedRules Document.reopened).bind fun ss ↦
      (Builder.build 9 ss).toOption.map fun d ↦
        decide (BlockId.root ∉ namesIn ss ∧ "a" ∈ d.children "g") &&
          !(d.block? "a").any Block.isSpace &&
          (arrange d 8 reopenedLabels).toOption.any fun layout ↦
            decide (layout.sizes.get? "a" = some (⟨30, 16⟩ : Size ℚ)) &&
              decide (layout.sizes.get? "g" = some ⟨84, 32⟩)) = some true := by
    decide +kernel
  obtain ⟨ss, d, hss, -, hd, hresult⟩ := parse_of_along hdecide
  simp only [Bool.and_eq_true, decide_eq_true_eq, Option.any_eq_true] at hresult
  obtain ⟨⟨⟨hroot, hchild⟩, hspacer⟩, layout, hlayout, hsmall, hlarge⟩ := hresult
  have harrange := eq_ok_of_toOption hlayout
  have hinside := ((separates_of_parse hss hd hroot).1 8 _ layout (by norm_num) harrange).inside
  refine ⟨ss, d, layout, hss, hd, harrange, hsmall, hlarge,
    hinside "g" (by decide) "a" hchild ?_⟩
  rintro ⟨block, hblock, hspace⟩
  simp [hblock, Block.isSpace, hspace] at hspacer

end Layout

end BlockDiagram
