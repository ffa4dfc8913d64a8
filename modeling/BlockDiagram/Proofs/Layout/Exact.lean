import BlockDiagram.Proofs.Layout.Placement
import Mathlib.Algebra.Order.Field.Rat
import Mathlib.Data.Rat.Lemmas
import Mathlib.Tactic.FieldSimp
import Mathlib.Tactic.Linarith
import Mathlib.Tactic.Positivity
import Mathlib.Tactic.Ring

/-!
# Sizes in exact arithmetic

Rational numbers are scalars that round nothing. In them the cells of a composite only grow from the
first pass over the sizes to the second one, its size is exactly that of its cells, and every child is
as wide as the cells it takes and no taller than one of them (`Sized`, `sized_of_sizesOf`).
-/

namespace BlockDiagram

/-- The rational numbers are scalars that round nothing. -/
instance : Scalar ℚ where
  decidableLT := inferInstance
  decidableLE := inferInstance
  ofScientific := OfScientific.ofScientific
  larger := max
  smaller := min
  abs := abs
  isFinite _ := true

namespace Layout

open Scalar

/-- A natural number is itself among the rational numbers. -/
theorem ofNat_rat (n : Nat) : (ofNat n : ℚ) = n := by
  change Rat.ofScientific n false 0 = n
  rw [Rat.ofScientific_false_def]
  simp

/-- The literal for no length is zero. -/
theorem zero_rat : (@OfNat.ofNat ℚ 0 (Scalar.instOfNat 0)) = 0 :=
  ofNat_rat 0

private theorem one_rat : (@OfNat.ofNat ℚ 1 (Scalar.instOfNat 1)) = 1 :=
  ofNat_rat 1

/-- The literal that sizes are halved by is two. -/
theorem two_rat : (@OfNat.ofNat ℚ 2 (Scalar.instOfNat 2)) = 2 :=
  ofNat_rat 2

/-- The size of nothing is zero in both directions. -/
theorem zeroSize_rat : (Size.zero : Size ℚ) = ⟨0, 0⟩ := by
  rw [Size.zero, zero_rat]

/-- A block over several columns takes up the padding between them too. -/
theorem spanWidth_rat (padding width : ℚ) (span : Nat) :
    spanWidth padding width span = width * span + padding * (span - 1) := by
  rw [spanWidth, ofNat_rat, one_rat]

/-- A composite is as large as its cells with the padding around them. -/
theorem extent_rat (padding : ℚ) (plan : Plan ℚ) (cell : Size ℚ) :
    extent padding plan cell = ⟨plan.columns * (cell.width + padding) + padding,
      plan.rows * (cell.height + padding) + padding⟩ := rfl

/-! ### Fitting -/

private theorem stretched {n p w : ℚ} (hn : 0 < n) : n * ((w - n * p - p) / n + p) + p = w := by
  field_simp
  ring

private theorem le_stretched {n c p w : ℚ} (hn : 0 < n) (h : n * (c + p) + p ≤ w) :
    c ≤ (w - n * p - p) / n := by
  rw [le_div_iff₀ hn]
  linarith

/-- What is offered stretches the cells of a composite that is narrower by nature. -/
theorem stretchPlan_spec {padding : ℚ} {plan : Plan ℚ} {offered size cell : Size ℚ}
    (hcolumns : 0 < plan.columns) (hrows : 0 < plan.rows)
    (hoffered : (extent padding plan plan.cell).width < offered.width →
      (extent padding plan plan.cell).height ≤ offered.height)
    (h : stretchPlan padding plan offered = (size, cell)) :
    size = extent padding plan cell ∧ plan.cell.width ≤ cell.width ∧
      plan.cell.height ≤ cell.height ∧
      size.width = max (extent padding plan plan.cell).width offered.width ∧
      (size.height = (extent padding plan plan.cell).height ∨ size.height = offered.height) := by
  rw [stretchPlan] at h
  split at h
  · next hlt =>
    cases h
    have hle := hoffered hlt
    refine ⟨?_, le_stretched hcolumns hlt.le, le_stretched hrows hle, ?_, .inr rfl⟩
    · rw [extent_rat, stretched hcolumns, stretched hrows]
    · rw [max_eq_right hlt.le]
  · next hge =>
    cases h
    exact ⟨rfl, le_refl _, le_refl _, (max_eq_left (not_lt.1 hge)).symm, .inl rfl⟩

/-- A fitted composite is exactly as large as its cells, which are no smaller than by nature. -/
theorem fitPlan_spec {padding : ℚ} {plan : Plan ℚ} {offered existing size cell : Size ℚ}
    (hcolumns : 0 < plan.columns) (hrows : 0 < plan.rows)
    (hoffered : (extent padding plan plan.cell).width < offered.width →
      (extent padding plan plan.cell).height ≤ offered.height)
    (h : fitPlan padding plan offered existing = (size, cell)) :
    size = extent padding plan cell ∧ plan.cell.width ≤ cell.width ∧
      plan.cell.height ≤ cell.height ∧
      size.width = max (max (extent padding plan plan.cell).width offered.width) existing.width ∧
      (size.height = (extent padding plan plan.cell).height ∨ size.height = offered.height) := by
  rcases hstretch : stretchPlan padding plan offered with ⟨size₁, cell₁⟩
  obtain ⟨rfl, hwidth, hheight, hmax, halternatives⟩ :=
    stretchPlan_spec hcolumns hrows hoffered hstretch
  rw [fitPlan, hstretch] at h
  dsimp only at h
  rw [← hmax]
  split at h
  · next hlt =>
    cases h
    have hgrown := le_stretched hcolumns hlt.le
    refine ⟨?_, hwidth.trans hgrown, hheight, ?_, halternatives⟩
    · rw [extent_rat, extent_rat, stretched hcolumns]
    · rw [max_eq_right hlt.le]
  · next hge =>
    cases h
    exact ⟨rfl, hwidth, hheight, (max_eq_left (not_lt.1 hge)).symm, halternatives⟩

/-! ### Cells -/

variable {d : Document} {padding : ℚ} {labels sizes : Sizes ℚ} {plans : Plans ℚ}

/-- The cell for blocks with natural sizes has room for all of them that are no spacers. -/
theorem naturalCell_spec (natural : BlockId → Size ℚ) (cell : Size ℚ) (children : List BlockId) :
    cell.width ≤ (naturalCell d natural cell children).width ∧
      cell.height ≤ (naturalCell d natural cell children).height ∧
      ∀ child ∈ children, ¬ d.IsSpacer child →
        (natural child).width / spanOf d child ≤ (naturalCell d natural cell children).width ∧
          (natural child).height ≤ (naturalCell d natural cell children).height := by
  induction children generalizing cell with
  | nil => exact ⟨le_refl _, le_refl _, List.forall_mem_nil _⟩
  | cons child children ih =>
    obtain ⟨hwidth, hheight, hchildren⟩ :=
      ih (widened d cell child (spanOf d child) (natural child))
    rw [naturalCell, List.foldl_cons]
    change _ ≤ (naturalCell d natural _ children).width ∧
      _ ≤ (naturalCell d natural _ children).height ∧ _
    by_cases hspacer : d.IsSpacer child
    · rw [widened, if_pos (isSpacer_iff.2 hspacer)] at *
      exact ⟨hwidth, hheight, List.forall_mem_cons.2 ⟨fun h ↦ absurd hspacer h, hchildren⟩⟩
    · rw [widened, if_neg (mt isSpacer_iff.1 hspacer), ofNat_rat] at *
      refine ⟨(le_max_left _ _).trans hwidth, (le_max_left _ _).trans hheight,
        List.forall_mem_cons.2 ⟨fun _ ↦ ⟨?_, ?_⟩, hchildren⟩⟩
      · exact (le_max_right _ _).trans hwidth
      · exact (le_max_right _ _).trans hheight

/-- Holds for the plan of a composite whose cells have room for its children. -/
structure Roomy (d : Document) (padding : ℚ) (labels : Sizes ℚ) (plans : Plans ℚ) (id : BlockId)
    (plan : Plan ℚ) (grid : Grid) : Prop where
  nonempty : d.children id ≠ []
  gridOf_eq : gridOf d id = .ok grid
  fills : grid.Fills (spanOf d) (d.children id)
  columns : plan.columns = grid.columns
  rows : plan.rows = grid.rows
  width_nonneg : 0 ≤ plan.cell.width
  height_nonneg : 0 ≤ plan.cell.height
  child : ∀ child ∈ d.children id, ¬ d.IsSpacer child →
    (naturalOf padding labels plans child).width ≤ plan.cell.width * spanOf d child ∧
      (naturalOf padding labels plans child).height ≤ plan.cell.height

/-- The first pass over the sizes makes roomy plans. -/
theorem roomy_of_planned (hd : d.Sound) {id : BlockId} {plan : Plan ℚ} (hne : d.children id ≠ [])
    (h : Planned d padding labels plans id plan) :
    ∃ grid, Roomy d padding labels plans id plan grid := by
  obtain ⟨grid, hgrid, hcolumns, hrows⟩ := h.grid
  obtain ⟨hwidth, hheight, hchildren⟩ :=
    naturalCell_spec (d := d) (naturalOf padding labels plans) .zero (d.children id)
  rw [← h.cell] at hwidth hheight hchildren
  rw [zeroSize_rat] at hwidth hheight
  exact ⟨grid, {
    nonempty := hne
    gridOf_eq := hgrid
    fills := fills_of_gridOf hd hne hgrid
    columns := by rw [hcolumns, ofNat_rat]
    rows := by rw [hrows, ofNat_rat]
    width_nonneg := hwidth
    height_nonneg := hheight
    child := fun child hchild hspacer ↦ by
      obtain ⟨hle, hheight⟩ := hchildren child hchild hspacer
      have hspan : (0 : ℚ) < spanOf d child := Nat.cast_pos.2 (spanOf_bounds hd child).1
      exact ⟨(div_le_iff₀ hspan).1 hle, hheight⟩ }⟩

/-- Where all plans are made by the first pass, they are roomy. -/
theorem exists_roomy (hd : d.Sound)
    (hplanned : ∀ id plan, plans[id]? = some plan →
      d.children id ≠ [] ∧ Planned d padding labels plans id plan) (id : BlockId) (plan : Plan ℚ)
    (hplan : plans[id]? = some plan) : ∃ grid, Roomy d padding labels plans id plan grid := by
  obtain ⟨hne, h⟩ := hplanned id plan hplan
  exact roomy_of_planned hd hne h

namespace Roomy

variable {id : BlockId} {plan : Plan ℚ} {grid : Grid}

/-- A composite with children has columns. -/
theorem columns_pos (h : Roomy d padding labels plans id plan grid) : 0 < plan.columns := by
  rw [h.columns]
  exact Nat.cast_pos.2 h.fills.columns_pos

/-- A composite with children has rows. -/
theorem rows_pos (h : Roomy d padding labels plans id plan grid) : 0 < plan.rows := by
  rw [h.rows]
  exact Nat.cast_pos.2 (h.fills.rows_pos h.nonempty)

end Roomy

/-- Holds for a composite that is exactly as large as its cells, with children that are as wide as the
cells they take and no taller. -/
structure Sized (d : Document) (padding : ℚ) (sizes : Sizes ℚ) (id : BlockId) (grid : Grid)
    (cell : Size ℚ) : Prop where
  gridOf_eq : gridOf d id = .ok grid
  fills : grid.Fills (spanOf d) (d.children id)
  width_nonneg : 0 ≤ cell.width
  height_nonneg : 0 ≤ cell.height
  size : sizeOf sizes id = ⟨grid.columns * (cell.width + padding) + padding,
    grid.rows * (cell.height + padding) + padding⟩
  child_width : ∀ child ∈ d.children id,
    (sizeOf sizes child).width = spanWidth padding cell.width (spanOf d child)
  child_height : ∀ child ∈ d.children id,
    0 ≤ (sizeOf sizes child).height ∧ (sizeOf sizes child).height ≤ cell.height

/-- Padding only makes a block over several columns wider. -/
theorem le_spanWidth {width : ℚ} {span : Nat} (hpadding : 0 ≤ padding) (hspan : 1 ≤ span) :
    width * span ≤ spanWidth padding width span := by
  have hspan' : (1 : ℚ) ≤ span := Nat.one_le_cast.2 hspan
  rw [spanWidth_rat]
  nlinarith

/-- A child without a width has a cell without one. -/
theorem stamped_rat {cell : Size ℚ} {span : Nat} (hpadding : 0 ≤ padding) (hspan : 1 ≤ span)
    (hwidth : 0 ≤ cell.width) :
    stamped padding cell span = ⟨spanWidth padding cell.width span, cell.height⟩ := by
  have hle : cell.width * span ≤ spanWidth padding cell.width span := le_spanWidth hpadding hspan
  have hspan' : (1 : ℚ) ≤ span := Nat.one_le_cast.2 hspan
  rw [stamped]
  split
  · rfl
  · next hzero =>
    have hzero' : spanWidth padding cell.width span = 0 := by
      simpa [zero_rat] using hzero
    have hcell : cell.width = 0 := by nlinarith
    rw [hzero', ← hcell]

/-- A child of a composite with roomy cells is as wide as the cells it takes. -/
theorem size_of_fitted_child {cell : Size ℚ} {child : Tree} (hd : d.Sound) (hpadding : 0 ≤ padding)
    (hplans : ∀ id plan, plans[id]? = some plan → ∃ grid, Roomy d padding labels plans id plan grid)
    (hwidth : 0 ≤ cell.width) (hheight : 0 ≤ cell.height)
    (hnatural : ¬ d.IsSpacer child.id →
      (naturalOf padding labels plans child.id).width ≤ cell.width * spanOf d child.id ∧
        (naturalOf padding labels plans child.id).height ≤ cell.height)
    (h : Fitted d padding plans sizes cell (stamped padding cell (spanOf d child.id)) child) :
    (sizeOf sizes child.id).width = spanWidth padding cell.width (spanOf d child.id) ∧
      0 ≤ (sizeOf sizes child.id).height ∧ (sizeOf sizes child.id).height ≤ cell.height := by
  have hspan := (spanOf_bounds hd child.id).1
  rw [stamped_rat hpadding hspan hwidth] at h
  cases h with
  | leaf h hplan hsize =>
    rw [Tree.id, sizeOf, hsize]
    exact ⟨rfl, hheight, le_refl _⟩
  | @composite _ _ size cell' id children plan h hplan hfit hsize hchildren =>
    rw [Tree.id] at hnatural hspan ⊢
    obtain ⟨grid, hroomy⟩ := hplans id plan hplan
    have hspacer : ¬ d.IsSpacer id := fun hspacer ↦ hroomy.nonempty (hd.spacer id hspacer)
    obtain ⟨hnaturalwidth, hnaturalheight⟩ := hnatural hspacer
    rw [naturalOf, hplan] at hnaturalwidth hnaturalheight
    obtain ⟨hextent, -, -, hmax, halternatives⟩ := fitPlan_spec hroomy.columns_pos hroomy.rows_pos
      (fun _ ↦ hnaturalheight) hfit
    have hle := @le_spanWidth padding cell.width _ hpadding hspan
    have hsingle : cell.width ≤ cell.width * spanOf d id :=
      le_mul_of_one_le_right hwidth (Nat.one_le_cast.2 hspan)
    rw [sizeOf, hsize, Option.getD_some]
    refine ⟨?_, ?_⟩
    · rw [hmax]
      exact max_eq_right (max_le (hnaturalwidth.trans hle) (hsingle.trans hle))
    · rcases halternatives with heq | heq
      · rw [heq]
        refine ⟨?_, hnaturalheight⟩
        have hrows := hroomy.rows_pos
        have hcell := hroomy.height_nonneg
        rw [extent_rat]
        positivity
      · rw [heq]
        exact ⟨hheight, le_refl _⟩

/-- Holds for a composite that is exactly as large as its cells, which are no smaller than those of its
plan, and that has offered them to its children. -/
structure Grown (d : Document) (padding : ℚ) (plans : Plans ℚ) (sizes : Sizes ℚ) (id : BlockId)
    (plan : Plan ℚ) (cell : Size ℚ) : Prop where
  planned : plans[id]? = some plan
  size : sizes.get? id = some (extent padding plan cell)
  width_le : plan.cell.width ≤ cell.width
  height_le : plan.cell.height ≤ cell.height
  child : ∀ child ∈ d.children id, ∃ t : Tree, t.id = child ∧
    Fitted d padding plans sizes cell (stamped padding cell (spanOf d child)) t

/-- In cells that have grown there is room for the children, as there was before. -/
theorem Grown.room {id : BlockId} {plan : Plan ℚ} {grid : Grid} {cell : Size ℚ}
    (h : Grown d padding plans sizes id plan cell) (hroomy : Roomy d padding labels plans id plan grid) :
    ∀ child ∈ d.children id, ¬ d.IsSpacer child →
      (naturalOf padding labels plans child).width ≤ cell.width * spanOf d child ∧
        (naturalOf padding labels plans child).height ≤ cell.height := by
  intro child hchild hspacer
  obtain ⟨hwidth, hheight⟩ := hroomy.child child hchild hspacer
  have hspan : (0 : ℚ) ≤ spanOf d child := Nat.cast_nonneg _
  exact ⟨hwidth.trans (mul_le_mul_of_nonneg_right h.width_le hspan), hheight.trans h.height_le⟩

/-- The second pass lets the cells of all composites of a tree grow. -/
theorem grown_of_fitted {offered existing : Size ℚ} {t : Tree} (hd : d.Sound)
    (hplans : ∀ id plan, plans[id]? = some plan → ∃ grid, Roomy d padding labels plans id plan grid)
    (h : Fitted d padding plans sizes offered existing t)
    (hoffered : ∀ plan, plans[t.id]? = some plan →
      (extent padding plan plan.cell).width < offered.width →
      (extent padding plan plan.cell).height ≤ offered.height) :
    ∀ id ∈ t.ids, d.children id ≠ [] → ∃ plan cell, Grown d padding plans sizes id plan cell := by
  induction h with
  | leaf h hplan hsize => exact List.forall_mem_singleton.2 fun hne ↦ absurd h hne
  | @composite offered existing size cell id children plan h hplan hfit hsize hchildren ih =>
    obtain ⟨grid, hroomy⟩ := hplans id plan hplan
    obtain ⟨rfl, hwidth, hheight, -⟩ :=
      fitPlan_spec hroomy.columns_pos hroomy.rows_pos (hoffered plan hplan) hfit
    have hgrown : Grown d padding plans sizes id plan cell := {
      planned := hplan
      size := hsize
      width_le := hwidth
      height_le := hheight
      child := by
        rw [h]
        exact List.forall_mem_map.2 fun child hchild ↦ ⟨child, rfl, hchildren child hchild⟩ }
    rw [Tree.ids_node]
    refine List.forall_mem_cons.2 ⟨fun _ ↦ ⟨plan, cell, hgrown⟩, fun other hother ↦ ?_⟩
    obtain ⟨child, hchild, hmem⟩ := List.mem_flatMap.1 hother
    refine ih child hchild (fun plan' hplan' _ ↦ ?_) other hmem
    obtain ⟨grid', hroomy'⟩ := hplans child.id plan' hplan'
    have hspacer : ¬ d.IsSpacer child.id := fun hspacer ↦
      hroomy'.nonempty (hd.spacer child.id hspacer)
    have hle := (hgrown.room hroomy child.id (h ▸ List.mem_map_of_mem hchild) hspacer).2
    rwa [naturalOf, hplan'] at hle

/-- Cells that have grown size the composite and its children. -/
theorem Grown.sized {id : BlockId} {plan : Plan ℚ} {grid : Grid} {cell : Size ℚ} (hd : d.Sound)
    (hpadding : 0 ≤ padding)
    (hplans : ∀ id plan, plans[id]? = some plan → ∃ grid, Roomy d padding labels plans id plan grid)
    (h : Grown d padding plans sizes id plan cell)
    (hroomy : Roomy d padding labels plans id plan grid) : Sized d padding sizes id grid cell := by
  have hwidth := hroomy.width_nonneg.trans h.width_le
  have hheight := hroomy.height_nonneg.trans h.height_le
  have hsizes : ∀ child ∈ d.children id,
      (sizeOf sizes child).width = spanWidth padding cell.width (spanOf d child) ∧
        0 ≤ (sizeOf sizes child).height ∧ (sizeOf sizes child).height ≤ cell.height := by
    intro child hchild
    obtain ⟨t, rfl, hfitted⟩ := h.child child hchild
    exact size_of_fitted_child hd hpadding hplans hwidth hheight (h.room hroomy t.id hchild) hfitted
  exact {
    gridOf_eq := hroomy.gridOf_eq
    fills := hroomy.fills
    width_nonneg := hwidth
    height_nonneg := hheight
    size := by rw [sizeOf, h.size, Option.getD_some, extent_rat, hroomy.columns, hroomy.rows]
    child_width := fun child hchild ↦ (hsizes child hchild).1
    child_height := fun child hchild ↦ (hsizes child hchild).2 }

/-- In a sound document whose blocks form a tree the cells of all composites grow from those of their
plans. -/
theorem grown_of_sizesOf {t : Tree} {levels : Nat} (hd : d.Sound) (h : d.Shows levels t)
    (hroot : t.id = BlockId.root) (hnodup : t.ids.Nodup) (hlevels : levels ≤ d.size)
    (hsizes : sizesOf d padding labels = .ok sizes) (hpadding : 0 ≤ padding) :
    (∀ id plan, (plansOf d padding labels)[id]? = some plan →
      d.children id ≠ [] ∧ Planned d padding labels (plansOf d padding labels) id plan) ∧
    ∀ id ∈ t.ids, d.children id ≠ [] →
      ∃ plan cell, Grown d padding (plansOf d padding labels) sizes id plan cell := by
  obtain ⟨hmeasures, hfitted⟩ := fitted_plansOf h hroot hnodup hlevels hsizes
  have hplans := exists_roomy hd fun _ _ ↦ hmeasures.planned
  refine ⟨fun _ _ ↦ hmeasures.planned, grown_of_fitted hd hplans hfitted fun plan hplan hlt ↦ ?_⟩
  -- nothing is offered to the root, and no composite is narrower than that
  obtain ⟨grid, hroomy⟩ := hplans t.id plan hplan
  have hcolumns := hroomy.columns_pos
  have hcell := hroomy.width_nonneg
  have hnonneg : 0 ≤ (extent padding plan plan.cell).width := by
    rw [extent_rat]
    positivity
  rw [zeroSize_rat] at hlt
  exact absurd hlt (not_lt.2 hnonneg)

/-- In a sound document whose blocks form a tree all composites are sized. -/
theorem sized_of_sizesOf {t : Tree} {levels : Nat} (hd : d.Sound) (hpadding : 0 ≤ padding)
    (h : d.Shows levels t) (hroot : t.id = BlockId.root) (hnodup : t.ids.Nodup)
    (hlevels : levels ≤ d.size) (hsizes : sizesOf d padding labels = .ok sizes) :
    ∀ id ∈ t.ids, d.children id ≠ [] → ∃ grid cell, Sized d padding sizes id grid cell := by
  obtain ⟨hplanned, hgrown⟩ := grown_of_sizesOf hd h hroot hnodup hlevels hsizes hpadding
  have hplans := exists_roomy hd hplanned
  intro id hid hne
  obtain ⟨plan, cell, hgrownid⟩ := hgrown id hid hne
  obtain ⟨grid, hroomy⟩ := hplans id plan hgrownid.planned
  exact ⟨grid, cell, hgrownid.sized hd hpadding hplans hroomy⟩

end Layout

end BlockDiagram
