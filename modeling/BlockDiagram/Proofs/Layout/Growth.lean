import BlockDiagram.Proofs.Layout.Cells

/-!
# Natural and final sizes

In exact arithmetic the second pass over the sizes of a tree makes nothing smaller than the first one
has found it to be. The cells of every composite stay or grow, its size remains that of its grid, and
its children fill their cells, except for the heights of composites (`Settled`, `settled_of_shows`).
-/

namespace BlockDiagram.Layout

variable {d : Document} {padding : ℚ} {labels sizes : Sizes ℚ} {t : Tree} {levels : Nat}

/-- Holds for the size of a child next to the cells of its composite. -/
structure Stamped (d : Document) (padding : ℚ) (labels : Sizes ℚ) (cell : Size ℚ) (child : BlockId)
    (size : Size ℚ) : Prop where
  width : size.width = cell.width * spanOf d child + padding * (spanOf d child - 1)
  height_le : size.height ≤ cell.height
  leaf : d.children child = [] → size.height = cell.height
  natural_le : ¬ d.IsSpacer child →
    (naturalOf padding labels (plansOf d padding labels) child).width ≤ size.width ∧
      (naturalOf padding labels (plansOf d padding labels) child).height ≤ size.height

/-- Holds for a composite with its plan from the first pass and its cells from the second one. -/
structure Settled (d : Document) (padding : ℚ) (labels sizes : Sizes ℚ) (id : BlockId) (grid : Grid)
    (plan : Plan ℚ) (cell : Size ℚ) : Prop where
  gridOf_eq : gridOf d id = .ok grid
  planned : (plansOf d padding labels)[id]? = some plan
  natural : plan.cell =
    naturalCell d (naturalOf padding labels (plansOf d padding labels)) .zero (d.children id)
  width_le : plan.cell.width ≤ cell.width
  height_le : plan.cell.height ≤ cell.height
  size : sizes.get? id = some ⟨grid.columns * (cell.width + padding) + padding,
    grid.rows * (cell.height + padding) + padding⟩
  child : ∀ child ∈ d.children id,
    ∃ size, sizes.get? child = some size ∧ Stamped d padding labels cell child size

/-- All composites of a tree are settled. -/
theorem settled_of_sizesOf (hd : d.Sound) (ht : d.Shows levels t) (hroot : t.id = BlockId.root)
    (hnodup : t.ids.Nodup) (hpadding : 0 ≤ padding) (hsizes : sizesOf d padding labels = .ok sizes)
    {id : BlockId} (hid : id ∈ t.ids) (hne : d.children id ≠ []) :
    ∃ grid plan cell, Settled d padding labels sizes id grid plan cell := by
  obtain ⟨levels', hlevels, ht⟩ := ht.exists_levels_le_size hnodup
  obtain ⟨hplanned, hgrown⟩ := grown_of_sizesOf hd ht hroot hnodup hlevels hsizes hpadding
  have hplans := exists_roomy hd hplanned
  obtain ⟨plan, cell, h⟩ := hgrown id hid hne
  obtain ⟨grid, hroomy⟩ := hplans id plan h.planned
  have hsized := h.sized hd hpadding hplans hroomy
  refine ⟨grid, plan, cell, {
    gridOf_eq := hroomy.gridOf_eq
    planned := h.planned
    natural := (hplanned id plan h.planned).2.cell
    width_le := h.width_le
    height_le := h.height_le
    size := by rw [h.size, extent_rat, hroomy.columns, hroomy.rows]
    child := fun child hchild ↦ ?_ }⟩
  by_cases hleaf : d.children child = []
  · refine ⟨_, h.get?_child hd hpadding hplans hroomy hchild hleaf, spanWidth_rat _ _ _, le_refl _,
      fun _ ↦ rfl, fun hspacer ↦ ?_⟩
    obtain ⟨hwidth, hheight⟩ := h.room hroomy child hchild hspacer
    exact ⟨hwidth.trans (le_spanWidth hpadding (spanOf_bounds hd child).1), hheight⟩
  · obtain ⟨plan', cell', h'⟩ :=
      hgrown child (List.mem_of_mem_tail (ht.mem_tail_of_mem_children hid hchild)) hleaf
    obtain ⟨grid', hroomy'⟩ := hplans child plan' h'.planned
    have hwidth := hsized.child_width child hchild
    have hheight := (hsized.child_height child hchild).2
    have hnatural := h'.natural_le hroomy'
    rw [h'.sizeOf_eq] at hwidth hheight hnatural
    exact ⟨_, h'.size, hwidth.trans (spanWidth_rat _ _ _), hheight, fun hempty ↦ absurd hempty hleaf,
      fun _ ↦ hnatural⟩

/-- A sound document whose blocks form a tree has sizes, unless a column count is zero or a composite
has very many children, and in them all composites are settled. -/
theorem settled_of_shows (hd : d.Sound) (ht : d.Shows levels t) (hroot : t.id = BlockId.root)
    (hnodup : t.ids.Nodup) (hpadding : 0 ≤ padding) (labels : Sizes ℚ) :
    ((∀ id b, d.block? id = some b → b.columns ≠ 0 ∧ b.children.length ≤ 2 ^ 29) →
      ∃ sizes, sizesOf d padding labels = .ok sizes) ∧
    ∀ sizes, sizesOf d padding labels = .ok sizes → ∀ id ∈ t.ids, d.children id ≠ [] →
      ∃ grid plan cell, Settled d padding labels sizes id grid plan cell := by
  refine ⟨fun hblocks ↦ ?_, fun sizes hsizes id ↦
    settled_of_sizesOf hd ht hroot hnodup hpadding hsizes⟩
  refine exists_bind_eq_ok (exists_naturalSize (fun id hne ↦ ?_) _ _ _) fun _ ↦ ⟨_, rfl⟩
  cases hb : d.block? id with
  | none => exact absurd (Document.children_eq_nil hb) hne
  | some b =>
    refine exists_gridOf hd (fun b hb ↦ (hblocks id b hb).1) ?_
    rw [Document.children_of_block? hb]
    exact (hblocks id b hb).2

/-- The composite of the crowded source, with its spacer, is settled. -/
theorem exists_settled_crowded : ∃ d levels t sizes, Document.parse 9 crowded = .ok d ∧
    d.Sound ∧ d.Shows levels t ∧ t.id = BlockId.root ∧ t.ids.Nodup ∧ (0 : ℚ) ≤ 2 ∧
    sizesOf d 2 (labelSizes ⟨2, 0, []⟩ crowdedMeasure d) = .ok sizes ∧
    "g" ∈ t.ids ∧ d.children "g" ≠ [] ∧
    ∃ grid plan cell,
      Settled d 2 (labelSizes ⟨2, 0, []⟩ crowdedMeasure d) sizes "g" grid plan cell := by
  obtain ⟨ss, d, layout, hss, hd, hroot, hcompute, hblocks, -⟩ := exists_crowded
  obtain ⟨mentions, h⟩ := Document.describes_of_parse hss hd hroot
  obtain ⟨t, ht, hshows⟩ := h.listed.exists_shows
  have hnodup := hshows.nodup_ids h.listed ht
  obtain ⟨sizes, hsizes, -⟩ := bind_eq_ok_iff.1 (arrange_of_compute hcompute).2
  obtain ⟨hwalk, hblock⟩ := hblocks crowdedComposite (by simp [crowdedBlocks])
  have hid : "g" ∈ t.ids := (hshows.mem_ids_iff h.listed ht).2
    (List.mem_cons_of_mem _ (((h.listed.map_id_walk h.sound).2 "g").1 (List.mem_map_of_mem hwalk)))
  have hchildren : d.children "g" = ["g-0"] := Document.children_of_block? hblock
  have hne : d.children "g" ≠ [] := by
    rw [hchildren]
    exact List.cons_ne_nil _ _
  exact ⟨d, _, t, sizes, hd, h.sound, hshows, ht, hnodup, by norm_num, hsizes, hid, hne,
    (settled_of_shows h.sound hshows ht hnodup (by norm_num) _).2 sizes hsizes "g" hid hne⟩

end BlockDiagram.Layout
