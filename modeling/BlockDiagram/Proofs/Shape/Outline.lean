import BlockDiagram.Proofs.Layout.Cells

/-!
# Outlines and the boxes around them

The corners of an outline are moved in from the sides of its box, by a part of what the box measures
across (`inset`). They stay in the box exactly if it is long enough for that (`forall_within_iff`).
A shape around its label is, and a block without children stays so until its cell is made taller,
or, for an arrow along the vertical, wider (`outlines_of_parse`).
-/

namespace BlockDiagram

namespace Shape

variable {shape : Shape} {directions : List Direction} {size content : Size ℚ} {w m : ℚ}

/-- Holds for the points of a box that has a size and is centered at the origin. -/
def Within (size : Size ℚ) (p : Point ℚ) : Prop :=
  |p.x| ≤ size.width / 2 ∧ |p.y| ≤ size.height / 2

/-- Holds for arrows along the vertical. -/
def isUpright (shape : Shape) (directions : List Direction) : Bool :=
  shape = .blockArrow && !(directions.any Direction.isHorizontal || directions.isEmpty)

/-- How far the corners of a shape are moved in from the sides of its box, which measures `across`
in the other direction. -/
def inset (shape : Shape) (across : ℚ) : ℚ :=
  match shape with
  | hexagon => across / 4
  | leanLeft | leanRight => across * 2 / 3
  | trapezoid | invTrapezoid => across / 3
  | flag | blockArrow => across / 2
  | _ => 0

/-- What a shape measures in the direction in which corners are moved, and across it. -/
def turned (shape : Shape) (directions : List Direction) (size : Size ℚ) : Size ℚ :=
  if shape.isUpright directions then ⟨size.height, size.width⟩ else size

private theorem turned_of_ne (h : shape ≠ .blockArrow) : shape.turned directions size = size := by
  rw [turned, isUpright, decide_eq_false h]
  rfl

/-- Holds for sizes in which no corner is moved beyond the opposite side. -/
def HasRoom (shape : Shape) (directions : List Direction) (size : Size ℚ) : Prop :=
  shape.inset (shape.turned directions size).height ≤ (shape.turned directions size).width

private theorem inset_mono (shape : Shape) {across across' : ℚ} (h : across ≤ across') :
    shape.inset across ≤ shape.inset across' := by
  cases shape <;> simp only [inset] <;> linarith

/-- There is room in a size that is no shorter, and measures no more across. -/
theorem HasRoom.of_le (h : shape.HasRoom directions content)
    (hwidth : (shape.turned directions content).width ≤ (shape.turned directions size).width)
    (hheight : (shape.turned directions size).height ≤ (shape.turned directions content).height) :
    shape.HasRoom directions size :=
  (shape.inset_mono hheight).trans (h.trans hwidth)

/-! ### Corners -/

/-- A corner that is moved in from the left stays in the box if it does not pass the right side. -/
theorem abs_left_le_iff (hm : 0 ≤ m) : |-(w / 2) + m| ≤ w / 2 ↔ m ≤ w := by
  rw [abs_le]
  constructor
  · rintro ⟨-, h⟩
    linarith
  · intro h
    constructor <;> linarith

private theorem abs_right_le_iff (hm : 0 ≤ m) : |w / 2 - m| ≤ w / 2 ↔ m ≤ w := by
  rw [abs_sub_comm, ← abs_left_le_iff hm, neg_add_eq_sub]

/-- The heads of an arrow along the horizontal are half as long as the arrow is high. -/
theorem forall_within_horizontalArrow_iff {left right : Bool} (hw : 0 ≤ size.width)
    (hh : 0 ≤ size.height) (h : (left || right) = true) :
    (∀ p ∈ horizontalArrow size left right, Within size p) ↔
      size.height / 2 ≤ size.width := by
  have hw' : 0 ≤ size.width / 2 := by positivity
  have hh' : 0 ≤ size.height / 2 := by positivity
  have hbody : |size.height / 2 / 2| ≤ size.height / 2 := by
    rw [abs_of_nonneg (by positivity)]
    exact half_le_self hh'
  cases left <;> cases right <;>
    simp [horizontalArrow, Layout.literal_rat, Within, abs_of_nonneg, hw', hh', hbody,
      abs_left_le_iff hh', abs_right_le_iff hh'] at h ⊢

/-- An arrow along the vertical is one along the horizontal, turned by a quarter. -/
theorem verticalArrow_eq_map (size : Size ℚ) (up down : Bool) :
    verticalArrow size up down = (horizontalArrow ⟨size.height, size.width⟩ up down).map
      fun p ↦ ⟨-p.y, p.x⟩ := by
  cases up <;> cases down <;>
    simp [verticalArrow, horizontalArrow, Layout.literal_rat]

private theorem forall_within_verticalArrow_iff {up down : Bool} (hw : 0 ≤ size.width)
    (hh : 0 ≤ size.height) (h : (up || down) = true) :
    (∀ p ∈ verticalArrow size up down, Within size p) ↔ size.width / 2 ≤ size.height := by
  have hturned : (∀ p ∈ horizontalArrow ⟨size.height, size.width⟩ up down,
      Within ⟨size.height, size.width⟩ p) ↔ size.width / 2 ≤ size.height :=
    forall_within_horizontalArrow_iff hh hw h
  rw [← hturned, verticalArrow_eq_map, List.forall_mem_map]
  refine forall₂_congr fun p _ ↦ ?_
  rw [Within, Within, abs_neg, and_comm]

/-- An arrow has a head at one of the ends that lie in its direction. -/
theorem head_of_any {directions : List Direction} {isAlong : Direction → Bool}
    {first second both : Direction}
    (halong : ∀ direction, isAlong direction = true →
      direction = first ∨ direction = second ∨ direction = both)
    (h : directions.any isAlong = true) :
    ((directions.contains first || directions.contains both) ||
      (directions.contains second || directions.contains both)) = true := by
  obtain ⟨direction, hmem, hdirection⟩ := List.any_eq_true.1 h
  rcases halong direction hdirection with rfl | rfl | rfl
  · simp [hmem]
  · simp [hmem]
  · simp [hmem]

/-- The corners of an arrow. -/
theorem forall_within_arrow_iff {outline : List (Point ℚ)} (hw : 0 ≤ size.width)
    (hh : 0 ≤ size.height) (h : arrowOutline? size directions = some outline) :
    (∀ p ∈ outline, Within size p) ↔ HasRoom .blockArrow directions size := by
  rw [arrowOutline?] at h
  rw [HasRoom, inset, turned, isUpright]
  split at h
  · next hhorizontal =>
    cases h
    rw [hhorizontal]
    refine forall_within_horizontalArrow_iff hw hh (head_of_any (fun direction h ↦ ?_) hhorizontal)
    revert h
    cases direction <;> decide
  · next hhorizontal =>
    split at h
    · next hvertical =>
      cases h
      have hne : directions.isEmpty = false := by
        cases directions with
        | nil => cases hvertical
        | cons => rfl
      rw [Bool.not_eq_true] at hhorizontal
      rw [hhorizontal, hne]
      refine forall_within_verticalArrow_iff hw hh (head_of_any (fun direction h ↦ ?_) hvertical)
      revert h
      cases direction <;> decide
    · cases h

/-- The corners of an outline are in the box around it if the box is long enough for the slanted
sides and the heads of its shape. -/
theorem forall_within_iff {outline : List (Point ℚ)} (hw : 0 ≤ size.width) (hh : 0 ≤ size.height)
    (h : shape.outline? size directions = some outline) :
    (∀ p ∈ outline, Within size p) ↔ shape.HasRoom directions size := by
  have hw' : 0 ≤ size.width / 2 := by positivity
  have hh' : 0 ≤ size.height / 2 := by positivity
  cases shape with
  | blockArrow => exact forall_within_arrow_iff hw hh h
  | diamond =>
    cases h
    rw [HasRoom, turned_of_ne (by decide)]
    simp [Within, inset, Layout.literal_rat, abs_of_nonneg, hw, hw', hh']
  | hexagon =>
    cases h
    have hm : 0 ≤ size.height / 4 := by positivity
    rw [HasRoom, turned_of_ne (by decide)]
    simp [Within, inset, Layout.literal_rat, abs_of_nonneg, hw', hh', abs_left_le_iff hm,
      abs_right_le_iff hm]
  | leanRight | leanLeft =>
    cases h
    have hm : 0 ≤ size.height * 2 / 3 := by positivity
    rw [HasRoom, turned_of_ne (by decide)]
    simp [Within, inset, Layout.literal_rat, abs_of_nonneg, hw', hh', abs_left_le_iff hm,
      abs_right_le_iff hm]
  | trapezoid | invTrapezoid =>
    cases h
    have hm : 0 ≤ size.height / 3 := by positivity
    rw [HasRoom, turned_of_ne (by decide)]
    simp [Within, inset, Layout.literal_rat, abs_of_nonneg, hw', hh', abs_left_le_iff hm,
      abs_right_le_iff hm]
  | flag =>
    cases h
    rw [HasRoom, turned_of_ne (by decide)]
    simp [Within, inset, Layout.literal_rat, abs_of_nonneg, hw', hh', abs_left_le_iff hh']
  | _ => cases h

/-! ### Contents -/

/-- The size of a shape around a label has room for its outline. -/
theorem hasRoom_contentSize {outline : List (Point ℚ)} {label : Size ℚ} {padding : ℚ}
    (h : shape.outline? size directions = some outline) (hw : 0 ≤ label.width)
    (hh : 0 ≤ label.height) (hpadding : 0 ≤ padding) :
    shape.HasRoom directions (shape.contentSize label padding directions) := by
  cases shape with
  | blockArrow =>
    rw [HasRoom, inset, turned, isUpright, contentSize]
    cases directions.any Direction.isHorizontal || directions.isEmpty with
    | true =>
      simp only [Layout.literal_rat, Nat.cast_ofNat, Bool.not_true, Bool.and_false,
        Bool.false_eq_true, if_true, if_false]
      linarith
    | false =>
      simp only [Layout.literal_rat, Nat.cast_ofNat, Bool.not_false, decide_true, Bool.and_self,
        Bool.false_eq_true, if_true, if_false]
      linarith
  | diamond | hexagon | leanRight | leanLeft | trapezoid | invTrapezoid | flag =>
    rw [HasRoom, turned_of_ne (by decide)]
    simp only [inset, contentSize, Layout.literal_rat, Nat.cast_ofNat]
    linarith
  | _ => cases h

end Shape

namespace Layout

variable {d : Document} {layout : Layout ℚ}

/-- In exact arithmetic the corners of the outlines in a layout are in the boxes of their blocks
exactly if the boxes are long enough for the slanted sides and the heads. That is so for every block
without children whose cell is no taller than its shape around its label has to be (no wider, for an
arrow along the vertical). -/
theorem outlines_of_parse {limit : Nat} {source : String} {ss : List (Source.Located Statement)}
    (hss : statements source = .ok ss) (hd : Document.parse limit source = .ok d)
    (hroot : BlockId.root ∉ namesIn ss) (settings : Settings ℚ) (measure : String → Size ℚ)
    (hmeasure : ∀ text, 0 ≤ (measure text).width ∧ 0 ≤ (measure text).height)
    (hcompute : compute settings measure d = .ok layout) :
    ∀ b ∈ d.walk, ∃ size, layout.sizes.get? b.id = some size ∧
      ∀ outline, b.shape.outline? size b.directions = some outline →
        ((∀ p ∈ outline, Shape.Within size p) ↔ b.shape.HasRoom b.directions size) ∧
        (b.children = [] →
          (b.shape.turned b.directions size).height ≤
            (b.shape.turned b.directions
              (b.shape.contentSize (measure b.label) settings.nodePadding b.directions)).height →
          ∀ p ∈ outline, Shape.Within size p) := by
  obtain ⟨mentions, h⟩ := Document.describes_of_parse hss hd hroot
  intro b hb
  obtain ⟨size, hsize, hw, hh, hcontent⟩ := size_of_compute h.sound h.listed hcompute b hb
  refine ⟨size, hsize, fun outline houtline ↦ ?_⟩
  have hiff := Shape.forall_within_iff hw hh houtline
  refine ⟨hiff, fun hleaf hheight ↦ hiff.2 ?_⟩
  obtain ⟨hlabelwidth, hlabelheight⟩ := hmeasure b.label
  have hroom := Shape.hasRoom_contentSize houtline hlabelwidth hlabelheight
    (nodePadding_nonneg hcompute)
  refine hroom.of_le ?_ hheight
  obtain ⟨hwidth, hheight⟩ := hcontent hleaf
  rw [Shape.turned, Shape.turned]
  split
  · exact hheight
  · exact hwidth

/-- The corners of the arrow in a crowded row are in its box if there is room for its head. -/
theorem exists_outline_iff_crowded : ∃ (ss : List (Source.Located Statement)) (d : Document)
    (layout : Layout ℚ) (size : Size ℚ) (outline : List (Point ℚ)),
    statements crowded = .ok ss ∧ Document.parse 9 crowded = .ok d ∧ BlockId.root ∉ namesIn ss ∧
      (∀ text, 0 ≤ (crowdedMeasure text).width ∧ 0 ≤ (crowdedMeasure text).height) ∧
      compute ⟨2, 0, []⟩ crowdedMeasure d = .ok layout ∧ crowdedArrow ∈ d.walk ∧
      layout.sizes.get? crowdedArrow.id = some size ∧
      crowdedArrow.shape.outline? size crowdedArrow.directions = some outline ∧
      ((∀ p ∈ outline, Shape.Within size p) ↔
        crowdedArrow.shape.HasRoom crowdedArrow.directions size) := by
  obtain ⟨ss, d, layout, hss, hd, hroot, hlayout, hblocks, -⟩ := exists_crowded
  obtain ⟨hmem, -⟩ := hblocks crowdedArrow (by decide)
  obtain ⟨size, hsize, houtlines⟩ :=
    outlines_of_parse hss hd hroot ⟨2, 0, []⟩ crowdedMeasure crowdedMeasure_nonneg hlayout
      crowdedArrow hmem
  have houtline : crowdedArrow.shape.outline? size crowdedArrow.directions =
      some (Shape.verticalArrow size false true) := rfl
  exact ⟨ss, d, layout, size, _, hss, hd, hroot, crowdedMeasure_nonneg, hlayout, hmem, hsize,
    houtline, (houtlines _ houtline).1⟩

/-- The head of the arrow in a crowded row reaches far beyond the block. -/
theorem exists_corner_outside : ∃ (ss : List (Source.Located Statement)) (d : Document)
    (layout : Layout ℚ) (size : Size ℚ) (outline : List (Point ℚ)) (p : Point ℚ),
    statements crowded = .ok ss ∧ Document.parse 9 crowded = .ok d ∧ BlockId.root ∉ namesIn ss ∧
      (∀ text, 0 ≤ (crowdedMeasure text).width ∧ 0 ≤ (crowdedMeasure text).height) ∧
      compute ⟨2, 0, []⟩ crowdedMeasure d = .ok layout ∧ crowdedArrow ∈ d.walk ∧
      layout.sizes.get? crowdedArrow.id = some size ∧
      crowdedArrow.shape.outline? size crowdedArrow.directions = some outline ∧
      p ∈ outline ∧ size.height / 2 < |p.y| := by
  obtain ⟨ss, d, layout, hss, hd, hroot, hlayout, hblocks, hsizes, -⟩ := exists_crowded
  obtain ⟨hmem, -⟩ := hblocks crowdedArrow (by decide)
  simp only [List.map_cons, List.cons.injEq] at hsizes
  obtain ⟨-, -, hsize, -⟩ := hsizes
  have houtline : crowdedArrow.shape.outline? ⟨300, 20⟩ crowdedArrow.directions =
      some [⟨75, -10⟩, ⟨75, -140⟩, ⟨150, -140⟩, ⟨0, 10⟩, ⟨-150, -140⟩, ⟨-75, -140⟩,
        (⟨-75, -10⟩ : Point ℚ)] := by
    decide +kernel
  refine ⟨ss, d, layout, _, _, ⟨75, -140⟩, hss, hd, hroot, crowdedMeasure_nonneg, hlayout, hmem,
    hsize, houtline, by simp, ?_⟩
  norm_num

end Layout

end BlockDiagram
