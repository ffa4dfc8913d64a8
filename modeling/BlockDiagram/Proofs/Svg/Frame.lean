import BlockDiagram.Proofs.Layout.Cells
import BlockDiagram.Proofs.Svg.Markers

/-!
# Pictures around blocks

The box of a diagram is the least one with the origin and all its blocks in it, spacers included. A
picture is larger than this box by a margin on every side, and what is drawn is moved so that the box
starts at the margin. So in exact arithmetic all blocks keep the margin to the sides of the picture
(`Diagram.isFramed_of_resolve`).
-/

namespace BlockDiagram

/-! ### Boxes and their points -/

namespace Bounds

variable {a b box other : Bounds ℚ} {p : Point ℚ}

/-- Holds for the points in a box, those on its sides included. -/
structure Covers (box : Bounds ℚ) (p : Point ℚ) : Prop where
  minX : box.minX ≤ p.x
  minY : box.minY ≤ p.y
  maxX : p.x ≤ box.maxX
  maxY : p.y ≤ box.maxY

/-- Holds for the least box with the given points in it. -/
structure IsLeastAround (box : Bounds ℚ) (points : Set (Point ℚ)) : Prop where
  covers : ∀ p ∈ points, box.Covers p
  least : ∀ other : Bounds ℚ, (∀ p ∈ points, other.Covers p) → ∀ p, box.Covers p → other.Covers p

private theorem contains_iff : a.contains b = true ↔
    a.minX ≤ b.minX ∧ a.minY ≤ b.minY ∧ b.maxX ≤ a.maxX ∧ b.maxY ≤ a.maxY := by
  simp [contains, and_assoc]

private theorem contains_self (a : Bounds ℚ) : a.contains a = true := by
  simp [contains_iff]

/-- A box contains the smallest box around two boxes if it contains both. -/
theorem contains_merge_iff :
    other.contains (a.merge b) = true ↔ other.contains a = true ∧ other.contains b = true := by
  have hmerge : a.merge b =
      ⟨min a.minX b.minX, min a.minY b.minY, max a.maxX b.maxX, max a.maxY b.maxY⟩ := rfl
  rw [hmerge]
  simp only [contains_iff, le_min_iff, max_le_iff]
  tauto

private theorem contains_foldl_merge_iff {boxes : List (Bounds ℚ)} :
    other.contains (boxes.foldl merge a) = true ↔
      other.contains a = true ∧ ∀ b ∈ boxes, other.contains b = true := by
  induction boxes generalizing a with
  | nil => simp
  | cons b boxes ih => rw [List.foldl_cons, ih, contains_merge_iff, List.forall_mem_cons, and_assoc]

private theorem Covers.of_contains (hp : b.Covers p) (h : a.contains b = true) : a.Covers p := by
  obtain ⟨hminX, hminY, hmaxX, hmaxY⟩ := contains_iff.1 h
  exact ⟨hminX.trans hp.minX, hminY.trans hp.minY, hp.maxX.trans hmaxX, hp.maxY.trans hmaxY⟩

/-- A box with all points of another one in it contains that one, whose corners are points of it. -/
theorem contains_of_covers (hx : b.minX ≤ b.maxX) (hy : b.minY ≤ b.maxY)
    (h : ∀ p, b.Covers p → a.Covers p) : a.contains b = true := by
  have hmin := h ⟨b.minX, b.minY⟩ ⟨le_rfl, le_rfl, hx, hy⟩
  have hmax := h ⟨b.maxX, b.maxY⟩ ⟨hx, hy, le_rfl, le_rfl⟩
  exact contains_iff.2 ⟨hmin.minX, hmin.minY, hmax.maxX, hmax.maxY⟩

private theorem covers_zero_iff : (zero : Bounds ℚ).Covers p ↔ p = .origin := by
  obtain ⟨x, y⟩ := p
  rw [zero, Point.origin, Layout.zero_rat, Point.mk.injEq]
  constructor
  · intro h
    exact ⟨le_antisymm h.maxX h.minX, le_antisymm h.maxY h.minY⟩
  · rintro ⟨rfl, rfl⟩
    exact ⟨le_rfl, le_rfl, le_rfl, le_rfl⟩

/-- A box that is contained wherever the origin and some boxes are is the least one around all of
them. -/
theorem isLeastAround_of_contains_iff {boxes : Set (Bounds ℚ)}
    (hboxes : ∀ b ∈ boxes, b.minX ≤ b.maxX ∧ b.minY ≤ b.maxY)
    (h : ∀ other : Bounds ℚ, other.contains box = true ↔
      other.contains .zero = true ∧ ∀ b ∈ boxes, other.contains b = true) :
    box.IsLeastAround ({.origin} ∪ {p | ∃ b ∈ boxes, b.Covers p}) := by
  constructor
  · obtain ⟨hzero, hall⟩ := (h box).1 box.contains_self
    rintro p (rfl | ⟨b, hb, hp⟩)
    · exact (covers_zero_iff.2 rfl).of_contains hzero
    · exact hp.of_contains (hall b hb)
  · intro other hother p hp
    refine hp.of_contains ((h other).2 ⟨?_, fun b hb ↦ ?_⟩)
    · exact contains_of_covers le_rfl le_rfl fun q hq ↦ hother q (.inl (covers_zero_iff.1 hq))
    · exact contains_of_covers (hboxes b hb).1 (hboxes b hb).2 fun q hq ↦
        hother q (.inr ⟨b, hb, hq⟩)

/-- A box of a size that is not negative has its corners in order. -/
theorem corners_around {center : Point ℚ} {size : Size ℚ} (hwidth : 0 ≤ size.width)
    (hheight : 0 ≤ size.height) : (around center size).minX ≤ (around center size).maxX ∧
      (around center size).minY ≤ (around center size).maxY := by
  rw [Layout.around_rat]
  dsimp only
  constructor <;> linarith

end Bounds

/-! ### Views -/

namespace Svg

/-- The part of a view that is at least 20 away from all of its sides. -/
def inner (size : Size ℚ) : Bounds ℚ :=
  ⟨20, 20, size.width - 20, size.height - 20⟩

/-- What is in the box of a drawing is moved to the inner part of its view. -/
theorem covers_displaced {box : Bounds ℚ} {p : Point ℚ} (h : box.Covers p) :
    (inner (pictureSize box)).Covers (p + displacement box) := by
  have hsize : pictureSize box =
      ⟨box.maxX - box.minX + 20 * 2, box.maxY - box.minY + 20 * 2⟩ := by
    rw [pictureSize, margin, Layout.literal_rat 20, Layout.two_rat]
    rfl
  have hmoved : p + displacement box = ⟨p.x + (20 - box.minX), p.y + (20 - box.minY)⟩ := by
    rw [displacement, margin, Layout.literal_rat 20]
    rfl
  obtain ⟨hminX, hminY, hmaxX, hmaxY⟩ := h
  rw [hsize, hmoved, inner]
  constructor <;> dsimp only <;> linarith

/-- The text for a view from the origin on. -/
def viewText (size : Size Float32) : String :=
  s!"0 0 {num size.width} {num size.height}"

/-- The text for a displacement. -/
def moveText (move : Point Float32) : String :=
  s!"translate({num move.x}, {num move.y})"

/-- Holds for a picture of a diagram that declares a view of the size of the picture, and moves the
blocks by the displacement. -/
structure Node.Frames (picture : Node) (diagram : Diagram Float32) : Prop where
  view : picture.attributes.lookup "viewBox" = some (viewText (pictureSize diagram.bounds))
  moved : ∃ group, picture.children.getLast? = some group ∧
    group.attributes = [("transform", moveText (displacement diagram.bounds))] ∧
    ∀ b f, .block b f ∈ diagram.drawing → blockGroup diagram.classes b f ∈ group.children

private theorem frames_ofDiagram (font : Font) (background : Option Color)
    (diagram : Diagram Float32) : (ofDiagram font background diagram).Frames diagram := by
  rw [ofDiagram]
  refine ⟨by simp [Node.attributes, List.lookup_cons, viewText], _, List.getLast?_concat, rfl, ?_⟩
  intro b f hstep
  have hfigures : blockGroup diagram.classes b f ∈
      (diagram.drawing.map (partsOf font diagram.classes)).flatMap Parts.figures :=
    List.mem_flatMap.2 ⟨_, List.mem_map_of_mem hstep, List.mem_singleton_self _⟩
  exact List.mem_append_left _ (List.mem_append_left _ hfigures)

end Svg

/-! ### Diagrams -/

variable {d : Document} {layout : Layout ℚ} {diagram : Diagram ℚ}

/-- Holds for a block below the root, at the place and with the size that a layout has for it. -/
structure PlacedBlock.StandsIn (b : PlacedBlock ℚ) (d : Document) (layout : Layout ℚ) : Prop where
  reached : ∃ id, d.Encloses BlockId.root id ∧ d.block? id = some b.block
  center : layout.centers.get? b.block.id = some b.center
  size : layout.sizes.get? b.block.id = some b.size

namespace Diagram

/-- Holds for a diagram of all blocks of a document that have a place, in the least box around them
and the origin, in whose picture they keep the margin. -/
structure IsFramed (diagram : Diagram ℚ) (d : Document) (layout : Layout ℚ) : Prop where
  stands : ∀ b ∈ diagram.blocks.values, b.StandsIn d layout
  placed : ∀ b : PlacedBlock ℚ, b.StandsIn d layout →
    ∃ other ∈ diagram.blocks.values, other.block.id = b.block.id ∧ other.bounds = b.bounds
  least : diagram.bounds.IsLeastAround
    ({.origin} ∪ {p | ∃ b : PlacedBlock ℚ, b.StandsIn d layout ∧ b.bounds.Covers p})
  contains : ∀ b : PlacedBlock ℚ, b.StandsIn d layout → diagram.bounds.contains b.bounds = true
  inner : ∀ b : PlacedBlock ℚ, b.StandsIn d layout → ∀ p, b.bounds.Covers p →
    (Svg.inner (Svg.pictureSize diagram.bounds)).Covers (p + Svg.displacement diagram.bounds)

private theorem placed?_eq_some_iff {block : Block} {b : PlacedBlock ℚ} :
    placed? layout block = some b ↔ b.block = block ∧
      layout.centers.get? b.block.id = some b.center ∧
      layout.sizes.get? b.block.id = some b.size := by
  constructor
  · intro h
    rw [placed?] at h
    obtain ⟨center, hcenter, h⟩ := Option.bind_eq_some_iff.1 h
    obtain ⟨size, hsize, h⟩ := Option.bind_eq_some_iff.1 h
    cases h
    exact ⟨rfl, hcenter, hsize⟩
  · rintro ⟨rfl, hcenter, hsize⟩
    rw [placed?, hcenter, hsize]
    rfl

/-- The blocks of the walk that have a place. -/
theorem mem_placed_iff (hd : d.IsAcyclic) {b : PlacedBlock ℚ} :
    b ∈ d.walk.filterMap (placed? layout) ↔ b.StandsIn d layout := by
  rw [List.mem_filterMap]
  constructor
  · rintro ⟨block, hblock, h⟩
    obtain ⟨rfl, hcenter, hsize⟩ := placed?_eq_some_iff.1 h
    exact ⟨hd.mem_walk_iff.1 hblock, hcenter, hsize⟩
  · intro h
    exact ⟨b.block, hd.mem_walk_iff.2 h.reached, placed?_eq_some_iff.2 ⟨rfl, h.center, h.size⟩⟩

/-- The blocks and the box of a diagram come from the blocks of the walk that have a place. -/
theorem eq_of_resolve (h : resolve d layout = .ok diagram) :
    diagram.blocks = (d.walk.filterMap (placed? layout)).foldl
        (fun blocks b ↦ blocks.insert b.block.id b) .empty ∧
      diagram.bounds =
        ((d.walk.filterMap (placed? layout)).map PlacedBlock.bounds).foldl Bounds.merge .zero := by
  rw [resolve] at h
  obtain ⟨edges, -, h⟩ := bind_eq_ok_iff.1 h
  cases h
  exact ⟨rfl, rfl⟩

/-- The blocks of a diagram stand in the layout, and each name that has a place is among theirs. -/
theorem mem_blocks_of_resolve (hd : d.IsAcyclic) (h : resolve d layout = .ok diagram) :
    (∀ b ∈ diagram.blocks.values, b.StandsIn d layout) ∧
      ∀ b : PlacedBlock ℚ, b.StandsIn d layout →
        ∃ other ∈ diagram.blocks.values, other.block.id = b.block.id := by
  have hget : ∀ key, diagram.blocks.get? key =
      (d.walk.filterMap (placed? layout)).reverse.find? fun b ↦ b.block.id = key := by
    intro key
    rw [(eq_of_resolve h).1,
      OrderedMap.get?_foldl_insert_eq (fun b : PlacedBlock ℚ ↦ b.block.id) fun b ↦ b,
      OrderedMap.get?_empty, Option.or_none, Option.map_id']
  constructor
  · intro b hb
    obtain ⟨key, hkey⟩ := OrderedMap.mem_values_iff.1 hb
    rw [hget] at hkey
    exact (mem_placed_iff hd).1 (List.mem_reverse.1 (List.mem_of_find?_eq_some hkey))
  · intro b hb
    have hfound : (diagram.blocks.get? b.block.id).isSome := by
      rw [hget, List.find?_isSome]
      exact ⟨b, List.mem_reverse.2 ((mem_placed_iff hd).2 hb), by simp⟩
    obtain ⟨other, hother⟩ := Option.isSome_iff_exists.1 hfound
    refine ⟨other, OrderedMap.mem_values_iff.2 ⟨_, hother⟩, ?_⟩
    rw [hget] at hother
    simpa using List.find?_some hother

/-- The box of a diagram is contained wherever the origin and all blocks that stand somewhere are. -/
theorem contains_bounds_iff (hd : d.IsAcyclic) (h : resolve d layout = .ok diagram)
    {other : Bounds ℚ} : other.contains diagram.bounds = true ↔ other.contains .zero = true ∧
      ∀ box ∈ {box | ∃ b : PlacedBlock ℚ, b.StandsIn d layout ∧ b.bounds = box},
        other.contains box = true := by
  rw [(eq_of_resolve h).2, Bounds.contains_foldl_merge_iff]
  simp only [List.mem_map, mem_placed_iff hd]
  rfl

/-- A block that stands somewhere is not smaller than nothing. -/
theorem corners_bounds (hsizes : ∀ id size, layout.sizes.get? id = some size →
    0 ≤ size.width ∧ 0 ≤ size.height) {b : PlacedBlock ℚ} (h : b.StandsIn d layout) :
    b.bounds.minX ≤ b.bounds.maxX ∧ b.bounds.minY ≤ b.bounds.maxY := by
  obtain ⟨hwidth, hheight⟩ := hsizes _ _ h.size
  exact Bounds.corners_around hwidth hheight

/-- In exact arithmetic, where blocks have sizes that are not negative and none encloses itself, the
box of a diagram is the least one around the origin and all blocks, and in its picture every block
keeps the margin. Pictures are declared as large and moved as far as the box demands. -/
theorem isFramed_of_resolve (hd : d.IsAcyclic)
    (hsizes : ∀ id size, layout.sizes.get? id = some size → 0 ≤ size.width ∧ 0 ≤ size.height)
    (h : resolve d layout = .ok diagram) :
    diagram.IsFramed d layout ∧
      ∀ font background (drawn : Diagram Float32),
        (Svg.ofDiagram font background drawn).Frames drawn := by
  obtain ⟨hstands, hplaced⟩ := mem_blocks_of_resolve hd h
  have hcontains : ∀ b : PlacedBlock ℚ, b.StandsIn d layout →
      diagram.bounds.contains b.bounds = true := fun b hb ↦
    ((contains_bounds_iff hd h).1 diagram.bounds.contains_self).2 _ ⟨b, hb, rfl⟩
  refine ⟨⟨hstands, fun b hb ↦ ?_, ?_, hcontains, fun b hb p hp ↦ ?_⟩, Svg.frames_ofDiagram⟩
  · -- blocks of one name stand at one place
    obtain ⟨other, hother, hid⟩ := hplaced b hb
    have hcenter := (hstands other hother).center
    have hsize := (hstands other hother).size
    rw [hid] at hcenter hsize
    refine ⟨other, hother, hid, ?_⟩
    rw [PlacedBlock.bounds, PlacedBlock.bounds, Option.some.inj (hcenter.symm.trans hb.center),
      Option.some.inj (hsize.symm.trans hb.size)]
  · have hcorners : ∀ box ∈ {box | ∃ b : PlacedBlock ℚ, b.StandsIn d layout ∧ b.bounds = box},
        box.minX ≤ box.maxX ∧ box.minY ≤ box.maxY := by
      rintro _ ⟨b, hb, rfl⟩
      exact corners_bounds hsizes hb
    simpa using Bounds.isLeastAround_of_contains_iff hcorners fun _ ↦ contains_bounds_iff hd h
  · exact Svg.covers_displaced (hp.of_contains (hcontains b hb))

/-- In the picture of a crowded row the box reaches above the blocks to a spacer. -/
theorem exists_isFramed_crowded : ∃ (d : Document) (layout : Layout ℚ) (diagram : Diagram ℚ),
    Document.parse 9 Layout.crowded = .ok d ∧
      Layout.compute ⟨2, 0, []⟩ Layout.crowdedMeasure d = .ok layout ∧ d.IsAcyclic ∧
      (∀ id size, layout.sizes.get? id = some size → 0 ≤ size.width ∧ 0 ≤ size.height) ∧
      resolve d layout = .ok diagram ∧ diagram.bounds = ⟨0, -16, 1508, 10⟩ ∧
      diagram.IsFramed d layout := by
  have hdecide : ((statementsAlong Layout.crowdedRules Layout.crowded).bind fun ss ↦
      (Builder.build 9 ss).toOption.map fun d ↦ decide (BlockId.root ∉ namesIn ss) &&
        (Layout.compute ⟨2, 0, []⟩ Layout.crowdedMeasure d).toOption.any fun layout ↦
          (layout.sizes.values.all fun size ↦ decide (0 ≤ size.width ∧ 0 ≤ size.height)) &&
            (resolve d layout).toOption.any fun diagram ↦
              decide (diagram.bounds = ⟨0, -16, 1508, 10⟩)) = some true := by
    decide +kernel
  obtain ⟨ss, d, hss, -, hd, hresult⟩ := parse_of_along hdecide
  simp only [Bool.and_eq_true, decide_eq_true_eq, Option.any_eq_true] at hresult
  obtain ⟨hroot, layout, hlayout, hsizes, diagram, hdiagram, hbounds⟩ := hresult
  obtain ⟨mentions, hdescribes⟩ := Document.describes_of_parse hss hd hroot
  have hacyclic := hdescribes.listed.isAcyclic
  have hnonneg : ∀ id size, layout.sizes.get? id = some size → 0 ≤ size.width ∧ 0 ≤ size.height :=
    fun id size hsize ↦ of_decide_eq_true
      (List.all_eq_true.1 hsizes size (OrderedMap.mem_values_iff.2 ⟨id, hsize⟩))
  have hresolve := eq_ok_of_toOption hdiagram
  exact ⟨d, layout, diagram, hd, eq_ok_of_toOption hlayout, hacyclic, hnonneg, hresolve, hbounds,
    (isFramed_of_resolve hacyclic hnonneg hresolve).1⟩

end Diagram

end BlockDiagram
