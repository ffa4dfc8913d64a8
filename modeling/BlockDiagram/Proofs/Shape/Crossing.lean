import Mathlib.Analysis.SpecialFunctions.Complex.Arg
import BlockDiagram.Drawing
import BlockDiagram.Proofs.Layout.Cells
import BlockDiagram.Svg

/-!
# Where lines leave circles

Real numbers are scalars with lengths and angles. In them a line leaves a circle at the ellipse that
touches all four sides of the box around it, while the circle itself is drawn as wide as the smaller
side of the box. Both agree in square boxes and along the smaller side, and nowhere else: elsewhere
a line ends outside of the circle (`crossing_ring`).
-/

namespace BlockDiagram

/-- The real numbers round nothing, and headings in them are cosines and sines of angles. The limits
are those of single precision. -/
noncomputable instance : MetricScalar ℝ where
  decidableLT := inferInstance
  decidableLE := inferInstance
  ofScientific mantissa divides exponent :=
    ((OfScientific.ofScientific mantissa divides exponent : ℚ) : ℝ)
  larger := max
  smaller := min
  abs := abs
  isFinite _ := true
  hypot x y := √(x ^ 2 + y ^ 2)
  mulAdd x y z := x * y + z
  heading x y := (Real.cos (Complex.arg ⟨x, y⟩), Real.sin (Complex.arg ⟨x, y⟩))
  epsilon := 2⁻¹ ^ 23
  largest := (2 - 2⁻¹ ^ 23) * 2 ^ 127

/-- A literal is the real number that it says. -/
theorem literal_real (n : Nat) : (@OfNat.ofNat ℝ n (Scalar.instOfNat n)) = n := by
  change ((Rat.ofScientific n false 0 : ℚ) : ℝ) = n
  rw [Rat.ofScientific_false_def]
  simp

/-! ### Directions -/

/-- A direction of length one consists of the cosine and the sine of its angle. -/
theorem heading_of_unit {x y : ℝ} (h : x ^ 2 + y ^ 2 = 1) : MetricScalar.heading x y = (x, y) := by
  have hnorm : ‖(⟨x, y⟩ : ℂ)‖ = 1 := by
    rw [Complex.norm_eq_sqrt_sq_add_sq, h, Real.sqrt_one]
  have hne : (⟨x, y⟩ : ℂ) ≠ 0 := by
    intro hzero
    rw [hzero, norm_zero] at hnorm
    exact zero_ne_one hnorm
  change (Real.cos _, Real.sin _) = _
  rw [Complex.cos_arg hne, Complex.sin_arg, hnorm, div_one, div_one]

private theorem length_real (p : Point ℝ) : p.length = √(p.x ^ 2 + p.y ^ 2) := rfl

/-- A vector with a length has a direction. -/
theorem unit_of_length {v : Point ℝ} (h : 0 < v.length) :
    (v.x / v.length) ^ 2 + (v.y / v.length) ^ 2 = 1 := by
  have hsq : v.length ^ 2 = v.x ^ 2 + v.y ^ 2 := by
    rw [length_real]
    exact Real.sq_sqrt (by positivity)
  rw [div_pow, div_pow, ← add_div, ← hsq]
  exact div_self (by positivity)

/-- A multiple of a vector is as many times as long. -/
theorem length_scale (v : Point ℝ) {t : ℝ} (ht : 0 ≤ t) : (v.scale t).length = v.length * t := by
  have hscale : v.scale t = ⟨v.x * t, v.y * t⟩ := rfl
  rw [hscale, length_real, length_real, mul_pow, mul_pow, ← add_mul,
    Real.sqrt_mul (by positivity), Real.sqrt_sq ht]

/-! ### Ellipses -/

/-- What is under the root in the distance from the center of an ellipse to its border. -/
theorem ellipse_pos {a c x y : ℝ} (ha : 0 < a) (hc : 0 < c) (h : x ^ 2 + y ^ 2 = 1) :
    0 < (c * x) ^ 2 + (a * y) ^ 2 := by
  by_cases hx : x = 0
  · have hy : y ≠ 0 := by
      rintro rfl
      simp [hx] at h
    positivity
  · positivity

/-- The point at that distance is on the border. -/
theorem ellipse_eq_one {a c x y : ℝ} (ha : 0 < a) (hc : 0 < c) (h : x ^ 2 + y ^ 2 = 1) :
    (x * (a * c / √((c * x) ^ 2 + (a * y) ^ 2)) / a) ^ 2 +
      (y * (a * c / √((c * x) ^ 2 + (a * y) ^ 2)) / c) ^ 2 = 1 := by
  have hpos := ellipse_pos ha hc h
  have hsq := Real.sq_sqrt hpos.le
  have hx : x * (a * c / √((c * x) ^ 2 + (a * y) ^ 2)) / a =
      c * x / √((c * x) ^ 2 + (a * y) ^ 2) := by
    field_simp
  have hy : y * (a * c / √((c * x) ^ 2 + (a * y) ^ 2)) / c =
      a * y / √((c * x) ^ 2 + (a * y) ^ 2) := by
    field_simp
  rw [hx, hy, div_pow, div_pow, hsq, ← add_div, div_self hpos.ne']

/-- In no direction is the border of an ellipse nearer than along its shorter axis. -/
theorem ellipse_le {a c x y : ℝ} (ha : 0 < a) (hac : a ≤ c) (h : x ^ 2 + y ^ 2 = 1) :
    a ≤ a * c / √((c * x) ^ 2 + (a * y) ^ 2) ∧
      (a * c / √((c * x) ^ 2 + (a * y) ^ 2) = a ↔ a = c ∨ y = 0) := by
  have hc : 0 < c := ha.trans_le hac
  have hsq : 0 ≤ c ^ 2 - a ^ 2 := sub_nonneg.2 (pow_le_pow_left₀ ha.le hac 2)
  have hupper : (c * x) ^ 2 + (a * y) ^ 2 + (c ^ 2 - a ^ 2) * y ^ 2 = c ^ 2 := by
    linear_combination c ^ 2 * h
  have hpos : 0 < √((c * x) ^ 2 + (a * y) ^ 2) := Real.sqrt_pos.2 (ellipse_pos ha hc h)
  have hle : √((c * x) ^ 2 + (a * y) ^ 2) ≤ c := by
    refine Real.sqrt_le_iff.2 ⟨hc.le, ?_⟩
    have := mul_nonneg hsq (sq_nonneg y)
    linarith
  refine ⟨(le_div_iff₀ hpos).2 (mul_le_mul_of_nonneg_left hle ha.le), ?_⟩
  calc a * c / √((c * x) ^ 2 + (a * y) ^ 2) = a
      ↔ c = √((c * x) ^ 2 + (a * y) ^ 2) := by rw [div_eq_iff hpos.ne', mul_right_inj' ha.ne']
    _ ↔ c ^ 2 = (c * x) ^ 2 + (a * y) ^ 2 := by
      rw [eq_comm, Real.sqrt_eq_iff_eq_sq (by positivity) hc.le, eq_comm]
    _ ↔ (c ^ 2 - a ^ 2) * y ^ 2 = 0 := by
      constructor <;> intro <;> linarith
    _ ↔ a = c ∨ y = 0 := by
      rw [mul_eq_zero, sub_eq_zero, pow_left_inj₀ hc.le ha.le two_ne_zero, eq_comm,
        pow_eq_zero_iff two_ne_zero]

/-- An ellipse is nowhere nearer than along its shorter axis, and is as near only there. -/
theorem ellipse_min {a c x y : ℝ} (ha : 0 < a) (hc : 0 < c) (h : x ^ 2 + y ^ 2 = 1) :
    min a c ≤ a * c / √((c * x) ^ 2 + (a * y) ^ 2) ∧
      (a * c / √((c * x) ^ 2 + (a * y) ^ 2) = min a c ↔
        a = c ∨ (a < c ∧ y = 0) ∨ (c < a ∧ x = 0)) := by
  rcases lt_trichotomy a c with hac | rfl | hca
  · rw [min_eq_left hac.le]
    simpa [hac, hac.not_gt] using ellipse_le ha hac.le h
  · simpa using ellipse_le ha le_rfl h
  · rw [min_eq_right hca.le, mul_comm a c, add_comm]
    simpa [hca, hca.not_gt, eq_comm] using ellipse_le hc hca.le (by rwa [add_comm])

/-! ### Crossings -/

namespace Shape

open Svg

variable {center toward : Point ℝ} {size : Size ℝ}

/-- The distance from the center of the ellipse in a box to its border, in the direction of a
vector. -/
noncomputable def ellipseRadius (size : Size ℝ) (v : Point ℝ) : ℝ :=
  size.width / 2 * (size.height / 2) /
    √((size.height / 2 * (v.x / v.length)) ^ 2 + (size.width / 2 * (v.y / v.length)) ^ 2)

private theorem samePlace_real : (samePlace : ℝ) = 1 / 1000 := by
  have hvalue : (samePlace : ℝ) = ((1 / 1000 : ℚ) : ℝ) := by
    change ((OfScientific.ofScientific 1 true 3 : ℚ) : ℝ) = _
    norm_num
  rw [hvalue]
  norm_num

/-- The distance below which two points count as one is positive. -/
theorem samePlace_pos : (0 : ℝ) < samePlace := by
  rw [samePlace_real]
  norm_num

/-- Points at least a thousandth apart do not count as one. -/
theorem samePlace_le_length {v : Point ℝ} (h : (1 / 1000) ^ 2 ≤ v.x ^ 2 + v.y ^ 2) :
    samePlace ≤ v.length := by
  rw [samePlace_real, length_real]
  exact Real.le_sqrt_of_sq_le h

/-- The line to a point that is not at the center crosses the border of the ellipse in its
direction. -/
theorem ellipseCrossing_real (hfar : samePlace ≤ (toward - center).length) :
    ellipseCrossing center toward size =
      ⟨(toward - center).x / (toward - center).length * ellipseRadius size (toward - center) +
          center.x,
        (toward - center).y / (toward - center).length * ellipseRadius size (toward - center) +
          center.y⟩ := by
  have hpos : 0 < (toward - center).length := samePlace_pos.trans_le hfar
  rw [ellipseCrossing]
  dsimp only
  rw [if_neg (not_lt.2 hfar), heading_of_unit (unit_of_length hpos)]
  simp only [literal_real, Nat.cast_ofNat]
  rfl

/-- The ellipse in a box is a distance away in every direction, half the smaller side at least. -/
theorem ellipseRadius_spec {v : Point ℝ} (hw : 0 < size.width) (hh : 0 < size.height)
    (hv : 0 < v.length) :
    min (size.width / 2) (size.height / 2) ≤ ellipseRadius size v ∧
      (ellipseRadius size v = min (size.width / 2) (size.height / 2) ↔
        size.width = size.height ∨ (size.width < size.height ∧ v.y = 0) ∨
          (size.height < size.width ∧ v.x = 0)) := by
  obtain ⟨hle, hiff⟩ := ellipse_min (half_pos hw) (half_pos hh) (unit_of_length hv)
  refine ⟨hle, hiff.trans ?_⟩
  simp only [div_left_inj' (two_ne_zero' ℝ), div_lt_div_iff_of_pos_right (zero_lt_two' ℝ),
    div_eq_zero_iff, hv.ne', or_false]

end Shape

/-! ### Rings -/

namespace Svg

private theorem circleRadius_real (size : Size ℝ) :
    circleRadius size = min (size.width / 2) (size.height / 2) := by
  rw [min_div_div_right zero_le_two, circleRadius]
  simp only [literal_real, Nat.cast_ofNat]
  rfl

/-- The second ring of a double circle lies in the first one. -/
theorem innerRadius_le {size : Size ℝ} (hw : 0 ≤ size.width) (hh : 0 ≤ size.height) :
    innerRadius size ≤ circleRadius size := by
  have hnonneg : 0 ≤ circleRadius size := by
    rw [circleRadius_real]
    positivity
  have hgap : (0 : ℝ) ≤ Shape.ringGap := by
    rw [Shape.ringGap, literal_real]
    exact Nat.cast_nonneg 5
  refine max_le (sub_le_self _ hgap) ?_
  rwa [literal_real, Nat.cast_zero]

end Svg

/-! ### Circles -/

section

open Shape Svg

/-- The line to a point that is not at the center of a circle leaves the ellipse in its box. -/
theorem crossing_circle {b : PlacedBlock ℝ} {toward : Point ℝ}
    (hshape : b.block.shape = .circle ∨ b.block.shape = .doubleCircle)
    (hfar : samePlace ≤ (toward - b.center).length) :
    b.crossing toward - b.center = (toward - b.center).scale
      (ellipseRadius b.size (toward - b.center) / (toward - b.center).length) := by
  have hcrossing : b.crossing toward = ellipseCrossing b.center toward b.size := by
    rcases hshape with h | h
    · rw [PlacedBlock.crossing, h, crossing]
    · rw [PlacedBlock.crossing, h, crossing]
  rw [hcrossing, ellipseCrossing_real hfar]
  change Point.mk _ _ = Point.mk _ _
  congr 1
  · ring
  · ring

private theorem length_crossing {b : PlacedBlock ℝ} {toward : Point ℝ}
    (hshape : b.block.shape = .circle ∨ b.block.shape = .doubleCircle)
    (hfar : samePlace ≤ (toward - b.center).length)
    (hradius : 0 ≤ ellipseRadius b.size (toward - b.center)) :
    (b.crossing toward - b.center).length = ellipseRadius b.size (toward - b.center) := by
  have hpos : 0 < (toward - b.center).length := samePlace_pos.trans_le hfar
  rw [crossing_circle hshape hfar, length_scale _ (div_nonneg hradius hpos.le),
    mul_div_cancel₀ _ hpos.ne']

/-- In exact arithmetic a line leaves a circle or a double circle on the ellipse that touches the box
of the block, which is no nearer to the center than the outer ring, and at the same distance exactly
if the box is a square or the line runs along its smaller side. -/
theorem crossing_ring (b : PlacedBlock ℝ) (toward : Point ℝ)
    (hshape : b.block.shape = .circle ∨ b.block.shape = .doubleCircle)
    (hw : 0 < b.size.width) (hh : 0 < b.size.height)
    (hfar : samePlace ≤ (toward - b.center).length) :
    innerRadius b.size ≤ circleRadius b.size ∧
    (∃ t, 0 < t ∧ b.crossing toward - b.center = (toward - b.center).scale t) ∧
    ((b.crossing toward - b.center).x / (b.size.width / 2)) ^ 2 +
      ((b.crossing toward - b.center).y / (b.size.height / 2)) ^ 2 = 1 ∧
    circleRadius b.size ≤ (b.crossing toward - b.center).length ∧
    ((b.crossing toward - b.center).length = circleRadius b.size ↔
      b.size.width = b.size.height ∨
        (b.size.width < b.size.height ∧ toward.y = b.center.y) ∨
        (b.size.height < b.size.width ∧ toward.x = b.center.x)) := by
  have hpos : 0 < (toward - b.center).length := samePlace_pos.trans_le hfar
  obtain ⟨hle, hiff⟩ := ellipseRadius_spec hw hh hpos
  have hradius : 0 < ellipseRadius b.size (toward - b.center) :=
    (lt_min (half_pos hw) (half_pos hh)).trans_le hle
  have hlength := length_crossing hshape hfar hradius.le
  refine ⟨innerRadius_le hw.le hh.le,
    ⟨_, div_pos hradius hpos, crossing_circle hshape hfar⟩, ?_, ?_, ?_⟩
  · rw [crossing_circle hshape hfar]
    have hone := ellipse_eq_one (half_pos hw) (half_pos hh) (unit_of_length hpos)
    rw [← hone, Point.scale, ellipseRadius]
    congr 3
    · ring
    · ring
  · rwa [hlength, circleRadius_real]
  · rw [hlength, circleRadius_real, hiff]
    have hx : (toward - b.center).x = 0 ↔ toward.x = b.center.x := sub_eq_zero
    have hy : (toward - b.center).y = 0 ↔ toward.y = b.center.y := sub_eq_zero
    rw [hx, hy]

/-- The block of a rational layout among the real ones. -/
noncomputable def PlacedBlock.toReal (b : PlacedBlock ℚ) : PlacedBlock ℝ where
  block := b.block
  center := ⟨b.center.x, b.center.y⟩
  size := ⟨b.size.width, b.size.height⟩

/-- The circle of a crowded row, where it is placed. -/
def placedCircle : PlacedBlock ℚ where
  block := Layout.crowdedCircle
  center := ⟨150, 0⟩
  size := ⟨300, 20⟩

/-- The center of the cylinder next to it. -/
def nextToCircle : Point ℝ :=
  ⟨452, 0⟩

private theorem sub_nextToCircle : nextToCircle - placedCircle.toReal.center = ⟨302, 0⟩ := by
  have hx : nextToCircle.x - placedCircle.toReal.center.x = 302 := by
    norm_num [nextToCircle, placedCircle, PlacedBlock.toReal]
  have hy : nextToCircle.y - placedCircle.toReal.center.y = 0 := by
    norm_num [nextToCircle, placedCircle, PlacedBlock.toReal]
  rw [← hx, ← hy]
  rfl

private theorem samePlace_le_nextToCircle :
    samePlace ≤ (nextToCircle - placedCircle.toReal.center).length := by
  rw [sub_nextToCircle]
  exact samePlace_le_length (by norm_num)

private theorem size_placedCircle : placedCircle.toReal.size = ⟨300, 20⟩ := by
  norm_num [PlacedBlock.toReal, placedCircle]

private theorem size_placedCircle_pos :
    0 < placedCircle.toReal.size.width ∧ 0 < placedCircle.toReal.size.height := by
  rw [size_placedCircle]
  norm_num

/-- A line from the circle of a crowded row to the cylinder next to it does not end inside the
circle. -/
theorem circleRadius_le_crossing :
    (placedCircle.block.shape = .circle ∨ placedCircle.block.shape = .doubleCircle) ∧
      0 < placedCircle.toReal.size.width ∧ 0 < placedCircle.toReal.size.height ∧
      samePlace ≤ (nextToCircle - placedCircle.toReal.center).length ∧
      circleRadius placedCircle.toReal.size ≤
        (placedCircle.toReal.crossing nextToCircle - placedCircle.toReal.center).length := by
  obtain ⟨hw, hh⟩ := size_placedCircle_pos
  have hspec := crossing_ring placedCircle.toReal nextToCircle (.inl rfl) hw hh
    samePlace_le_nextToCircle
  exact ⟨.inl rfl, hw, hh, samePlace_le_nextToCircle, hspec.2.2.2.1⟩

/-- It ends outside of the circle. -/
theorem exists_crossing_ne_ring : ∃ (ss : List (Source.Located Statement)) (d : Document)
    (layout : Layout ℚ), statements Layout.crowded = .ok ss ∧
      Document.parse 9 Layout.crowded = .ok d ∧ BlockId.root ∉ namesIn ss ∧
      Layout.compute ⟨2, 0, []⟩ Layout.crowdedMeasure d = .ok layout ∧
      Layout.crowdedCircle ∈ d.walk ∧
      Diagram.placed? layout Layout.crowdedCircle = some placedCircle ∧
      placedCircle.block.shape = .circle ∧
      0 < placedCircle.toReal.size.width ∧ 0 < placedCircle.toReal.size.height ∧
      samePlace ≤ (nextToCircle - placedCircle.toReal.center).length ∧
      (placedCircle.toReal.crossing nextToCircle - placedCircle.toReal.center).length ≠
        circleRadius placedCircle.toReal.size := by
  obtain ⟨ss, d, layout, hss, hd, hroot, hlayout, hblocks, hsizes, hcenters⟩ :=
    Layout.exists_crowded
  simp only [List.map_cons, List.cons.injEq] at hsizes hcenters
  obtain ⟨hmem, -⟩ := hblocks Layout.crowdedCircle (by decide)
  have hplaced : Diagram.placed? layout Layout.crowdedCircle = some placedCircle := by
    rw [Diagram.placed?, show Layout.crowdedCircle.id = "a" from rfl, hcenters.1, hsizes.1]
    rfl
  obtain ⟨hw, hh⟩ := size_placedCircle_pos
  have hpos := samePlace_pos.trans_le samePlace_le_nextToCircle
  obtain ⟨hle, hiff⟩ := ellipseRadius_spec hw hh hpos
  have hlength := length_crossing (b := placedCircle.toReal) (.inl rfl) samePlace_le_nextToCircle
    ((lt_min (half_pos hw) (half_pos hh)).le.trans hle)
  refine ⟨ss, d, layout, hss, hd, hroot, hlayout, hmem, hplaced, rfl, hw, hh,
    samePlace_le_nextToCircle, ?_⟩
  rw [hlength, circleRadius_real, ne_eq, hiff, sub_nextToCircle, size_placedCircle]
  norm_num

end

end BlockDiagram
