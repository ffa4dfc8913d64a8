import Mathlib.Algebra.Order.Field.Basic
import BlockDiagram.Proofs.Shape.Crossing

/-!
# Where lines leave boxes

A line from the center of a box is tried with the lines through all four sides. Those it runs along
give no distance, those behind it a negative one, and of the others the nearer one is on the border
(`exits_borderDistance`). So the line always ends on the border of the box, in its own direction
(`rectangleCrossing_onBorder`).
-/

namespace BlockDiagram

/-- Holds for the points on the four sides of a box. -/
structure Bounds.OnBorder (box : Bounds ℝ) (p : Point ℝ) : Prop where
  minX : box.minX ≤ p.x
  maxX : p.x ≤ box.maxX
  minY : box.minY ≤ p.y
  maxY : p.y ≤ box.maxY
  side : p.x = box.minX ∨ p.x = box.maxX ∨ p.y = box.minY ∨ p.y = box.maxY

/-- The vector of length one in the direction of a vector. -/
def Point.direction {α : Type} [MetricScalar α] (v : Point α) : Point α :=
  ⟨v.x / v.length, v.y / v.length⟩

namespace Shape

open MetricScalar

/-! ### Candidates -/

section

variable {hits : ℝ → Bool} {best t h x : ℝ}

private theorem nearer_real :
    nearer hits best t = if 0 < t ∧ t < best ∧ hits t = true then t else best := by
  rw [nearer]
  simp only [Scalar.isFinite, literal_real, Nat.cast_zero, Bool.true_and, Bool.and_eq_true,
    decide_eq_true_eq, and_assoc]

/-- A distance that is not in front is passed over. So is what a division by zero gives: whether
that is zero or not finite makes no difference. -/
theorem nearer_of_nonpos (ht : t ≤ 0) : nearer hits best t = best := by
  rw [nearer_real, if_neg fun h ↦ not_lt.2 ht h.1]

private theorem nearer_eq_right (ht : 0 < t) (hlt : t < best) (hhits : hits t = true) :
    nearer hits best t = t := by
  rw [nearer_real, if_pos ⟨ht, hlt, hhits⟩]

private theorem nearer_cases (hits : ℝ → Bool) (best t : ℝ) : nearer hits best t = best ∨
    (nearer hits best t = t ∧ 0 < t ∧ t < best ∧ hits t = true) := by
  rw [nearer_real]
  split
  · next h => exact .inr ⟨rfl, h⟩
  · exact .inl rfl

/-- Of two opposite sides one is in front at most. -/
theorem foldl_nearer_pair (hh : 0 < h) :
    [-h / x, h / x].foldl (nearer hits) best = nearer hits best (h / |x|) := by
  rw [List.foldl_cons, List.foldl_cons, List.foldl_nil]
  rcases lt_trichotomy x 0 with hx | rfl | hx
  · have hbehind : h / x ≤ 0 := (div_neg_of_pos_of_neg hh hx).le
    rw [nearer_of_nonpos hbehind, abs_of_neg hx, div_neg, neg_div]
  · simp [nearer_of_nonpos]
  · have hbehind : -h / x ≤ 0 := (div_neg_of_neg_of_pos (neg_lt_zero.2 hh) hx).le
    rw [nearer_of_nonpos hbehind, abs_of_pos hx]

end

/-! ### The nearest side -/

section

variable {a b direction : Point ℝ} {size : Size ℝ} {t : ℝ}

/-- The distance at which the line from the center `a` of a box in a direction is found to cross the
border. -/
def borderDistance {α : Type} [MetricScalar α] (a direction : Point α) (size : Size α) : α :=
  let halfWidth := size.width / 2
  let halfHeight := size.height / 2
  let hitsHorizontal (t : α) : Bool :=
    let x := mulAdd direction.x t a.x
    a.x - halfWidth ≤ x && x ≤ a.x + halfWidth
  let hitsVertical (t : α) : Bool :=
    let y := mulAdd direction.y t a.y
    a.y - halfHeight ≤ y && y ≤ a.y + halfHeight
  let t := [-halfHeight / direction.y, halfHeight / direction.y].foldl (nearer hitsHorizontal)
    largest
  [-halfWidth / direction.x, halfWidth / direction.x].foldl (nearer hitsVertical) t

private theorem rectangleCrossing_eq (a b : Point ℝ) (size : Size ℝ) :
    rectangleCrossing a b size =
      if (b - a).length < samePlace then b
      else if borderDistance a (b - a).direction size == largest then b
      else along a (b - a).direction (borderDistance a (b - a).direction size) := rfl

/-- Holds for the distances at which a line in a direction comes to a side of a box. -/
structure Exits (size : Size ℝ) (direction : Point ℝ) (t : ℝ) : Prop where
  pos : 0 < t
  lt_largest : t < largest
  abs_x_le : |direction.x * t| ≤ size.width / 2
  abs_y_le : |direction.y * t| ≤ size.height / 2
  side : |direction.x * t| = size.width / 2 ∨ |direction.y * t| = size.height / 2

private theorem hits_iff {x half c : ℝ} :
    (c - half ≤ x * t + c ∧ x * t + c ≤ c + half) ↔ |x * t| ≤ half := by
  rw [abs_le]
  constructor <;> rintro ⟨h, h'⟩ <;> constructor <;> linarith

private theorem borderDistance_real (hw : 0 < size.width) (hh : 0 < size.height) :
    borderDistance a direction size =
      nearer (fun t ↦ |direction.y * t| ≤ size.height / 2)
        (nearer (fun t ↦ |direction.x * t| ≤ size.width / 2) largest
          (size.height / 2 / |direction.y|))
        (size.width / 2 / |direction.x|) := by
  have hhits (x half c : ℝ) : (fun t ↦ decide (c - half ≤ mulAdd x t c) &&
      decide (mulAdd x t c ≤ c + half)) = fun t ↦ decide (|x * t| ≤ half) := by
    funext t
    rw [← Bool.decide_and]
    exact decide_eq_decide.2 hits_iff
  rw [← foldl_nearer_pair (half_pos hw), ← foldl_nearer_pair (half_pos hh),
    ← hhits direction.x _ a.x, ← hhits direction.y _ a.y, borderDistance]
  simp only [literal_real, Nat.cast_ofNat]

private theorem largest_real : (10 : ℝ) ^ 30 < largest := by
  change (10 : ℝ) ^ 30 < (2 - 2⁻¹ ^ 23) * 2 ^ 127
  norm_num

/-- In a direction of length one no point of a box is farther than half of its width and half of its
height. -/
theorem le_add_of_unit {x y w h : ℝ} (hunit : x ^ 2 + y ^ 2 = 1) (ht : 0 ≤ t) (hx : |x * t| ≤ w)
    (hy : |y * t| ≤ h) : t ≤ w + h := by
  have hx' : x ^ 2 ≤ |x| := by
    have hle : |x| ≤ 1 := abs_le_one_iff_mul_self_le_one.2 (by nlinarith [sq_nonneg y])
    rw [← sq_abs, sq]
    exact mul_le_of_le_one_left (abs_nonneg x) hle
  have hy' : y ^ 2 ≤ |y| := by
    have hle : |y| ≤ 1 := abs_le_one_iff_mul_self_le_one.2 (by nlinarith [sq_nonneg x])
    rw [← sq_abs, sq]
    exact mul_le_of_le_one_left (abs_nonneg y) hle
  rw [abs_mul, abs_of_nonneg ht] at hx hy
  calc t = (x ^ 2 + y ^ 2) * t := by rw [hunit, one_mul]
    _ ≤ (|x| + |y|) * t := by gcongr
    _ ≤ w + h := by linarith

/-- A line that comes to a side at a distance in front does not run along it. -/
theorem abs_mul_div_abs {x h : ℝ} (hh : 0 < h) (ht : 0 < h / |x|) : |x * (h / |x|)| = h := by
  have hx : |x| ≠ 0 := by
    intro hzero
    rw [hzero, div_zero] at ht
    exact ht.false
  rw [abs_mul, abs_div, abs_abs, abs_of_pos hh, mul_div_cancel₀ _ hx]

/-- The side that a line comes to first is hit between its ends. -/
theorem abs_mul_div_abs_le {x y w h : ℝ} (hh : 0 < h) (hunit : x ^ 2 + y ^ 2 = 1)
    (hle : h * |x| ≤ w * |y|) : 0 < h / |y| ∧ |x * (h / |y|)| ≤ w := by
  have hy : 0 < |y| := by
    refine abs_pos.2 fun hy ↦ ?_
    have hx : x = 0 := by
      rw [hy, abs_zero, mul_zero] at hle
      exact abs_nonpos_iff.1 (nonpos_of_mul_nonpos_right hle hh)
    norm_num [hx, hy] at hunit
  refine ⟨div_pos hh hy, ?_⟩
  rw [abs_mul, abs_div, abs_abs, abs_of_pos hh, ← mul_div_assoc, div_le_iff₀ hy, mul_comm]
  exact hle

/-- The line crosses the border at one of the distances that it is tried with. -/
theorem exits_borderDistance (a : Point ℝ) (hw : 0 < size.width) (hh : 0 < size.height)
    (hwidth : size.width ≤ 10 ^ 30) (hheight : size.height ≤ 10 ^ 30)
    (hunit : direction.x ^ 2 + direction.y ^ 2 = 1) :
    Exits size direction (borderDistance a direction size) := by
  have hlargest {t : ℝ} (ht : 0 < t) (hx : |direction.x * t| ≤ size.width / 2)
      (hy : |direction.y * t| ≤ size.height / 2) : t < largest := by
    have := le_add_of_unit hunit ht.le hx hy
    linarith [largest_real]
  rw [borderDistance_real hw hh]
  set p := size.height / 2 / |direction.y|
  set q := size.width / 2 / |direction.x|
  have hp (hpos : 0 < p) (hx : |direction.x * p| ≤ size.width / 2) : Exits size direction p := by
    have hy : |direction.y * p| = size.height / 2 := abs_mul_div_abs (half_pos hh) hpos
    exact ⟨hpos, hlargest hpos hx hy.le, hx, hy.le, .inr hy⟩
  have hq (hpos : 0 < q) (hy : |direction.y * q| ≤ size.height / 2) : Exits size direction q := by
    have hx : |direction.x * q| = size.width / 2 := abs_mul_div_abs (half_pos hw) hpos
    exact ⟨hpos, hlargest hpos hx.le hy, hx.le, hy, .inl hx⟩
  let hitsHorizontal (t : ℝ) : Bool := |direction.x * t| ≤ size.width / 2
  let hitsVertical (t : ℝ) : Bool := |direction.y * t| ≤ size.height / 2
  change Exits size direction (nearer hitsVertical (nearer hitsHorizontal largest p) q)
  -- A distance that is taken is one of both, and the smaller one of both is not refused.
  rcases le_total (size.height / 2 * |direction.x|) (size.width / 2 * |direction.y|) with hle | hle
  · obtain ⟨hpos, hx⟩ := abs_mul_div_abs_le (half_pos hh) hunit hle
    have hexits := hp hpos hx
    rw [nearer_eq_right hpos hexits.lt_largest (decide_eq_true hx)]
    rcases nearer_cases hitsVertical p q with hkept | ⟨htaken, hqpos, -, hy⟩
    · rwa [hkept]
    · rw [htaken]
      exact hq hqpos (of_decide_eq_true hy)
  · obtain ⟨hpos, hy⟩ := abs_mul_div_abs_le (half_pos hw) ((add_comm _ _).trans hunit) hle
    have hexits := hq hpos hy
    rcases nearer_cases hitsHorizontal largest p with hnone | ⟨hfirst, hppos, -, hx⟩
    · rw [hnone, nearer_eq_right hpos hexits.lt_largest (decide_eq_true hy)]
      exact hexits
    · rw [hfirst]
      rcases nearer_cases hitsVertical p q with hkept | ⟨htaken, -⟩
      · rw [hkept]
        exact hp hppos (of_decide_eq_true hx)
      · rwa [htaken]

/-- The point at which a line comes to a side is on the border of the box. -/
theorem Exits.onBorder (h : Exits size direction t) (a : Point ℝ) :
    (Bounds.around a size).OnBorder (along a direction t) := by
  have hpoint : along a direction t = ⟨direction.x * t + a.x, direction.y * t + a.y⟩ := rfl
  have hbox : Bounds.around a size = ⟨a.x - size.width / 2, a.y - size.height / 2,
      a.x + size.width / 2, a.y + size.height / 2⟩ := by
    simp only [Bounds.around, literal_real, Nat.cast_ofNat]
  rw [hpoint, hbox]
  obtain ⟨hminX, hmaxX⟩ := hits_iff.2 h.abs_x_le
  obtain ⟨hminY, hmaxY⟩ := hits_iff.2 h.abs_y_le
  refine ⟨hminX, hmaxX, hminY, hmaxY, ?_⟩
  dsimp only
  rcases h.side with hx | hy
  · rcases eq_or_eq_neg_of_abs_eq hx with hx | hx
    · exact .inr (.inl (by linarith))
    · exact .inl (by linarith)
  · rcases eq_or_eq_neg_of_abs_eq hy with hy | hy
    · exact .inr (.inr (.inr (by linarith)))
    · exact .inr (.inr (.inl (by linarith)))

/-- The line from the center of a box to a point that is not there ends on the border of the box, on
its way to the point. The point itself is never taken in place of that. -/
theorem rectangleCrossing_onBorder (a b : Point ℝ) (size : Size ℝ) (hw : 0 < size.width)
    (hh : 0 < size.height) (hwidth : size.width ≤ 10 ^ 30) (hheight : size.height ≤ 10 ^ 30)
    (hfar : samePlace ≤ (b - a).length) :
    borderDistance a (b - a).direction size ≠ largest ∧
      rectangleCrossing a b size =
        along a (b - a).direction (borderDistance a (b - a).direction size) ∧
      (∃ t, 0 < t ∧ rectangleCrossing a b size = a + (b - a).scale t) ∧
      (Bounds.around a size).OnBorder (rectangleCrossing a b size) := by
  have hpos : 0 < (b - a).length := samePlace_pos.trans_le hfar
  have hexits : Exits size (b - a).direction (borderDistance a (b - a).direction size) :=
    exits_borderDistance a hw hh hwidth hheight (unit_of_length hpos)
  have hne : borderDistance a (b - a).direction size ≠ largest := hexits.lt_largest.ne
  have hcrossing : rectangleCrossing a b size =
      along a (b - a).direction (borderDistance a (b - a).direction size) := by
    rw [rectangleCrossing_eq, if_neg (not_lt.2 hfar), if_neg (by simpa using hne)]
  rw [hcrossing]
  refine ⟨hne, rfl, ⟨_, div_pos hexits.pos hpos, ?_⟩, hexits.onBorder a⟩
  change Point.mk (_ / _ * _ + a.x) (_ / _ * _ + a.y) =
    Point.mk (a.x + _ * (_ / _)) (a.y + _ * (_ / _))
  congr 1
  · ring
  · ring

/-- A line to a corner ends there, where both sides are hit. -/
theorem rectangleCrossing_corner :
    samePlace ≤ ((⟨40, 20⟩ : Point ℝ) - ⟨0, 0⟩).length ∧
      rectangleCrossing (⟨0, 0⟩ : Point ℝ) ⟨40, 20⟩ ⟨20, 10⟩ = ⟨10, 5⟩ := by
  have hray : (⟨40, 20⟩ : Point ℝ) - ⟨0, 0⟩ = ⟨40, 20⟩ := by
    change Point.mk (40 - 0 : ℝ) (20 - 0) = _
    norm_num
  have hfar : samePlace ≤ ((⟨40, 20⟩ : Point ℝ) - ⟨0, 0⟩).length := by
    rw [hray]
    exact samePlace_le_length (by norm_num)
  obtain ⟨-, -, ⟨t, ht, hpoint⟩, hborder⟩ := rectangleCrossing_onBorder ⟨0, 0⟩ ⟨40, 20⟩ ⟨20, 10⟩
    (by norm_num) (by norm_num) (by norm_num) (by norm_num) hfar
  have hon : rectangleCrossing (⟨0, 0⟩ : Point ℝ) ⟨40, 20⟩ ⟨20, 10⟩ = ⟨40 * t, 20 * t⟩ := by
    rw [hpoint, hray]
    change Point.mk (0 + 40 * t) (0 + 20 * t) = _
    rw [zero_add, zero_add]
  have hbox : Bounds.around (⟨0, 0⟩ : Point ℝ) ⟨20, 10⟩ = ⟨-10, -5, 10, 5⟩ := by
    simp only [Bounds.around, literal_real]
    norm_num
  rw [hon, hbox] at hborder
  obtain ⟨-, hmaxX, -, -, hside⟩ := hborder
  dsimp only at hmaxX hside
  have hquarter : t = 1 / 4 := by
    rcases hside with h | h | h | h <;> linarith
  refine ⟨hfar, ?_⟩
  rw [hon, hquarter]
  norm_num

end

end Shape

end BlockDiagram
