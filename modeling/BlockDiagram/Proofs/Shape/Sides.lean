import Mathlib.Data.List.Rotate
import Mathlib.Order.Bounds.Basic
import BlockDiagram.Proofs.Shape.Crossing

/-!
# Where lines first cross outlines

A side that is not next to parallel to a ray is crossed where it meets the ray
(`sideCrossing_none_eq_some_iff`), and on the way around an outline the nearest of these crossings
is kept (`IsNearest.foldl`). So a line from the center leaves an outline at the first such side in
front of it, and goes on to its end only if there is none (`outlineCrossing_first`).
-/

namespace BlockDiagram.Shape

/-! ### Sides -/

section

variable {β : Type} {outline : List β} {side : β × β}

/-- Holds for a corner of a closed outline and the next one. Behind the last corner comes the
first. -/
def IsSide (outline : List β) (side : β × β) : Prop :=
  ∃ i < outline.length,
    outline[i]? = some side.1 ∧ outline[(i + 1) % outline.length]? = some side.2

private theorem sides_eq_zip_rotate (outline : List β) :
    sides outline = outline.zip (outline.rotate 1) := by
  cases outline with
  | nil => rfl
  | cons p outline => rw [sides, List.rotate_eq_drop_append_take (Nat.le_add_left 1 _)]

private theorem mem_sides_iff : side ∈ sides outline ↔ IsSide outline side := by
  simp only [sides_eq_zip_rotate, List.mem_iff_getElem?, List.getElem?_zip_eq_some]
  constructor
  · rintro ⟨i, hfirst, hsecond⟩
    have hi : i < outline.length := (List.getElem?_eq_some_iff.1 hfirst).1
    exact ⟨i, hi, hfirst, by rwa [List.getElem?_rotate hi] at hsecond⟩
  · rintro ⟨i, hi, hfirst, hsecond⟩
    exact ⟨i, hfirst, by rwa [List.getElem?_rotate hi]⟩

end

/-! ### Crossings -/

variable {a b ray : Point ℝ} {outline : List (Point ℝ)} {side : Point ℝ × Point ℝ} {t : ℝ}

/-- Holds for the sides that are not next to parallel to a ray. -/
def IsSteep (ray : Point ℝ) (side : Point ℝ × Point ℝ) : Prop :=
  MetricScalar.epsilon ≤ |cross ray (side.2 - side.1)|

/-- Holds when the point at a multiple of the ray from `a` lies on a side of an outline around
`a`. -/
def Meets (a ray : Point ℝ) (side : Point ℝ × Point ℝ) (t : ℝ) : Prop :=
  ∃ s, 0 ≤ s ∧ s ≤ 1 ∧ a + ray.scale t = a + side.1 + (side.2 - side.1).scale s

/-- Holds for the multiples of the ray at which it crosses a side. The ray has its start behind
it. -/
def Crosses (a ray : Point ℝ) (side : Point ℝ × Point ℝ) (t : ℝ) : Prop :=
  0 < t ∧ IsSteep ray side ∧ Meets a ray side t

private theorem epsilon_pos : (0 : ℝ) < MetricScalar.epsilon := by
  change (0 : ℝ) < 2⁻¹ ^ 23
  positivity

private theorem add_sub_add_left_point (a p q : Point ℝ) : (a + q) - (a + p) = q - p := by
  change Point.mk _ _ = Point.mk _ _
  congr 1
  · exact add_sub_add_left_eq_sub q.x p.x a.x
  · exact add_sub_add_left_eq_sub q.y p.y a.y

private theorem add_sub_cancel_left_point (a p : Point ℝ) : (a + p) - a = p := by
  change Point.mk _ _ = p
  cases p
  congr 1
  · exact add_sub_cancel_left _ _
  · exact add_sub_cancel_left _ _

private theorem x_sub_real (p q : Point ℝ) : (p - q).x = p.x - q.x := rfl

private theorem y_sub_real (p q : Point ℝ) : (p - q).y = p.y - q.y := rfl

private theorem cross_real (u v : Point ℝ) : cross u v = u.x * v.y - u.y * v.x := rfl

private theorem add_scale_eq_iff {p e : Point ℝ} {s : ℝ} :
    a + ray.scale t = a + p + e.scale s ↔
      ray.x * t = p.x + e.x * s ∧ ray.y * t = p.y + e.y * s := by
  change Point.mk (a.x + ray.x * t) (a.y + ray.y * t) =
    Point.mk (a.x + p.x + e.x * s) (a.y + p.y + e.y * s) ↔ _
  rw [Point.mk.injEq, add_assoc, add_assoc, add_right_inj, add_right_inj]

/-- A side that is not parallel to the ray meets its line at one point. -/
theorem add_scale_eq_iff_of_cross_ne_zero {p e : Point ℝ} {s : ℝ} (h : cross ray e ≠ 0) :
    a + ray.scale t = a + p + e.scale s ↔
      t = cross p e / cross ray e ∧ s = cross p ray / cross ray e := by
  rw [add_scale_eq_iff, eq_div_iff h, eq_div_iff h]
  simp only [cross_real] at h ⊢
  constructor
  · rintro ⟨hx, hy⟩
    constructor
    · linear_combination e.y * hx - e.x * hy
    · linear_combination ray.y * hx - ray.x * hy
  · rintro ⟨ht, hs⟩
    constructor
    · apply mul_right_cancel₀ h
      linear_combination ray.x * ht - e.x * hs
    · apply mul_right_cancel₀ h
      linear_combination ray.y * ht - e.y * hs

/-- A side is looked at for a crossing if it is steep, and that replaces one that is not as near. -/
theorem sideCrossing_real (best : Option ℝ) :
    sideCrossing a ray best side =
      if |cross ray (side.2 - side.1)| < MetricScalar.epsilon then best
      else if 0 < cross side.1 (side.2 - side.1) / cross ray (side.2 - side.1) ∧
          0 ≤ cross side.1 ray / cross ray (side.2 - side.1) ∧
          cross side.1 ray / cross ray (side.2 - side.1) ≤ 1 ∧
          ∀ u ∈ best, cross side.1 (side.2 - side.1) / cross ray (side.2 - side.1) < u then
        some (cross side.1 (side.2 - side.1) / cross ray (side.2 - side.1))
      else best := by
  rw [sideCrossing]
  simp only [add_sub_add_left_point, add_sub_cancel_left_point, literal_real, Nat.cast_zero,
    Nat.cast_one, Bool.and_eq_true, decide_eq_true_eq, Option.all_eq_true, and_assoc]
  rfl

/-- What is found of a single side is where the ray crosses it. -/
theorem sideCrossing_none_eq_some_iff :
    sideCrossing a ray none side = some t ↔ Crosses a ray side t := by
  rw [sideCrossing_real]
  by_cases hsteep : IsSteep ray side
  · have harea : cross ray (side.2 - side.1) ≠ 0 := abs_pos.1 (epsilon_pos.trans_le hsteep)
    rw [if_neg (not_lt.2 hsteep), Crosses, Meets]
    simp only [add_scale_eq_iff_of_cross_ne_zero harea]
    constructor
    · intro h
      split at h
      · next hfound =>
        obtain rfl := Option.some.inj h
        exact ⟨hfound.1, hsteep, _, hfound.2.1, hfound.2.2.1, rfl, rfl⟩
      · cases h
    · rintro ⟨hpos, -, s, hs, hs', rfl, rfl⟩
      rw [if_pos ⟨hpos, hs, hs', by simp⟩]
  · rw [if_pos (not_le.1 hsteep)]
    constructor
    · intro h
      cases h
    · rintro ⟨-, h, -⟩
      exact absurd h hsteep

/-- What is found of a side replaces what is found of others if it is nearer. -/
theorem sideCrossing_eq (best : Option ℝ) :
    sideCrossing a ray best side = (sideCrossing a ray none side).elim best fun t ↦
      if ∀ u ∈ best, t < u then some t else best := by
  rw [sideCrossing_real, sideCrossing_real]
  split
  · rfl
  · generalize cross side.1 (side.2 - side.1) / cross ray (side.2 - side.1) = t
    generalize cross side.1 ray / cross ray (side.2 - side.1) = s
    by_cases hhit : 0 < t ∧ 0 ≤ s ∧ s ≤ 1
    · simp [hhit]
    · have hmiss : ∀ p : Prop, ¬ (0 < t ∧ 0 ≤ s ∧ s ≤ 1 ∧ p) := fun p h ↦
        hhit ⟨h.1, h.2.1, h.2.2.1⟩
      rw [if_neg (hmiss _), if_neg (hmiss _)]
      rfl

/-! ### The nearest crossing -/

/-- Holds for the least number of a set, and for nothing if the set is empty. -/
def IsNearest (s : Set ℝ) : Option ℝ → Prop
  | none => s = ∅
  | some t => IsLeast s t

/-- One more side is looked at. -/
theorem IsNearest.sideCrossing {s : Set ℝ} {best : Option ℝ} (h : IsNearest s best)
    (a ray : Point ℝ) (side : Point ℝ × Point ℝ) :
    IsNearest (s ∪ {t | Crosses a ray side t}) (sideCrossing a ray best side) := by
  rw [sideCrossing_eq]
  cases hfound : Shape.sideCrossing a ray none side with
  | none =>
    have hempty : {t | Crosses a ray side t} = ∅ := by
      refine Set.eq_empty_of_forall_notMem fun t ht ↦ ?_
      rw [sideCrossing_none_eq_some_iff.2 ht] at hfound
      cases hfound
    rwa [hempty, Set.union_empty]
  | some t =>
    have hsingle : {t | Crosses a ray side t} = {t} := by
      ext u
      rw [Set.mem_ofPred_eq, ← sideCrossing_none_eq_some_iff, hfound, Option.some_inj, eq_comm]
      rfl
    rw [hsingle, Option.elim_some]
    cases best with
    | none =>
      have hs : s = ∅ := h
      rw [hs, Set.empty_union, if_pos (by simp)]
      exact isLeast_singleton
    | some u =>
      have hleast : IsLeast (s ∪ {t}) (min u t) := IsLeast.union h isLeast_singleton
      simp only [Option.mem_some_iff, forall_eq']
      split
      · next hlt => rwa [min_eq_right hlt.le] at hleast
      · next hge => rwa [min_eq_left (not_lt.1 hge)] at hleast

/-- Around the outline the nearest crossing is found. -/
theorem IsNearest.foldl {s : Set ℝ} {best : Option ℝ} (h : IsNearest s best) (a ray : Point ℝ)
    (sides : List (Point ℝ × Point ℝ)) :
    IsNearest (s ∪ {t | ∃ side ∈ sides, Crosses a ray side t})
      (sides.foldl (Shape.sideCrossing a ray) best) := by
  induction sides generalizing s best with
  | nil => simpa using h
  | cons side sides ih =>
    have hrest := ih (h.sideCrossing a ray side)
    simp only [List.mem_cons, exists_eq_or_imp, Set.ofPred_or, ← Set.union_assoc]
    exact hrest

/-- The multiple of the ray to `b` at which it is found to cross an outline around `a`. -/
def firstCrossing? {α : Type} [MetricScalar α] (a b : Point α) (outline : List (Point α)) :
    Option α :=
  (sides outline).foldl (sideCrossing a (b - a)) none

private theorem isNearest_firstCrossing? (a b : Point ℝ) (outline : List (Point ℝ)) :
    IsNearest {t | ∃ side, IsSide outline side ∧ Crosses a (b - a) side t}
      (firstCrossing? a b outline) := by
  have hnone : IsNearest ∅ none := rfl
  have h := hnone.foldl a (b - a) (sides outline)
  simp only [mem_sides_iff, Set.empty_union] at h
  exact h

/-- The crossing that is found is the least multiple of the ray at which it crosses a side. -/
theorem firstCrossing?_eq_some_iff :
    firstCrossing? a b outline = some t ↔
      IsLeast {t | ∃ side, IsSide outline side ∧ Crosses a (b - a) side t} t := by
  have hnearest := isNearest_firstCrossing? a b outline
  constructor
  · intro h
    rwa [h] at hnearest
  · intro hleast
    cases hfound : firstCrossing? a b outline with
    | none =>
      rw [hfound] at hnearest
      exact absurd hleast.1 (Set.eq_empty_iff_forall_notMem.1 hnearest t)
    | some u =>
      rw [hfound] at hnearest
      exact congrArg some (IsLeast.unique hnearest hleast)

/-- The line to a point that is not at the center ends at the first crossing, if there is one. -/
theorem outlineCrossing_eq (hfar : samePlace ≤ (b - a).length) :
    outlineCrossing a b outline =
      (firstCrossing? a b outline).elim b fun t ↦ a + (b - a).scale t := by
  rw [outlineCrossing, if_neg (not_lt.2 hfar), firstCrossing?]
  cases (sides outline).foldl (sideCrossing a (b - a)) none with
  | none => rfl
  | some t => rfl

/-! ### Flags -/

/-- The corners of a flag of half a width and half a height. The last one is the tip of its
notch. -/
noncomputable def flagOutline (x y : ℝ) : List (Point ℝ) :=
  [⟨-x, -y⟩, ⟨x, -y⟩, ⟨x, y⟩, ⟨-x, y⟩, ⟨-x + y, 0⟩]

private theorem outline?_flag (w h : ℝ) :
    outline? .flag ⟨w, h⟩ [] = some (flagOutline (w / 2) (h / 2)) := by
  simp only [outline?, literal_real, Nat.cast_ofNat, Nat.cast_zero, flagOutline]

private theorem isSteep_right (h : 1 ≤ |side.2.y - side.1.y|) : IsSteep ⟨100, 0⟩ side := by
  have hepsilon : (MetricScalar.epsilon : ℝ) = 2⁻¹ ^ 23 := rfl
  rw [IsSteep, hepsilon, cross_real, x_sub_real, y_sub_real, zero_mul, sub_zero, abs_mul]
  norm_num
  linarith

/-- A line to the right ends at the right side of a flag, if the tip of the notch is not in front of
it between the center and that side. -/
theorem firstCrossing?_flag {x y : ℝ} {start toward : Point ℝ} (hray : toward - start = ⟨100, 0⟩)
    (hx : 0 < x) (hy : 1 ≤ y) (hnotch : y ≤ x ∨ 2 * x ≤ y) :
    firstCrossing? start toward (flagOutline x y) = some (x / 100) := by
  rw [firstCrossing?_eq_some_iff, hray]
  constructor
  · refine ⟨(⟨x, -y⟩, ⟨x, y⟩), ⟨1, by simp [flagOutline], rfl, rfl⟩,
      by positivity, ?_, 1 / 2, by norm_num, by norm_num, add_scale_eq_iff.2 ?_⟩
    · apply isSteep_right
      apply le_abs.2
      left
      dsimp only
      linarith
    · rw [x_sub_real, y_sub_real]
      constructor
      · dsimp only
        ring
      · dsimp only
        ring
  · rintro u ⟨side, hside, hpos, -, s, -, -, hpoint⟩
    rw [add_scale_eq_iff, x_sub_real, y_sub_real] at hpoint
    obtain ⟨hacross, hdown⟩ := hpoint
    rw [← mem_sides_iff] at hside
    simp only [sides, flagOutline, List.drop_succ_cons, List.drop_zero, List.take_succ_cons,
      List.take_zero, List.cons_append, List.nil_append, List.zip_cons_cons,
      List.zip_nil_right, List.mem_cons, List.not_mem_nil, or_false] at hside
    -- The line misses the upper and the lower side, and meets the last two in the tip of the notch.
    rcases hside with rfl | rfl | rfl | rfl | rfl
    · dsimp only at hdown
      linarith
    · dsimp only at hacross
      linarith
    · dsimp only at hdown
      linarith
    · dsimp only at hacross hdown
      have hs : y * s = y * 1 := by linarith
      obtain rfl := mul_left_cancel₀ (by positivity) hs
      rcases hnotch with hnotch | hnotch
      · linarith
      · linarith
    · dsimp only at hacross hdown
      have hs : y * s = y * 0 := by linarith
      obtain rfl := mul_left_cancel₀ (by positivity) hs
      rcases hnotch with hnotch | hnotch
      · linarith
      · linarith

/-- The line from the center of an outline to a point that is not there ends at the nearest point of
those sides in front of the center that are not next to parallel to it, and goes on to the point
exactly if it meets none of them. -/
theorem outlineCrossing_first (a b : Point ℝ) (outline : List (Point ℝ))
    (hfar : samePlace ≤ (b - a).length) :
    outlineCrossing a b outline =
        (firstCrossing? a b outline).elim b (fun t ↦ a + (b - a).scale t) ∧
      (∀ t, firstCrossing? a b outline = some t →
        0 < t ∧ (∃ side, IsSide outline side ∧ Meets a (b - a) side t) ∧
        ∀ side, IsSide outline side → IsSteep (b - a) side →
          ∀ u, 0 < u → Meets a (b - a) side u → t ≤ u) ∧
      (firstCrossing? a b outline = none ↔
        ∀ side, IsSide outline side → IsSteep (b - a) side →
          ∀ u, 0 < u → ¬ Meets a (b - a) side u) := by
  have hnearest := isNearest_firstCrossing? a b outline
  refine ⟨outlineCrossing_eq hfar, fun t ht ↦ ?_, ?_⟩
  · rw [ht] at hnearest
    obtain ⟨⟨side, hside, hpos, -, hmeets⟩, hleast⟩ := hnearest
    exact ⟨hpos, ⟨side, hside, hmeets⟩, fun side hside hsteep u hu hmeets ↦
      hleast ⟨side, hside, hu, hsteep, hmeets⟩⟩
  · constructor
    · intro hnone side hside hsteep u hu hmeets
      rw [hnone] at hnearest
      exact Set.eq_empty_iff_forall_notMem.1 hnearest u ⟨side, hside, hu, hsteep, hmeets⟩
    · intro hall
      cases hfound : firstCrossing? a b outline with
      | none => rfl
      | some t =>
        rw [hfound] at hnearest
        obtain ⟨side, hside, hpos, hsteep, hmeets⟩ := hnearest.1
        exact absurd hmeets (hall side hside hsteep t hpos)

private theorem ray_right : (⟨120, 7⟩ : Point ℝ) - ⟨20, 7⟩ = ⟨100, 0⟩ := by
  change Point.mk (120 - 20 : ℝ) (7 - 7) = _
  norm_num

private theorem samePlace_le_ray : samePlace ≤ ((⟨120, 7⟩ : Point ℝ) - ⟨20, 7⟩).length := by
  rw [ray_right]
  exact samePlace_le_length (by norm_num)

/-- A flag that is three times as high as it is wide has the tip of its notch behind its right side.
The line to the right ends at that side. -/
theorem crossing_narrowFlag :
    samePlace ≤ ((⟨120, 7⟩ : Point ℝ) - ⟨20, 7⟩).length ∧
      crossing .flag ⟨20, 7⟩ ⟨10, 30⟩ [] ⟨120, 7⟩ = (⟨25, 7⟩ : Point ℝ) := by
  have hfound : firstCrossing? ⟨20, 7⟩ ⟨120, 7⟩ (flagOutline (10 / 2) (30 / 2)) =
      some (10 / 2 / 100) :=
    firstCrossing?_flag ray_right (by norm_num) (by norm_num) (Or.inr (by norm_num))
  obtain ⟨hcrossing, -, -⟩ :=
    outlineCrossing_first ⟨20, 7⟩ ⟨120, 7⟩ (flagOutline (10 / 2) (30 / 2)) samePlace_le_ray
  rw [hfound, ray_right, Option.elim_some] at hcrossing
  refine ⟨samePlace_le_ray, ?_⟩
  calc crossing .flag ⟨20, 7⟩ ⟨10, 30⟩ [] ⟨120, 7⟩
      = outlineCrossing ⟨20, 7⟩ ⟨120, 7⟩ (flagOutline (10 / 2) (30 / 2)) := by
        simp only [crossing, outline?_flag]
    _ = (⟨20, 7⟩ : Point ℝ) + Point.scale ⟨100, 0⟩ (10 / 2 / 100) := hcrossing
    _ = ⟨25, 7⟩ := by
      change Point.mk (20 + 100 * (10 / 2 / 100) : ℝ) (7 + 0 * (10 / 2 / 100)) = _
      norm_num

/-- A flag that is as high as it is wide has the tip of its notch at its center. The line to the
right starts on two sides, and yet it ends at the right side: only what is in front of the center
counts. -/
theorem meets_center_of_squareFlag :
    samePlace ≤ ((⟨120, 7⟩ : Point ℝ) - ⟨20, 7⟩).length ∧
      crossing .flag ⟨20, 7⟩ ⟨20, 20⟩ [] ⟨120, 7⟩ = (⟨30, 7⟩ : Point ℝ) ∧
      outline? .flag ⟨20, 20⟩ [] = some (flagOutline 10 10) ∧
      firstCrossing? ⟨20, 7⟩ ⟨120, 7⟩ (flagOutline 10 10) = some (1 / 10) ∧
      ¬ ∀ side, IsSide (flagOutline 10 10) side → IsSteep (⟨120, 7⟩ - ⟨20, 7⟩) side →
        ∀ u, 0 ≤ u → Meets ⟨20, 7⟩ (⟨120, 7⟩ - ⟨20, 7⟩) side u → 1 / 10 ≤ u := by
  have hsquare : outline? .flag ⟨20, 20⟩ [] = some (flagOutline 10 10) := by
    rw [outline?_flag]
    norm_num
  have hfound : firstCrossing? ⟨20, 7⟩ ⟨120, 7⟩ (flagOutline 10 10) = some (1 / 10) := by
    rw [firstCrossing?_flag ray_right (by norm_num) (by norm_num) (Or.inl le_rfl)]
    norm_num
  refine ⟨samePlace_le_ray, ?_, hsquare, hfound, fun hall ↦ ?_⟩
  · simp only [crossing, hsquare]
    rw [outlineCrossing_eq samePlace_le_ray, hfound, ray_right]
    change Point.mk (20 + 100 * (1 / 10) : ℝ) (7 + 0 * (1 / 10)) = _
    norm_num
  · rw [ray_right] at hall
    let notch : Point ℝ × Point ℝ := (⟨-10, 10⟩, ⟨-10 + 10, 0⟩)
    have hside : IsSide (flagOutline 10 10) notch := ⟨3, by simp [flagOutline], rfl, rfl⟩
    have hsteep : IsSteep ⟨100, 0⟩ notch := isSteep_right (by norm_num [notch])
    have hmeets : Meets ⟨20, 7⟩ ⟨100, 0⟩ notch 0 := by
      refine ⟨1, zero_le_one, le_rfl, add_scale_eq_iff.2 ?_⟩
      rw [x_sub_real, y_sub_real]
      norm_num [notch]
    have hle := hall _ hside hsteep 0 le_rfl hmeets
    norm_num at hle

end BlockDiagram.Shape
