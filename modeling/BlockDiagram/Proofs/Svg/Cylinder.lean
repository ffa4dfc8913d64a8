import BlockDiagram.Proofs.Layout.Cells
import BlockDiagram.Svg
import Mathlib.Data.List.Chain

/-!
# Lines around cylinders

The line around a cylinder goes down its body and up again, so it is written without two minus signs
in a row as long as neither the width nor the body has one (`isChain_cylinderPath_iff`). The caps grow
with the width, but a label only has room for the caps of its own width, so a cylinder in a wider cell
may have a body with a negative height (`cylinders_of_parse`).
-/

namespace BlockDiagram

/-! ### Texts of numbers -/

namespace Decimal

private theorem minus_not_mem_place {digits : List Char} (h : '-' ∉ digits) (point : Int) :
    '-' ∉ plain.place digits point := by
  rw [Layout.place]
  split
  · simp [h]
  · split
    · intro hmem
      rcases List.mem_append.1 hmem with hmem | hmem
      · exact h (List.mem_of_mem_take hmem)
      · rcases List.mem_cons.1 hmem with heq | hmem
        · exact absurd heq (by decide)
        · exact h (List.mem_of_mem_drop hmem)
    · simp [h, plain]

private theorem place_ne_nil {digits : List Char} (h : digits ≠ []) (point : Int) :
    plain.place digits point ≠ [] := by
  rw [Layout.place]
  split
  · simp
  · split
    · simp
    · simp [h]

private theorem write_plain (digits : Digits) :
    ∃ figures point, figures ≠ [] ∧ '-' ∉ figures ∧
      plain.write digits = plain.place figures point := by
  rw [Layout.write]
  dsimp only
  split
  · exact ⟨['0'], 1, by decide, by decide, rfl⟩
  · exact ⟨_, _, Nat.toDigits_ne_nil, Builder.dash_not_mem_toDigits _, rfl⟩

/-- The text of a number has a minus sign at most in front, and only then has the number one. -/
theorem exists_toList_showSingle (x : Float32) : ∃ rest, rest ≠ [] ∧ '-' ∉ rest ∧
    (showSingle x).toList = if !x.isNaN && isNegative x then '-' :: rest else rest := by
  rw [showSingle]
  cases x.isNaN with
  | true => exact ⟨['N', 'a', 'N'], by decide, by decide, by simp⟩
  | false =>
    cases x.isInf with
    | true =>
      refine ⟨['i', 'n', 'f'], by decide, by decide, ?_⟩
      cases isNegative x <;> simp
    | false =>
      obtain ⟨figures, point, hne, hminus, hwrite⟩ :=
        write_plain (((Binary.ofSingle? x).map (·.shortest plain.tie)).getD ⟨0, 0⟩)
      refine ⟨_, place_ne_nil hne point, minus_not_mem_place hminus point, ?_⟩
      rw [if_neg Bool.false_ne_true, if_neg Bool.false_ne_true, String.toList_ofList, writeFinite,
        hwrite]
      cases isNegative x <;> rfl

end Decimal

namespace Svg

/-- Holds for characters that are not both minus signs. -/
def NotBothMinus (a b : Char) : Prop :=
  ¬ (a = '-' ∧ b = '-')

/-- Holds for texts that are not empty and have no two minus signs in a row. -/
structure IsPlain (text : String) : Prop where
  ne_nil : text.toList ≠ []
  chain : text.toList.IsChain NotBothMinus

/-- The text of a number is plain, and begins with a minus sign if the number does. -/
theorem isPlain_num (x : Float32) : IsPlain (num x) ∧
    ((num x).toList.head? = some '-' ↔ x.isNaN = false ∧ Decimal.isNegative x = true) := by
  obtain ⟨rest, hne, hminus, htext⟩ := Decimal.exists_toList_showSingle x
  have hhead : ∀ c ∈ rest.head?, c ≠ '-' := by
    rintro c hc rfl
    exact hminus (List.mem_of_mem_head? hc)
  have hchain : rest.IsChain NotBothMinus := by
    refine (List.pairwise_of_forall_mem_list fun a ha b _ ↦ ?_).isChain
    rintro ⟨rfl, -⟩
    exact hminus ha
  by_cases hsign : (!x.isNaN && Decimal.isNegative x) = true
  · rw [if_pos hsign] at htext
    simp only [Bool.and_eq_true, Bool.not_eq_true'] at hsign
    refine ⟨⟨?_, ?_⟩, ?_⟩
    · rw [num, htext]
      exact List.cons_ne_nil _ _
    · rw [num, htext]
      exact List.isChain_cons.2 ⟨fun c hc h ↦ hhead c hc h.2, hchain⟩
    · rw [num, htext]
      simpa using hsign
  · rw [if_neg hsign] at htext
    simp only [Bool.and_eq_true, Bool.not_eq_true'] at hsign
    rw [← htext] at hne hchain hhead
    exact ⟨⟨hne, hchain⟩, fun h ↦ absurd rfl (hhead _ h), fun h ↦ absurd h hsign⟩

/-- The pieces of the line around a cylinder. -/
def cylinderPieces (x y rx ry w body : String) : List (List Char) :=
  ["M ", x, ",", y, " a ", rx, ",", ry, " 0,0,0 ", w, ",0 a ", rx, ",", ry, " 0,0,0 -", w, ",0 ",
    "l 0,", body, " a ", rx, ",", ry, " 0,0,0 ", w, ",0 l 0,-", body].map String.toList

private theorem toList_cylinderPath (bounds : Bounds Float32) (size : Size Float32) :
    (cylinderPath bounds size).toList = (cylinderPieces (num bounds.minX)
      (num (bounds.minY + Shape.cylinderCap size.width)) (num (size.width / 2))
      (num (Shape.cylinderCap size.width)) (num size.width) (num (cylinderBody size))).flatten := by
  unfold cylinderPath
  dsimp only
  generalize num bounds.minX = x, num (bounds.minY + Shape.cylinderCap size.width) = y,
    num (size.width / 2) = rx, num (Shape.cylinderCap size.width) = ry, num size.width = w,
    num (cylinderBody size) = body
  simp only [cylinderPieces, List.map_cons, List.map_nil, List.flatten_cons, List.flatten_nil,
    String.toList_append, toString, List.append_assoc, List.append_nil]

/-- Two minus signs meet where the second of the literals that end in one is followed by another. -/
theorem isChain_cylinderPieces_iff {x y rx ry w body : String} (hx : IsPlain x) (hy : IsPlain y)
    (hrx : IsPlain rx) (hry : IsPlain ry) (hw : IsPlain w) (hbody : IsPlain body) :
    (cylinderPieces x y rx ry w body).flatten.IsChain NotBothMinus ↔
      w.toList.head? ≠ some '-' ∧ body.toList.head? ≠ some '-' := by
  have hhead : ∀ text : String, (∀ c, text.toList.head? = some c → ¬ c = '-') ↔
      text.toList.head? ≠ some '-' := fun text ↦
    ⟨fun h heq ↦ h _ heq rfl, fun h c hc heq ↦ h (heq ▸ hc)⟩
  rw [List.isChain_flatten]
  · simp [cylinderPieces, NotBothMinus, hx.chain, hy.chain, hrx.chain, hry.chain, hw.chain,
      hbody.chain, hhead]
  · simp [cylinderPieces, hx.ne_nil, hy.ne_nil, hrx.ne_nil, hry.ne_nil, hw.ne_nil, hbody.ne_nil]

/-- The line around a cylinder is written without two minus signs in a row exactly if neither the
width nor the height of the body has one. -/
theorem isChain_cylinderPath_iff (bounds : Bounds Float32) (size : Size Float32) :
    (cylinderPath bounds size).toList.IsChain NotBothMinus ↔
      ∀ x ∈ [size.width, cylinderBody size], Decimal.isNegative x = true → x.isNaN = true := by
  rw [toList_cylinderPath, isChain_cylinderPieces_iff (isPlain_num _).1 (isPlain_num _).1
    (isPlain_num _).1 (isPlain_num _).1 (isPlain_num _).1 (isPlain_num _).1, ne_eq, ne_eq,
    (isPlain_num _).2, (isPlain_num _).2]
  rw [List.forall_mem_cons, List.forall_mem_singleton, not_and', not_and', Bool.not_eq_false,
    Bool.not_eq_false]

/-! ### Bodies -/

private theorem cylinderCap_rat {w : ℚ} (hw : 0 ≤ w) :
    Shape.cylinderCap w = 25 * w / (125 + w) := by
  have hliteral : (@OfScientific.ofScientific ℚ Scalar.instOfScientific 25 true 1) = 5 / 2 := by
    decide +kernel
  rw [Shape.cylinderCap, hliteral]
  simp only [Layout.literal_rat, Nat.cast_ofNat]
  have hsum : (5 : ℚ) / 2 + w / 50 = (125 + w) / 50 := by ring
  have hne : 125 + w ≠ 0 := by positivity
  rw [hsum]
  field_simp
  ring

private theorem cylinderBody_rat (size : Size ℚ) :
    cylinderBody size = size.height - 2 * Shape.cylinderCap size.width := by
  rw [cylinderBody, Layout.two_rat]

/-- The body of a cylinder has a height unless both caps together are higher than the cylinder. -/
theorem cylinderBody_nonneg_iff {size : Size ℚ} (hw : 0 ≤ size.width) :
    0 ≤ cylinderBody size ↔ 50 * size.width ≤ size.height * (125 + size.width) := by
  have hpos : 0 < 125 + size.width := by positivity
  rw [cylinderBody_rat, cylinderCap_rat hw, sub_nonneg, ← mul_div_assoc, div_le_iff₀ hpos]
  ring_nf

/-- No cap is higher than 25. -/
theorem cylinderBody_pos {size : Size ℚ} (hw : 0 ≤ size.width) (hh : 50 ≤ size.height) :
    0 < cylinderBody size := by
  have hpos : 0 < 125 + size.width := by positivity
  have hcap : 25 * size.width / (125 + size.width) < 25 := by
    rw [div_lt_iff₀ hpos]
    linarith
  rw [cylinderBody_rat, cylinderCap_rat hw]
  linarith

end Svg

/-! ### Layouts -/

namespace Layout

open Svg

variable {d : Document} {layout : Layout ℚ}

/-- The line around a cylinder has two minus signs in a row only if the width or the height of the
body has one. In exact arithmetic the body of a cylinder without children has room for its label, less
what its caps have grown because its cell is wider than that. -/
theorem cylinders_of_parse {limit : Nat} {source : String} {ss : List (Source.Located Statement)}
    (hss : statements source = .ok ss) (hd : Document.parse limit source = .ok d)
    (hroot : BlockId.root ∉ namesIn ss) (settings : Settings ℚ) (measure : String → Size ℚ)
    (hmeasure : ∀ text, 0 ≤ (measure text).width ∧ 0 ≤ (measure text).height)
    (hcompute : compute settings measure d = .ok layout) :
    (∀ (bounds : Bounds Float32) (size : Size Float32),
      (cylinderPath bounds size).toList.IsChain NotBothMinus ↔
        ∀ x ∈ [size.width, cylinderBody size], Decimal.isNegative x = true → x.isNaN = true) ∧
    ∀ b ∈ d.walk, b.shape = .cylinder → ∃ size, layout.sizes.get? b.id = some size ∧
      (0 ≤ cylinderBody size ↔ 50 * size.width ≤ size.height * (125 + size.width)) ∧
      (50 ≤ size.height → 0 < cylinderBody size) ∧
      (b.children = [] →
        (measure b.label).height + settings.nodePadding ≤ cylinderBody size +
          2 * (Shape.cylinderCap size.width -
            Shape.cylinderCap ((measure b.label).width + settings.nodePadding))) ∧
      (b.children = [] → size.width = (measure b.label).width + settings.nodePadding →
        0 ≤ cylinderBody size) := by
  refine ⟨isChain_cylinderPath_iff, fun b hb hshape ↦ ?_⟩
  obtain ⟨mentions, h⟩ := Document.describes_of_parse hss hd hroot
  obtain ⟨size, hsize, hw, hh, hcontent⟩ := size_of_compute h.sound h.listed hcompute b hb
  have hlabel : b.children = [] →
      (measure b.label).height + settings.nodePadding ≤ cylinderBody size +
        2 * (Shape.cylinderCap size.width -
          Shape.cylinderCap ((measure b.label).width + settings.nodePadding)) := by
    intro hleaf
    have hheight := (hcontent hleaf).2
    rw [hshape, Shape.contentSize, two_rat] at hheight
    rw [cylinderBody_rat]
    linarith
  refine ⟨size, hsize, cylinderBody_nonneg_iff hw, cylinderBody_pos hw, hlabel, fun hleaf heq ↦ ?_⟩
  have hroom := hlabel hleaf
  have hmeasured := (hmeasure b.label).2
  have hpadding := nodePadding_nonneg hcompute
  rw [heq, sub_self] at hroom
  linarith

/-- The body of the cylinder in a crowded row has a height if its caps leave room for it. -/
theorem exists_body_iff_crowded : ∃ (ss : List (Source.Located Statement)) (d : Document)
    (layout : Layout ℚ) (size : Size ℚ), statements crowded = .ok ss ∧
      Document.parse 9 crowded = .ok d ∧ BlockId.root ∉ namesIn ss ∧
      (∀ text, 0 ≤ (crowdedMeasure text).width ∧ 0 ≤ (crowdedMeasure text).height) ∧
      compute ⟨2, 0, []⟩ crowdedMeasure d = .ok layout ∧ crowdedCylinder ∈ d.walk ∧
      layout.sizes.get? crowdedCylinder.id = some size ∧
      (0 ≤ cylinderBody size ↔ 50 * size.width ≤ size.height * (125 + size.width)) := by
  obtain ⟨ss, d, layout, hss, hd, hroot, hlayout, hblocks, -⟩ := exists_crowded
  obtain ⟨hmem, -⟩ := hblocks crowdedCylinder (by decide)
  obtain ⟨size, hsize, hiff, -⟩ := (cylinders_of_parse hss hd hroot ⟨2, 0, []⟩ crowdedMeasure
    crowdedMeasure_nonneg hlayout).2 crowdedCylinder hmem rfl
  exact ⟨ss, d, layout, size, hss, hd, hroot, crowdedMeasure_nonneg, hlayout, hmem, hsize, hiff⟩

/-- The caps of the cylinder in a crowded row are higher than the cylinder. -/
theorem exists_body_neg : ∃ (ss : List (Source.Located Statement)) (d : Document)
    (layout : Layout ℚ) (size : Size ℚ), statements crowded = .ok ss ∧
      Document.parse 9 crowded = .ok d ∧ BlockId.root ∉ namesIn ss ∧
      (∀ text, 0 ≤ (crowdedMeasure text).width ∧ 0 ≤ (crowdedMeasure text).height) ∧
      compute ⟨2, 0, []⟩ crowdedMeasure d = .ok layout ∧ crowdedCylinder ∈ d.walk ∧
      layout.sizes.get? crowdedCylinder.id = some size ∧
      size.height < 2 * Shape.cylinderCap size.width ∧ cylinderBody size < 0 := by
  obtain ⟨ss, d, layout, hss, hd, hroot, hlayout, hblocks, hsizes, -⟩ := exists_crowded
  obtain ⟨hmem, -⟩ := hblocks crowdedCylinder (by decide)
  simp only [List.map_cons, List.cons.injEq] at hsizes
  obtain ⟨-, hsize, -⟩ := hsizes
  have hcap : (20 : ℚ) < 2 * Shape.cylinderCap 300 := by
    rw [cylinderCap_rat (by norm_num)]
    norm_num
  refine ⟨ss, d, layout, _, hss, hd, hroot, crowdedMeasure_nonneg, hlayout, hmem, hsize, hcap, ?_⟩
  rw [cylinderBody_rat]
  linarith

end Layout

end BlockDiagram
