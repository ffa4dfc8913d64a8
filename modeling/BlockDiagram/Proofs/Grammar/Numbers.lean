import BlockDiagram.Proofs.Grammar.Derivation
import BlockDiagram.Proofs.Lexer.Forms

/-!
# Numbers in tokens

When a derivation stands for statements. The only fault that is left to find in one is a number that
is too large (`run_apply_ok_iff`, `run_evaluate_ok_iff`): a token that states a direction always
names one.
-/

namespace BlockDiagram.Grammar

open Lexer (HasOrigin EndsInDigits)
open Token (Kind)

/-- The largest number that tokens of a kind may state, for kinds that state one. -/
def limit? : Kind → Option Nat
  | .columns => some maxColumns
  | .space => some maxSpacers
  | .width => some maxWidth
  | _ => none

/-- Holds for tokens that state no number above the limit for their kind. -/
def InRange (t : Token) : Prop :=
  ∀ limit ∈ limit? t.kind, Decimal.numberOfDigits (digitsOf t) ≤ limit

variable {t : Token}

/-! ### Digits at the end of a text -/

private theorem digitsOf_ne_nil (h : EndsInDigits t.text.toList) : digitsOf t ≠ [] := by
  obtain ⟨front, digits, htext, hne, hdigits⟩ := h
  have hlast : (digits.getLast hne).isDigit = true := hdigits _ (List.getLast_mem hne)
  rw [← List.dropLast_concat_getLast hne, ← List.append_assoc] at htext
  rw [digitsOf, htext, List.reverse_append, List.reverse_singleton, List.singleton_append,
    List.takeWhile_cons_of_pos hlast, List.reverse_cons]
  exact List.append_ne_nil_of_right_ne_nil _ (List.cons_ne_nil _ _)

private theorem digitsOf_eq_nil (front : List Char) {c : Char} (h : t.text.toList = front ++ [c])
    (hc : c.isDigit = false) : digitsOf t = [] := by
  rw [digitsOf, h, List.reverse_append, List.reverse_singleton, List.singleton_append,
    List.takeWhile_cons_of_neg (by simp [hc]), List.reverse_nil]

private theorem numberIn_ok_iff (h : digitsOf t ≠ []) {limit : Nat} :
    (∃ n, numberIn t limit = .ok n) ↔ Decimal.numberOfDigits (digitsOf t) ≤ limit := by
  have hempty : (digitsOf t).isEmpty = false := List.isEmpty_eq_false_iff.2 h
  simp only [numberIn, hempty, Bool.false_or, decide_eq_true_eq]
  split
  · next hlt =>
    constructor
    · rintro ⟨n, hn⟩
      cases hn
    · intro hle
      omega
  · next hle => exact ⟨fun _ ↦ Nat.le_of_not_lt hle, fun _ ↦ ⟨_, rfl⟩⟩

private theorem inRange_of_digitsOf_eq_nil (h : digitsOf t = []) : InRange t := by
  intro limit hlimit
  rw [h]
  exact Nat.zero_le limit

/-- A number is in range exactly if it is no larger than the limit for its token. -/
theorem inRange_iff {limit : Nat} (h : limit? t.kind = some limit) :
    InRange t ↔ Decimal.numberOfDigits (digitsOf t) ≤ limit := by
  rw [InRange, h]
  exact ⟨fun hall ↦ hall limit rfl, fun hle _ heq ↦ Option.some.inj heq ▸ hle⟩

/-! ### What tokens state -/

/-- A column count can be read when it is not too large. -/
theorem columnsIn_ok_iff (h : HasOrigin t) (hkind : t.kind = .columns) :
    (∃ n, columnsIn t = .ok n) ↔ InRange t := by
  rw [columnsIn]
  split
  · next hauto =>
    obtain ⟨front, htext⟩ := List.isSuffixOf_iff_suffix.1 hauto
    have hdigits : digitsOf t = [] :=
      digitsOf_eq_nil (front ++ ['a', 'u', 't']) (c := 'o')
        (by rw [← htext, List.append_assoc]; rfl) (by decide)
    exact ⟨fun _ ↦ inRange_of_digitsOf_eq_nil hdigits, fun _ ↦ ⟨_, rfl⟩⟩
  · next hauto =>
    rcases h.columns_text hkind with hsuffix | hends
    · exact absurd (List.isSuffixOf_iff_suffix.2 hsuffix) hauto
    · rw [inRange_iff (by rw [hkind]; rfl), ← numberIn_ok_iff (digitsOf_ne_nil hends)]
      cases numberIn t maxColumns with
      | error fault =>
        constructor
        · rintro ⟨n, hn⟩
          cases hn
        · rintro ⟨n, hn⟩
          cases hn
      | ok n => exact ⟨fun _ ↦ ⟨n, rfl⟩, fun _ ↦ ⟨n, rfl⟩⟩

/-- A number of spacers can be read when it is not too large. -/
theorem spacersIn_ok_iff (h : HasOrigin t) (hkind : t.kind = .space) :
    (∃ n, spacersIn t = .ok n) ↔ InRange t := by
  rw [spacersIn]
  rcases h.space_text hkind with htext | ⟨hcolon, hends⟩
  · have hdigits : digitsOf t = [] :=
      digitsOf_eq_nil ['s', 'p', 'a', 'c'] (c := 'e') htext (by decide)
    rw [htext]
    exact ⟨fun _ ↦ inRange_of_digitsOf_eq_nil hdigits, fun _ ↦ ⟨1, rfl⟩⟩
  · rw [if_pos (List.contains_iff_mem.2 hcolon), inRange_iff (by rw [hkind]; rfl),
      numberIn_ok_iff (digitsOf_ne_nil hends)]

/-- A width can be read when it is not too large. -/
theorem width_ok_iff (h : HasOrigin t) (hkind : t.kind = .width) :
    (∃ n, numberIn t maxWidth = .ok n) ↔ InRange t := by
  rw [inRange_iff (by rw [hkind]; rfl),
    numberIn_ok_iff (digitsOf_ne_nil (h.width_text hkind))]

/-- The text of a direction without the blanks around it and without the comma in front of it. -/
theorem trimBlank_direction {before after : List Char}
    (hbefore : ∀ c ∈ before, Text.isBlank c = true) (hafter : ∀ c ∈ after, Text.isBlank c = true)
    (direction : Direction) :
    Text.trimBlank (before ++ direction.name.toList ++ after) = direction.name.toList := by
  cases direction <;> exact Text.trimBlank_between hbefore hafter (by decide) (by decide)

/-- A direction can always be read. -/
theorem exists_directionIn (h : HasOrigin t) (hkind : t.kind = .direction) :
    ∃ direction, directionIn t = .ok direction := by
  obtain ⟨comma, before, after, direction, htext, hcomma, hbefore, hafter⟩ :=
    h.direction_text hkind
  refine ⟨direction, ?_⟩
  have hname : Text.trimBlank ((Text.trimBlank t.text.toList).dropWhile (· == ',')) =
      direction.name.toList := by
    rcases hcomma with rfl | rfl
    · rw [htext, List.nil_append, trimBlank_direction hbefore hafter]
      cases direction <;> decide
    · have hends : Text.trimEndBlank (',' :: (before ++ direction.name.toList)) =
          ',' :: (before ++ direction.name.toList) := by
        cases direction <;>
          exact Text.trimEndBlank_append_of_eq (by decide) (by decide) (',' :: before)
      have htrim := Text.trimBlank_between (List.forall_mem_nil _) hafter
        (by decide) hends
      have hblank : (before ++ direction.name.toList).dropWhile (· == ',') =
          before ++ direction.name.toList := by
        cases before with
        | nil => cases direction <;> decide
        | cons c before =>
          refine List.dropWhile_cons_of_neg fun hc ↦ ?_
          have hc' := hbefore c List.mem_cons_self
          rw [beq_iff_eq.1 hc] at hc'
          exact absurd hc' (by decide)
      rw [htext, List.singleton_append, ← List.cons_append]
      rw [List.nil_append] at htrim
      rw [htrim, List.dropWhile_cons_of_pos (by decide), hblank]
      have hword := trimBlank_direction hbefore (List.forall_mem_nil _) direction
      rwa [List.append_nil] at hword
  rw [directionIn, hname, String.ofList_toList]
  cases direction <;> rfl

end BlockDiagram.Grammar
