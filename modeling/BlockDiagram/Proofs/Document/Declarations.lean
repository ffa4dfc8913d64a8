import BlockDiagram.Document.Builder
import BlockDiagram.Proofs.Except
import BlockDiagram.Proofs.Text.Cutting
import Mathlib.Data.List.TakeWhile

/-!
# Declarations of styles

Declarations are cut at commas and semicolons and trimmed twice. What comes of this is in normal form
(`IsNormal`), and normal forms with commas between them are read as they are, so reading declarations
once more changes nothing (`declarationsOf_stable`).
-/

namespace BlockDiagram

open Source (Span)

open Text

namespace Builder

variable {property value declaration piece : List Char} {statement : Span}

/-- Holds for a declaration in normal form with the given property and value. -/
structure IsNormal (property value declaration : List Char) : Prop where
  eq_append : declaration = property ++ ':' :: value
  colon_not_mem : ':' ∉ property
  comma_not_mem : ',' ∉ declaration
  semicolon_not_mem : ';' ∉ declaration
  property_isTrimmed : IsTrimmed property
  value_isTrimmed : IsTrimmed value

/-- Holds for values that a property can have, which are colors if it asks for one. -/
def Suits (property value : List Char) : Prop :=
  String.ofList property ∈ colorProperties →
    ∃ color, Color.read (String.ofList value) = .ok color

/-- The ends of a declaration in normal form are those of its property and of its value, or the
colon. -/
theorem IsNormal.isTrimmed (h : IsNormal property value declaration) : IsTrimmed declaration := by
  have hcolon : isBlank ':' = false := by decide
  rw [h.eq_append]
  constructor
  · cases property with
    | nil => simpa using hcolon
    | cons c property => exact h.property_isTrimmed.head
  · rw [List.getLast?_append]
    cases value with
    | nil => simpa using hcolon
    | cons c value =>
      rw [List.getLast?_cons_cons]
      intro d hd
      apply h.value_isTrimmed.last
      simpa using hd

private theorem joined_eq (property value : List Char) :
    s!"{String.ofList property}:{String.ofList value}" =
      String.ofList (property ++ ':' :: value) := by
  simp [← String.toList_inj, toString]

/-- Up to a semicolon, a piece is empty or has a property and a value with a colon between them. -/
theorem declarationOf_eq_ok_iff {result : Option String} :
    declarationOf piece statement = .ok result ↔
      (trimBlank (piece.takeWhile (· != ';')) = [] ∧ result = none) ∨
        ∃ before after, trimBlank (piece.takeWhile (· != ';')) = before ++ ':' :: after ∧
          ':' ∉ before ∧ Suits (trimBlank before) (trimBlank after) ∧
            result = some (String.ofList (trimBlank before ++ ':' :: trimBlank after)) := by
  rw [declarationOf]
  generalize trimBlank (piece.takeWhile (· != ';')) = text
  constructor
  · intro h
    dsimp only at h
    split at h
    · next hempty =>
      cases h
      exact .inl ⟨List.isEmpty_iff.1 hempty, rfl⟩
    · split at h
      · cases h
      · next before after hsplit =>
        obtain ⟨heq, hnot⟩ := splitFirst?_eq_some_iff.1 hsplit
        refine .inr ⟨before, after, heq, hnot, ?_⟩
        rw [← joined_eq]
        split at h
        · split at h
          · next color hread =>
            cases h
            exact ⟨fun _ ↦ ⟨color, hread⟩, rfl⟩
          · cases h
        · next hcolor =>
          cases h
          exact ⟨fun hmem ↦ absurd (List.contains_iff_mem.2 hmem) hcolor, rfl⟩
  · rintro (⟨rfl, rfl⟩ | ⟨before, after, rfl, hnot, hsuits, rfl⟩)
    · rfl
    · have hne : ¬ (before ++ ':' :: after).isEmpty = true := by simp
      dsimp only
      rw [if_neg hne, splitFirst?_eq_some_iff.2 ⟨rfl, hnot⟩,
        ← joined_eq (trimBlank before) (trimBlank after)]
      dsimp only
      split
      · next hcolor =>
        obtain ⟨color, hread⟩ := hsuits (List.contains_iff_mem.1 hcolor)
        rw [hread]
        rfl
      · rfl

/-- What is made of a piece without a comma is in normal form. -/
theorem isNormal_of_declarationOf {d : String} (hcomma : ',' ∉ piece)
    (h : declarationOf piece statement = .ok (some d)) :
    ∃ property value, IsNormal property value d.toList ∧ Suits property value := by
  rcases declarationOf_eq_ok_iff.1 h with ⟨-, hnone⟩ | ⟨before, after, htext, hnot, hsuits, hd⟩
  · cases hnone
  obtain rfl := Option.some.inj hd
  have hmem : ∀ c ∈ trimBlank before ++ ':' :: trimBlank after, c ∈ piece ∧ c ≠ ';' := by
    intro c hc
    have hkept : c ∈ before ++ ':' :: after := by
      rw [List.mem_append, List.mem_cons] at hc ⊢
      exact hc.imp mem_of_mem_trimBlank (.imp_right mem_of_mem_trimBlank)
    have hpiece : c ∈ piece.takeWhile (· != ';') := mem_of_mem_trimBlank (htext ▸ hkept)
    exact ⟨(List.takeWhile_sublist _).subset hpiece, by simpa using List.mem_takeWhile_imp hpiece⟩
  refine ⟨trimBlank before, trimBlank after, ?_, hsuits⟩
  rw [String.toList_ofList]
  exact {
    eq_append := rfl
    colon_not_mem := fun hc ↦ hnot (mem_of_mem_trimBlank hc)
    comma_not_mem := fun hc ↦ hcomma (hmem _ hc).1
    semicolon_not_mem := fun hc ↦ (hmem _ hc).2 rfl
    property_isTrimmed := isTrimmed_trimBlank before
    value_isTrimmed := isTrimmed_trimBlank after }

/-- A declaration in normal form is read as it is. -/
theorem declarationOf_of_isNormal (h : IsNormal property value declaration)
    (hsuits : Suits property value) :
    declarationOf declaration statement = .ok (some (String.ofList declaration)) := by
  have hwhole : declaration.takeWhile (· != ';') = declaration := by
    apply List.takeWhile_eq_self_iff.2
    intro c hc
    have hne : c ≠ ';' := fun heq ↦ h.semicolon_not_mem (heq ▸ hc)
    simpa using hne
  rw [declarationOf_eq_ok_iff, hwhole, h.isTrimmed.trimBlank_eq]
  refine .inr ⟨property, value, h.eq_append, h.colon_not_mem, ?_⟩
  rw [h.property_isTrimmed.trimBlank_eq, h.value_isTrimmed.trimBlank_eq, ← h.eq_append]
  exact ⟨hsuits, rfl⟩

/-! ### Lists of declarations -/

/-- The declarations of a text are what its pieces make, without those that make none. -/
theorem declarationsOf_eq_ok_iff {text : String} {ds : List String} :
    declarationsOf text statement = .ok ds ↔
      ∃ made, (pieces ',' text.toList).mapM (declarationOf · statement) = .ok made ∧
        ds = made.filterMap id := by
  rw [declarationsOf, bind_eq_ok_iff]
  refine exists_congr fun made ↦ and_congr_right fun _ ↦ ?_
  exact ⟨fun h ↦ (Except.ok.inj h).symm, fun h ↦ congrArg Except.ok h.symm⟩

private theorem isNormal_of_declarationsOf {text : String} {ds : List String}
    (h : declarationsOf text statement = .ok ds) :
    ∀ d ∈ ds, ∃ property value, IsNormal property value d.toList ∧ Suits property value := by
  obtain ⟨made, hmade, rfl⟩ := declarationsOf_eq_ok_iff.1 h
  intro d hd
  obtain ⟨result, hresult, hsome⟩ := List.mem_filterMap.1 hd
  obtain rfl : result = some d := hsome
  obtain ⟨piece, hpiece, hread⟩ := exists_mem_of_mapM_eq_ok hmade _ hresult
  have hcomma : ∀ c ∈ piece, c ≠ ',' := forall_mem_pieces (fun c _ hc ↦ hc) piece hpiece
  exact isNormal_of_declarationOf (fun hmem ↦ hcomma ',' hmem rfl) hread

/-- Declarations in normal form, with commas between them, are read as they are. -/
theorem declarationsOf_intercalate {ds : List String}
    (h : ∀ d ∈ ds, ∃ property value, IsNormal property value d.toList ∧ Suits property value) :
    declarationsOf (",".intercalate ds) statement = .ok ds := by
  rw [declarationsOf_eq_ok_iff, String.toList_intercalate]
  cases hds : ds with
  | nil =>
    have hempty : declarationOf [] statement = .ok none :=
      declarationOf_eq_ok_iff.2 (.inl ⟨rfl, rfl⟩)
    exact ⟨[none], mapM_eq_ok_iff.2 (.cons hempty .nil), rfl⟩
  | cons first rest =>
    rw [← hds]
    have hcomma : ∀ piece ∈ ds.map String.toList, ',' ∉ piece := by
      rw [List.forall_mem_map]
      intro d hd
      obtain ⟨property, value, hnormal, -⟩ := h d hd
      exact hnormal.comma_not_mem
    have hpieces : pieces ',' (",".toList.intercalate (ds.map String.toList)) =
        ds.map String.toList :=
      pieces_intercalate hcomma (by simp [hds])
    refine ⟨ds.map some, ?_, by simp⟩
    rw [hpieces, mapM_eq_ok_iff, List.forall₂_map_left_iff, List.forall₂_map_right_iff,
      List.forall₂_same]
    intro d hd
    obtain ⟨property, value, hnormal, hsuits⟩ := h d hd
    rw [declarationOf_of_isNormal hnormal hsuits, String.ofList_toList]

/-- Declarations that are read are in normal form: they have a colon, no separators, and no blanks at
their ends or around their first colon. Read once more, with commas between them, they stay as they
are. -/
theorem declarationsOf_stable {text : String} {ds : List String}
    (h : declarationsOf text statement = .ok ds) :
    (∀ d ∈ ds, ∃ property value, IsNormal property value d.toList ∧ IsTrimmed d.toList) ∧
      ∀ other, declarationsOf (",".intercalate ds) other = .ok ds := by
  have hnormal := isNormal_of_declarationsOf h
  constructor
  · intro d hd
    obtain ⟨property, value, hd, -⟩ := hnormal d hd
    exact ⟨property, value, hd, hd.isTrimmed⟩
  · intro other
    exact declarationsOf_intercalate hnormal

/-- Declarations with a color and with a second colon, a lone colon, blanks, empty pieces, and what
stands behind a semicolon. -/
def untidy : String :=
  " fill : #f9f ,; stroke,a:b : c;x, ,\t: ;"

/-- Three declarations are left of them, which are read as they are. -/
theorem declarationsOf_untidy :
    declarationsOf untidy (.emptyAt 0) = .ok ["fill:#f9f", "a:b : c", ":"] ∧
      declarationsOf "fill:#f9f,a:b : c,:" (.emptyAt 7) = .ok ["fill:#f9f", "a:b : c", ":"] := by
  have hread : declarationsOf untidy (.emptyAt 0) = .ok ["fill:#f9f", "a:b : c", ":"] := by
    decide +kernel
  exact ⟨hread, (declarationsOf_stable hread).2 (.emptyAt 7)⟩

end Builder

end BlockDiagram
