import BlockDiagram.Proofs.Lexer.Origin

/-!
# Forms of tokens

What the texts of tokens that state something look like: column counts, spacers, widths, directions
and node ids. Each follows from the rules for the kind, which are few.
-/

namespace BlockDiagram.Lexer

open Regex
open Token (Kind)

/-- Holds for texts that end in at least one decimal digit. -/
def EndsInDigits (text : List Char) : Prop :=
  ∃ front digits, text = front ++ digits ∧ digits ≠ [] ∧ ∀ c ∈ digits, c.isDigit = true

private theorem EndsInDigits.append {text : List Char} (h : EndsInDigits text) (front : List Char) :
    EndsInDigits (front ++ text) := by
  obtain ⟨middle, digits, rfl, hdigits⟩ := h
  exact ⟨front ++ middle, digits, (List.append_assoc _ _ _).symm, hdigits⟩

private theorem endsInDigits_of_matches {text after : List Char}
    (h : Pattern.digits.Matches text after) : EndsInDigits text := by
  rw [Pattern.digits, matches_atLeastOnce_char_iff] at h
  exact ⟨[], text, rfl, h⟩

/-- The patterns of the rules for a kind in one mode. -/
def Mode.patternsFor (mode : Mode) (kind : Kind) : List Regex :=
  (mode.rules.filter fun rule ↦ rule.kind = some kind).map Rule.pattern

/-- The pattern of a rule is one of those for its kind. -/
theorem Mode.pattern_mem_patternsFor {mode : Mode} {rule : Rule} {kind : Kind}
    (hrule : rule ∈ mode.rules) (hkind : rule.kind = some kind) :
    rule.pattern ∈ mode.patternsFor kind :=
  List.mem_map_of_mem (List.mem_filter.2 ⟨hrule, decide_eq_true hkind⟩)

variable {t : Token}

/-- A token is a match of one of the patterns for its kind, which are the same in all modes that
have rules for it. -/
theorem HasOrigin.exists_matches (h : HasOrigin t) {kind : Kind} (hkind : t.kind = kind)
    (hend : kind ≠ .endOfInput) {patterns : List Regex}
    (hpatterns : ∀ mode : Mode, mode.patternsFor kind ⊆ patterns) :
    ∃ pattern ∈ patterns, ∃ after, pattern.Matches t.text.toList after := by
  rcases h with h | ⟨mode, rule, after, hrule, hrulekind, hmatches⟩
  · exact absurd (hkind.symm.trans h) hend
  · have hmem := mode.pattern_mem_patternsFor hrule (hkind ▸ hrulekind)
    exact ⟨rule.pattern, hpatterns mode hmem, after, hmatches⟩

private theorem patternsFor_columns (mode : Mode) :
    mode.patternsFor .columns ⊆
      [inOrder [literal "columns", Pattern.someBlanks, literal "auto", wordEnd],
        inOrder [literal "columns", Pattern.someBlanks, Pattern.digits]] := by
  cases mode <;> first | exact List.nil_subset _ | exact List.Subset.refl _

private theorem patternsFor_space (mode : Mode) :
    mode.patternsFor .space ⊆
      [inOrder [literal "space:", Pattern.digits], inOrder [literal "space", wordEnd]] := by
  cases mode <;> first | exact List.nil_subset _ | exact List.Subset.refl _

private theorem patternsFor_width (mode : Mode) :
    mode.patternsFor .width ⊆ [inOrder [just ':', Pattern.digits]] := by
  cases mode <;> first | exact List.nil_subset _ | exact List.Subset.refl _

private theorem patternsFor_direction (mode : Mode) :
    mode.patternsFor .direction ⊆ [Pattern.direction] := by
  cases mode <;> first | exact List.nil_subset _ | exact List.Subset.refl _

private theorem patternsFor_nodeId (mode : Mode) :
    mode.patternsFor .nodeId ⊆ [Pattern.nodeId] := by
  cases mode <;> first | exact List.nil_subset _ | exact List.Subset.refl _

/-- A column count is the word for as many columns as needed, or a number. -/
theorem HasOrigin.columns_text (h : HasOrigin t) (hkind : t.kind = .columns) :
    "auto".toList <:+ t.text.toList ∨ EndsInDigits t.text.toList := by
  obtain ⟨pattern, hpattern, after, hmatches⟩ :=
    h.exists_matches hkind (by decide) patternsFor_columns
  rw [List.mem_cons, List.mem_singleton] at hpattern
  rcases hpattern with rfl | rfl
  · left
    simp only [inOrder, matches_seq_iff, matches_wordEnd_iff, matches_literal_iff] at hmatches
    obtain ⟨word, _, htext, -, blanks, _, rfl, -, _, _, rfl, rfl, rfl, -⟩ := hmatches
    exact ⟨word ++ blanks, by rw [htext, List.append_nil, List.append_assoc]⟩
  · right
    simp only [inOrder, matches_seq_iff] at hmatches
    obtain ⟨word, _, htext, -, blanks, digits, rfl, -, hdigits⟩ := hmatches
    rw [htext]
    exact ((endsInDigits_of_matches hdigits).append blanks).append word

/-- Spacers are stated as a number behind a colon, or there is just the word for one of them. -/
theorem HasOrigin.space_text (h : HasOrigin t) (hkind : t.kind = .space) :
    t.text.toList = "space".toList ∨ ':' ∈ t.text.toList ∧ EndsInDigits t.text.toList := by
  obtain ⟨pattern, hpattern, after, hmatches⟩ :=
    h.exists_matches hkind (by decide) patternsFor_space
  rw [List.mem_cons, List.mem_singleton] at hpattern
  rcases hpattern with rfl | rfl
  · right
    simp only [inOrder, matches_seq_iff, matches_literal_iff] at hmatches
    obtain ⟨word, digits, htext, rfl, hdigits⟩ := hmatches
    rw [htext]
    exact ⟨List.mem_append_left digits (by decide), (endsInDigits_of_matches hdigits).append _⟩
  · left
    simp only [inOrder, matches_seq_iff, matches_wordEnd_iff, matches_literal_iff] at hmatches
    obtain ⟨_, _, htext, rfl, rfl, -⟩ := hmatches
    rw [htext, List.append_nil]

/-- A width is a number. -/
theorem HasOrigin.width_text (h : HasOrigin t) (hkind : t.kind = .width) :
    EndsInDigits t.text.toList := by
  obtain ⟨pattern, hpattern, after, hmatches⟩ :=
    h.exists_matches hkind (by decide) patternsFor_width
  rw [List.mem_singleton] at hpattern
  subst hpattern
  simp only [inOrder, matches_seq_iff] at hmatches
  obtain ⟨colon, digits, htext, -, hdigits⟩ := hmatches
  rw [htext]
  exact (endsInDigits_of_matches hdigits).append colon

/-- A direction is its name with blanks around it, and perhaps a comma in front of them. -/
theorem HasOrigin.direction_text (h : HasOrigin t) (hkind : t.kind = .direction) :
    ∃ comma before after : List Char, ∃ direction : Direction,
      t.text.toList = comma ++ (before ++ direction.name.toList ++ after) ∧
      (comma = [] ∨ comma = [',']) ∧ (∀ c ∈ before, Text.isBlank c = true) ∧
      ∀ c ∈ after, Text.isBlank c = true := by
  obtain ⟨pattern, hpattern, rest, hmatches⟩ :=
    h.exists_matches hkind (by decide) patternsFor_direction
  rw [List.mem_singleton] at hpattern
  subst hpattern
  simp only [Pattern.direction, inOrder, matches_seq_iff, matches_optional_iff,
    matches_just_iff, Pattern.blanks, Pattern.blank, matches_many_char_iff] at hmatches
  obtain ⟨comma, _, htext, hcomma, before, _, rfl, hbefore, word, after, rfl, hword, hafter⟩ :=
    hmatches
  have hname : ∃ direction : Direction, word = direction.name.toList := by
    simp only [List.map_cons, List.map_nil, anyOf, matches_either_iff, matches_literal_iff]
      at hword
    rcases hword with h | h | h | h | h | h
    · exact ⟨.right, h⟩
    · exact ⟨.left, h⟩
    · exact ⟨.up, h⟩
    · exact ⟨.down, h⟩
    · exact ⟨.x, h⟩
    · exact ⟨.y, h⟩
  obtain ⟨direction, rfl⟩ := hname
  exact ⟨comma, before, after, direction, by rw [htext, List.append_assoc before], hcomma.symm,
    hbefore, hafter⟩

/-- A node id is not empty and has no dash in it. -/
theorem HasOrigin.nodeId_text (h : HasOrigin t) (hkind : t.kind = .nodeId) :
    t.text ≠ "" ∧ '-' ∉ t.text.toList := by
  obtain ⟨pattern, hpattern, after, hmatches⟩ :=
    h.exists_matches hkind (by decide) patternsFor_nodeId
  rw [List.mem_singleton] at hpattern
  subst hpattern
  rw [Pattern.nodeId, matches_atLeastOnce_char_iff] at hmatches
  obtain ⟨hne, hchars⟩ := hmatches
  refine ⟨fun hempty ↦ hne (by rw [hempty]; rfl), fun hdash ↦ ?_⟩
  exact absurd (hchars '-' hdash) (by decide)

end BlockDiagram.Lexer
