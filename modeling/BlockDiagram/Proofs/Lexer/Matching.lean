import BlockDiagram.Regex

/-!
# Matching

What the expressions of lexical rules match, form by form.
-/

namespace BlockDiagram.Regex

variable {r s : Regex} {c : Char} {text after : List Char}

/-! ### Inversion -/

/-- The expression for nothing at all matches no text. -/
theorem not_matches_never : ¬ never.Matches text after := by
  intro h
  cases h

/-- The expression for the empty text matches no other. -/
theorem matches_nothing_iff : nothing.Matches text after ↔ text = [] := by
  constructor
  · intro h
    cases h
    rfl
  · rintro rfl
    exact .nothing

/-- The end of a word takes no text, and no character of a word stands behind it. -/
theorem matches_wordEnd_iff :
    wordEnd.Matches text after ↔ text = [] ∧ ∀ c ∈ after.head?, isWordChar c = false := by
  constructor
  · intro h
    cases h with
    | wordEnd h => exact ⟨rfl, h⟩
  · rintro ⟨rfl, h⟩
    exact .wordEnd h

/-- A single character is one that is accepted. -/
theorem matches_char_iff {accepts : Char → Bool} :
    (char accepts).Matches text after ↔ ∃ c, accepts c = true ∧ text = [c] := by
  constructor
  · intro h
    cases h with
    | char h => exact ⟨_, h, rfl⟩
  · rintro ⟨c, h, rfl⟩
    exact .char h

/-- Two expressions one behind the other match the two parts of a text. -/
theorem matches_seq_iff :
    (seq r s).Matches text after ↔
      ∃ front back, text = front ++ back ∧ r.Matches front (back ++ after) ∧ s.Matches back after := by
  constructor
  · intro h
    cases h with
    | seq hr hs => exact ⟨_, _, rfl, hr, hs⟩
  · rintro ⟨front, back, rfl, hr, hs⟩
    exact .seq hr hs

/-- One of two expressions matches what any of them does. -/
theorem matches_either_iff :
    (either r s).Matches text after ↔ r.Matches text after ∨ s.Matches text after := by
  constructor
  · intro h
    cases h with
    | left h => exact .inl h
    | right h => exact .inr h
  · rintro (h | h)
    · exact .left h
    · exact .right h

/-- Repetitions that match a character begin with one that is not empty. -/
theorem matches_many_cons_iff :
    (many r).Matches (c :: text) after ↔
      ∃ front back, text = front ++ back ∧ r.Matches (c :: front) (back ++ after) ∧
        (many r).Matches back after := by
  constructor
  · intro h
    generalize hexpr : many r = expr at h
    generalize htext : c :: text = whole at h
    induction h with
    | more hr hs ihr ihs =>
      obtain rfl := Regex.many.inj hexpr
      rcases List.cons_eq_append_iff.1 htext with ⟨rfl, rfl⟩ | ⟨front, rfl, rfl⟩
      · exact ihs rfl rfl
      · exact ⟨front, _, rfl, hr, hs⟩
    | stop => cases htext
    | _ => cases hexpr
  · rintro ⟨front, back, rfl, hr, hs⟩
    exact .more hr hs

private theorem matches_andThen_iff :
    (r.andThen s).Matches text after ↔ (seq r s).Matches text after := by
  cases r with
  | never =>
    rw [andThen, matches_seq_iff]
    constructor
    · exact fun h ↦ absurd h not_matches_never
    · rintro ⟨front, back, -, h, -⟩
      exact absurd h not_matches_never
  | nothing =>
    rw [andThen, matches_seq_iff]
    constructor
    · exact fun h ↦ ⟨[], text, rfl, .nothing, h⟩
    · rintro ⟨front, back, rfl, h, hs⟩
      rwa [matches_nothing_iff.1 h, List.nil_append]
  | _ => exact Iff.rfl

/-! ### Building blocks -/

/-- A given character matches itself only. -/
theorem matches_just_iff : (just c).Matches text after ↔ text = [c] := by
  rw [just, matches_char_iff]
  constructor
  · rintro ⟨d, hd, rfl⟩
    rw [beq_iff_eq.1 hd]
  · rintro rfl
    exact ⟨c, beq_self_eq_true c, rfl⟩

/-- A word matches itself only. -/
theorem matches_literal_iff {word : String} :
    (literal word).Matches text after ↔ text = word.toList := by
  rw [literal]
  induction word.toList generalizing text with
  | nil => exact matches_nothing_iff
  | cons c cs ih =>
    rw [List.foldr_cons, matches_andThen_iff, matches_seq_iff]
    simp only [matches_just_iff, ih]
    constructor
    · rintro ⟨front, back, rfl, rfl, rfl⟩
      rfl
    · rintro rfl
      exact ⟨[c], cs, rfl, rfl, rfl⟩

/-- Repetitions of one character class match the texts over that class. -/
theorem matches_many_char_iff {accepts : Char → Bool} :
    (many (char accepts)).Matches text after ↔ ∀ c ∈ text, accepts c = true := by
  induction text with
  | nil => exact ⟨fun _ c h ↦ absurd h (List.not_mem_nil), fun _ ↦ .stop⟩
  | cons c cs ih =>
    rw [matches_many_cons_iff, List.forall_mem_cons, ← ih]
    constructor
    · rintro ⟨front, back, rfl, hc, hs⟩
      obtain ⟨d, hd, heq⟩ := matches_char_iff.1 hc
      obtain ⟨rfl, rfl⟩ := List.cons.inj heq
      exact ⟨hd, hs⟩
    · rintro ⟨hc, hs⟩
      exact ⟨[], cs, rfl, .char hc, hs⟩

/-- One character after the other makes up any text of accepted ones that is not empty. -/
theorem matches_atLeastOnce_char_iff {accepts : Char → Bool} :
    (atLeastOnce (char accepts)).Matches text after ↔
      text ≠ [] ∧ ∀ c ∈ text, accepts c = true := by
  rw [atLeastOnce, matches_seq_iff]
  constructor
  · rintro ⟨front, back, rfl, hfront, hs⟩
    obtain ⟨c, hc, rfl⟩ := matches_char_iff.1 hfront
    exact ⟨List.cons_ne_nil c back, List.forall_mem_cons.2 ⟨hc, matches_many_char_iff.1 hs⟩⟩
  · rintro ⟨hne, hall⟩
    obtain ⟨c, cs, rfl⟩ := List.exists_cons_of_ne_nil hne
    obtain ⟨hc, hcs⟩ := List.forall_mem_cons.1 hall
    exact ⟨[c], cs, rfl, .char hc, matches_many_char_iff.2 hcs⟩

/-- An optional expression may be left out. -/
theorem matches_optional_iff :
    (optional r).Matches text after ↔ r.Matches text after ∨ text = [] := by
  rw [optional, matches_either_iff, matches_nothing_iff]

end BlockDiagram.Regex
