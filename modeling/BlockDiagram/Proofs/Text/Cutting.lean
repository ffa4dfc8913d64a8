import BlockDiagram.Text.Blank
import BlockDiagram.Text.Pieces

/-!
# Cutting texts

What cutting at a separator, splitting at the first one and trimming leave of a text, and when they
change nothing.
-/

namespace BlockDiagram.Text

variable {separator : Char} {cs before after : List Char}

/-! ### Cutting -/

private theorem pieces_eq_splitOn (separator : Char) (cs : List Char) :
    pieces separator cs = cs.splitOn separator := by
  induction cs with
  | nil => rfl
  | cons c cs ih =>
    rw [pieces, List.splitOn_cons_eq_if_modifyHead, ← ih]
    by_cases hc : c = separator
    · simp [hc]
    · cases hpieces : pieces separator cs with
      | nil => exact absurd hpieces (pieces_ne_nil _ _)
      | cons piece rest => simp [hc]

/-- A separator stands in no piece, and neither does what is not in the text. -/
theorem forall_mem_pieces {p : Char → Prop} (h : ∀ c ∈ cs, c ≠ separator → p c) :
    ∀ piece ∈ pieces separator cs, ∀ c ∈ piece, p c := by
  induction cs with
  | nil => simp [pieces]
  | cons c cs ih =>
    obtain ⟨hc, hcs⟩ := List.forall_mem_cons.1 h
    rw [pieces]
    split
    · exact List.forall_mem_cons.2 ⟨List.forall_mem_nil _, ih hcs⟩
    · next hne =>
      split
      · simpa using hc hne
      · next piece rest hpieces =>
        rw [hpieces] at ih
        obtain ⟨hpiece, hrest⟩ := List.forall_mem_cons.1 (ih hcs)
        exact List.forall_mem_cons.2 ⟨List.forall_mem_cons.2 ⟨hc hne, hpiece⟩, hrest⟩

/-- Texts without the separator are found again when they are joined with it. -/
theorem pieces_intercalate {ps : List (List Char)} (h : ∀ piece ∈ ps, separator ∉ piece)
    (hps : ps ≠ []) : pieces separator ([separator].intercalate ps) = ps := by
  rw [pieces_eq_splitOn, List.splitOn_intercalate separator h hps]

/-- A text without the separator is in one piece. -/
theorem pieces_eq_singleton (h : separator ∉ cs) : pieces separator cs = [cs] := by
  have hpieces := pieces_intercalate (List.forall_mem_singleton.2 h) (List.cons_ne_nil cs [])
  rwa [List.intercalate_singleton] at hpieces

/-- A text is split at the first separator. -/
theorem splitFirst?_eq_some_iff :
    splitFirst? separator cs = some (before, after) ↔
      cs = before ++ separator :: after ∧ separator ∉ before := by
  induction cs generalizing before with
  | nil => simp [splitFirst?]
  | cons c cs ih =>
    rw [splitFirst?]
    split
    · next hc =>
      subst hc
      cases before with
      | nil => simp [eq_comm]
      | cons d before =>
        constructor
        · intro h
          cases h
        · rintro ⟨heq, hnot⟩
          exact absurd (List.mem_cons.2 (.inl (List.cons.inj heq).1)) hnot
    · next hc =>
      rw [Option.map_eq_some_iff]
      cases before with
      | nil =>
        constructor
        · rintro ⟨_, -, heq⟩
          cases heq
        · rintro ⟨heq, -⟩
          exact absurd (List.cons.inj heq).1 hc
      | cons d before =>
        simp only [Prod.exists, Prod.mk.injEq, List.cons.injEq, List.cons_append, List.mem_cons,
          not_or]
        constructor
        · rintro ⟨front, back, hfront, ⟨rfl, rfl⟩, rfl⟩
          obtain ⟨rfl, hnot⟩ := ih.1 hfront
          exact ⟨⟨rfl, rfl⟩, Ne.symm hc, hnot⟩
        · rintro ⟨⟨rfl, heq⟩, -, hnot⟩
          exact ⟨before, after, ih.2 ⟨heq, hnot⟩, ⟨rfl, rfl⟩, rfl⟩

/-! ### Searching -/

/-- A word occurs in a text exactly if it is a part of it. -/
theorem occurs_iff {word : List Char} : occurs word cs = true ↔ word <:+: cs := by
  induction cs with
  | nil => rw [occurs, List.isEmpty_iff, List.infix_nil]
  | cons c cs ih =>
    rw [occurs, Bool.or_eq_true, ih, List.infix_cons_iff, List.isPrefixOf_iff_prefix]

/-! ### Trimming -/

/-- Holds for texts that neither start nor end in a blank character. -/
structure IsTrimmed (cs : List Char) : Prop where
  head : ∀ c ∈ cs.head?, isBlank c = false
  last : ∀ c ∈ cs.getLast?, isBlank c = false

/-- A text without blanks is trimmed. -/
theorem isTrimmed_of_forall (h : ∀ c ∈ cs, isBlank c = false) : IsTrimmed cs where
  head c hc := h c (List.mem_of_head? hc)
  last c hc := h c (List.mem_of_getLast? hc)

private theorem getLast?_trimEndBlank (cs : List Char) :
    ∀ c ∈ (trimEndBlank cs).getLast?, isBlank c = false := by
  induction cs with
  | nil => simp
  | cons c cs ih =>
    rw [trimEndBlank_cons]
    split
    · simp
    · next h =>
      cases hrest : trimEndBlank cs with
      | nil => simpa [hrest] using h
      | cons d rest =>
        rw [hrest] at ih
        rwa [List.getLast?_cons_cons]

private theorem trimEndBlank_eq_self (h : ∀ c ∈ cs.getLast?, isBlank c = false) :
    trimEndBlank cs = cs := by
  obtain ⟨blanks, hblanks, heq⟩ := trimEndBlank_append cs
  cases hlast : blanks.getLast? with
  | none =>
    rw [List.getLast?_eq_none_iff.1 hlast, List.append_nil] at heq
    exact heq.symm
  | some c =>
    have hblank : isBlank c = true := hblanks c (List.mem_of_getLast? hlast)
    have hend : cs.getLast? = some c := by
      rw [heq, List.getLast?_append, hlast, Option.some_or]
    rw [h c hend] at hblank
    cases hblank

/-- There are no blanks around a text that was trimmed. -/
theorem isTrimmed_trimBlank (cs : List Char) : IsTrimmed (trimBlank cs) where
  head c hc := by
    obtain ⟨blanks, -, heq⟩ := trimEndBlank_append (cs.dropWhile isBlank)
    obtain ⟨rest, hrest⟩ := List.head?_eq_some_iff.1 hc
    have hfirst := List.head?_dropWhile_not isBlank cs
    rw [trimBlank] at hrest
    rw [heq, hrest] at hfirst
    exact hfirst
  last := getLast?_trimEndBlank _

/-- A text that is trimmed is kept. -/
theorem IsTrimmed.trimBlank_eq (h : IsTrimmed cs) : trimBlank cs = cs := by
  have hfront : cs.dropWhile isBlank = cs := by
    cases cs with
    | nil => rfl
    | cons c cs => exact List.dropWhile_cons_of_neg (by simp [h.head c rfl])
  rw [trimBlank, hfront, trimEndBlank_eq_self h.last]

/-- A text that is trimmed is what stands between blank runs. -/
theorem IsTrimmed.trimBlank_append (h : IsTrimmed cs) (hne : cs ≠ [])
    (hbefore : ∀ c ∈ before, isBlank c = true) (hafter : ∀ c ∈ after, isBlank c = true) :
    trimBlank (before ++ cs ++ after) = cs := by
  cases cs with
  | nil => exact absurd rfl hne
  | cons c cs =>
    exact trimBlank_between hbefore hafter (h.head c rfl) (trimEndBlank_eq_self h.last)

/-- Trimming adds no characters. -/
theorem mem_of_mem_trimBlank {c : Char} (h : c ∈ trimBlank cs) : c ∈ cs := by
  obtain ⟨_, _, -, -, heq⟩ := trimBlank_eq cs
  rw [heq]
  exact List.mem_append_left _ (List.mem_append_right _ h)

end BlockDiagram.Text
