import BlockDiagram.Proofs.Lexer.Matching

/-!
# Greedy reading

Reading an expression off the front of a text never gives anything back. Where the next character
tells what to do (`IsGreedy`), that finds the longest match of the expression (`findsLongest_scan`).
-/

namespace BlockDiagram.Regex

variable {r s : Regex} {text mid rest near far : List Char}

/-! ### What a match leaves -/

/-- Holds when `r` matches the front of a text and leaves `rest` of it. -/
def Leaves (r : Regex) (text rest : List Char) : Prop :=
  ∃ front, text = front ++ rest ∧ r.Matches front rest

namespace Leaves

private theorem isSuffix (h : r.Leaves text rest) : rest <:+ text := by
  obtain ⟨front, rfl, -⟩ := h
  exact List.suffix_append front rest

private theorem length_le (h : r.Leaves text rest) : rest.length ≤ text.length :=
  h.isSuffix.length_le

/-- Of one text, matches that leave equally much leave the same. -/
theorem eq_of_length (h : r.Leaves text near) (h' : s.Leaves text far)
    (hlength : near.length = far.length) : near = far :=
  (List.suffix_of_suffix_length_le h.isSuffix h'.isSuffix (Nat.le_of_eq hlength)).eq_of_length
    hlength

private theorem eq_of_length_le (h : r.Leaves text rest) (hlength : text.length ≤ rest.length) :
    rest = text :=
  h.isSuffix.eq_of_length_le hlength

end Leaves

private theorem not_leaves_never : ¬ never.Leaves text rest := by
  rintro ⟨front, -, h⟩
  exact not_matches_never h

private theorem leaves_nothing_iff : nothing.Leaves text rest ↔ rest = text := by
  simp only [Leaves, matches_nothing_iff]
  constructor
  · rintro ⟨front, rfl, rfl⟩
    rfl
  · rintro rfl
    exact ⟨[], rfl, rfl⟩

private theorem leaves_wordEnd_iff :
    wordEnd.Leaves text rest ↔ rest = text ∧ ∀ c ∈ text.head?, isWordChar c = false := by
  simp only [Leaves, matches_wordEnd_iff]
  constructor
  · rintro ⟨front, rfl, rfl, h⟩
    exact ⟨rfl, h⟩
  · rintro ⟨rfl, h⟩
    exact ⟨[], rfl, rfl, h⟩

private theorem leaves_char_iff {accepts : Char → Bool} :
    (char accepts).Leaves text rest ↔ ∃ c, accepts c = true ∧ text = c :: rest := by
  simp only [Leaves, matches_char_iff]
  constructor
  · rintro ⟨front, rfl, c, hc, rfl⟩
    exact ⟨c, hc, rfl⟩
  · rintro ⟨c, hc, rfl⟩
    exact ⟨[c], rfl, c, hc, rfl⟩

/-- Of two expressions the second one matches what the first one leaves. -/
theorem leaves_seq_iff :
    (seq r s).Leaves text rest ↔ ∃ mid, r.Leaves text mid ∧ s.Leaves mid rest := by
  simp only [Leaves, matches_seq_iff]
  constructor
  · rintro ⟨_, rfl, front, back, rfl, hr, hs⟩
    exact ⟨back ++ rest, ⟨front, List.append_assoc _ _ _, hr⟩, back, rfl, hs⟩
  · rintro ⟨_, ⟨front, rfl, hr⟩, back, rfl, hs⟩
    exact ⟨front ++ back, (List.append_assoc _ _ _).symm, front, back, rfl, hr, hs⟩

private theorem leaves_either_iff :
    (either r s).Leaves text rest ↔ r.Leaves text rest ∨ s.Leaves text rest := by
  simp only [Leaves, matches_either_iff]
  constructor
  · rintro ⟨front, rfl, h | h⟩
    · exact .inl ⟨front, rfl, h⟩
    · exact .inr ⟨front, rfl, h⟩
  · rintro (⟨front, rfl, h⟩ | ⟨front, rfl, h⟩)
    · exact ⟨front, rfl, .inl h⟩
    · exact ⟨front, rfl, .inr h⟩

/-- Repetitions match nothing, or begin with one that takes something. -/
theorem leaves_many_iff :
    (many r).Leaves text rest ↔ rest = text ∨
      ∃ mid, mid.length < text.length ∧ r.Leaves text mid ∧ (many r).Leaves mid rest := by
  constructor
  · rintro ⟨front, rfl, h⟩
    cases front with
    | nil => exact .inl rfl
    | cons c front =>
      obtain ⟨front, back, rfl, hr, hs⟩ := matches_many_cons_iff.1 h
      refine .inr ⟨back ++ rest, ?_, ⟨c :: front, by simp, hr⟩, back, rfl, hs⟩
      simp only [List.cons_append, List.length_cons, List.length_append]
      omega
  · rintro (rfl | ⟨_, -, ⟨front, rfl, hr⟩, back, rfl, hs⟩)
    · exact ⟨[], rfl, .stop⟩
    · exact ⟨front ++ back, (List.append_assoc _ _ _).symm, .more hr hs⟩

/-! ### What the next character tells -/

/-- Whether a match may be empty in front of some text. -/
@[simp] def mayBeEmpty : Regex → Bool
  | never => false
  | nothing => true
  | wordEnd => true
  | char _ => false
  | seq r s => r.mayBeEmpty && s.mayBeEmpty
  | either r s => r.mayBeEmpty || s.mayBeEmpty
  | many _ => true

/-- Whether a match may be empty in front of every text. -/
@[simp] def isNullable : Regex → Bool
  | never => false
  | nothing => true
  | wordEnd => false
  | char _ => false
  | seq r s => r.isNullable && s.isNullable
  | either r s => r.isNullable || s.isNullable
  | many _ => true

/-- Holds for the characters that a match may start with. -/
@[simp] def Starts : Regex → Char → Prop
  | never, _ => False
  | nothing, _ => False
  | wordEnd, _ => False
  | char accepts, c => accepts c = true
  | seq r s, c => r.Starts c ∨ r.mayBeEmpty = true ∧ s.Starts c
  | either r s, c => r.Starts c ∨ s.Starts c
  | many r, c => r.Starts c

/-- Holds for the characters with which a longer match may go on behind a shorter one. -/
@[simp] def GoesOn : Regex → Char → Prop
  | never, _ => False
  | nothing, _ => False
  | wordEnd, _ => False
  | char _, _ => False
  | seq r s, c => s.GoesOn c ∨ s.mayBeEmpty = true ∧ r.GoesOn c
  | either r s, c => r.GoesOn c ∨ s.GoesOn c ∨ s.mayBeEmpty = true ∧ r.Starts c
  | many r, c => r.GoesOn c ∨ r.Starts c

/-- Holds when `s` cannot take what belongs to a longer match in front of it, and is there wherever
that ends if it is where this does. -/
@[simp] def YieldsTo (s : Regex) (goesOn : Char → Prop) : Prop :=
  ∀ c, goesOn c → ¬ s.Starts c ∧ (s.mayBeEmpty = true → s.isNullable = true)

/-- Holds for expressions where the next character tells whether a repetition goes on and which of
two expressions is there. -/
@[simp] def IsGreedy : Regex → Prop
  | never => True
  | nothing => True
  | wordEnd => True
  | char _ => True
  | seq r s => r.IsGreedy ∧ s.IsGreedy ∧ s.YieldsTo r.GoesOn
  | either r s =>
    r.IsGreedy ∧ s.IsGreedy ∧ r.mayBeEmpty = false ∧ ∀ c, r.Starts c → ¬ s.Starts c
  | many r => r.IsGreedy ∧ r.mayBeEmpty = false ∧ ∀ c, r.GoesOn c → ¬ r.Starts c

private theorem leaves_of_isNullable (h : r.isNullable = true) (text : List Char) :
    r.Leaves text text := by
  induction r with
  | never => cases h
  | nothing => exact leaves_nothing_iff.2 rfl
  | wordEnd => cases h
  | char => cases h
  | seq r s ihr ihs =>
    obtain ⟨hr, hs⟩ := Bool.and_eq_true_iff.1 h
    exact leaves_seq_iff.2 ⟨text, ihr hr, ihs hs⟩
  | either r s ihr ihs =>
    rw [isNullable, Bool.or_eq_true] at h
    exact leaves_either_iff.2 (h.imp ihr ihs)
  | many r => exact leaves_many_iff.2 (.inl rfl)

private theorem mayBeEmpty_of_leaves (h : r.Leaves text text) : r.mayBeEmpty = true := by
  induction r with
  | never => exact absurd h not_leaves_never
  | nothing => rfl
  | wordEnd => rfl
  | char =>
    obtain ⟨c, -, htext⟩ := leaves_char_iff.1 h
    exact absurd htext.symm (List.cons_ne_self c text)
  | seq r s ihr ihs =>
    obtain ⟨mid, hr, hs⟩ := leaves_seq_iff.1 h
    obtain rfl := hr.eq_of_length_le hs.length_le
    rw [mayBeEmpty, ihr hr, ihs hs, Bool.and_true]
  | either r s ihr ihs =>
    rw [mayBeEmpty, Bool.or_eq_true]
    exact (leaves_either_iff.1 h).imp ihr ihs
  | many r => rfl

/-- A match that is not empty starts with one of the characters for it. -/
theorem starts_of_leaves (h : r.Leaves text rest) (hlt : rest.length < text.length) :
    ∃ c ∈ text.head?, r.Starts c := by
  induction r generalizing text rest with
  | never => exact absurd h not_leaves_never
  | nothing =>
    rw [leaves_nothing_iff.1 h] at hlt
    exact absurd hlt (Nat.lt_irrefl _)
  | wordEnd =>
    rw [(leaves_wordEnd_iff.1 h).1] at hlt
    exact absurd hlt (Nat.lt_irrefl _)
  | char accepts =>
    obtain ⟨c, hc, rfl⟩ := leaves_char_iff.1 h
    exact ⟨c, rfl, hc⟩
  | seq r s ihr ihs =>
    obtain ⟨mid, hr, hs⟩ := leaves_seq_iff.1 h
    by_cases hmid : mid.length < text.length
    · obtain ⟨c, hc, hstarts⟩ := ihr hr hmid
      exact ⟨c, hc, .inl hstarts⟩
    · obtain rfl := hr.eq_of_length_le (Nat.le_of_not_lt hmid)
      obtain ⟨c, hc, hstarts⟩ := ihs hs hlt
      exact ⟨c, hc, .inr ⟨mayBeEmpty_of_leaves hr, hstarts⟩⟩
  | either r s ihr ihs =>
    rcases leaves_either_iff.1 h with h | h
    · obtain ⟨c, hc, hstarts⟩ := ihr h hlt
      exact ⟨c, hc, .inl hstarts⟩
    · obtain ⟨c, hc, hstarts⟩ := ihs h hlt
      exact ⟨c, hc, .inr hstarts⟩
  | many r ih =>
    rcases leaves_many_iff.1 h with rfl | ⟨mid, hmid, hr, -⟩
    · exact absurd hlt (Nat.lt_irrefl _)
    · exact ih hr hmid

/-- Nothing is taken where no match can start. -/
theorem eq_of_not_starts {c : Char} (h : r.Leaves text rest) (hc : c ∈ text.head?)
    (hstarts : ¬ r.Starts c) : rest = text := by
  by_cases hlt : rest.length < text.length
  · obtain ⟨d, hd, hd'⟩ := starts_of_leaves h hlt
    obtain rfl := Option.mem_unique hc hd
    exact absurd hd' hstarts
  · exact h.eq_of_length_le (Nat.le_of_not_lt hlt)

/-! ### Where a longer match goes on -/

/-- Holds when the character behind a match that is not the longest is one of the given ones. -/
def GoesOnWith (r : Regex) (goesOn : Char → Prop) : Prop :=
  ∀ ⦃text near far : List Char⦄, r.Leaves text near → r.Leaves text far →
    far.length < near.length → ∃ c ∈ near.head?, goesOn c

/-- Two ways to match one expression and then another part in the second one, unless the shorter
match ends with the first one. -/
theorem GoesOnWith.seq_cases {goesOn : Char → Prop} {mid' : List Char} (h : r.GoesOnWith goesOn)
    (hs : ∀ c, goesOn c → ¬ s.Starts c) (hr₁ : r.Leaves text mid) (hs₁ : s.Leaves mid near)
    (hr₂ : r.Leaves text mid') (hs₂ : s.Leaves mid' far) (hlt : far.length < near.length) :
    mid = mid' ∨ near = mid ∧ ∃ c ∈ near.head?, goesOn c := by
  rcases Nat.lt_trichotomy mid.length mid'.length with hlength | hlength | hlength
  · obtain ⟨c, hc, hgoes⟩ := h hr₂ hr₁ hlength
    obtain rfl := eq_of_not_starts hs₂ hc (hs c hgoes)
    have := hs₁.length_le
    omega
  · exact .inl (hr₁.eq_of_length hr₂ hlength)
  · obtain ⟨c, hc, hgoes⟩ := h hr₁ hr₂ hlength
    obtain rfl := eq_of_not_starts hs₁ hc (hs c hgoes)
    exact .inr ⟨rfl, c, hc, hgoes⟩

namespace GoesOnWith

variable {goesOn goesOn' : Char → Prop}

/-- Where two matches never differ there is no longer one. -/
theorem of_eq (h : ∀ ⦃text near far : List Char⦄, r.Leaves text near → r.Leaves text far →
    near = far) : r.GoesOnWith goesOn := by
  intro text near far h₁ h₂ hlt
  rw [h h₁ h₂] at hlt
  exact absurd hlt (Nat.lt_irrefl _)

private theorem seq (hr : r.GoesOnWith goesOn) (hs : s.GoesOnWith goesOn')
    (hyields : ∀ c, goesOn c → ¬ s.Starts c) :
    (Regex.seq r s).GoesOnWith fun c ↦ goesOn' c ∨ s.mayBeEmpty = true ∧ goesOn c := by
  intro text near far h₁ h₂ hlt
  obtain ⟨mid, hr₁, hs₁⟩ := leaves_seq_iff.1 h₁
  obtain ⟨mid', hr₂, hs₂⟩ := leaves_seq_iff.1 h₂
  rcases hr.seq_cases hyields hr₁ hs₁ hr₂ hs₂ hlt with rfl | ⟨rfl, c, hc, hgoes⟩
  · obtain ⟨c, hc, hgoes⟩ := hs hs₁ hs₂ hlt
    exact ⟨c, hc, .inl hgoes⟩
  · exact ⟨c, hc, .inr ⟨mayBeEmpty_of_leaves hs₁, hgoes⟩⟩

private theorem either (hr : r.GoesOnWith goesOn) (hs : s.GoesOnWith goesOn')
    (hempty : r.mayBeEmpty = false) (hapart : ∀ c, r.Starts c → ¬ s.Starts c) :
    (Regex.either r s).GoesOnWith fun c ↦
      goesOn c ∨ goesOn' c ∨ s.mayBeEmpty = true ∧ r.Starts c := by
  intro text near far h₁ h₂ hlt
  rcases leaves_either_iff.1 h₁ with h₁ | h₁ <;> rcases leaves_either_iff.1 h₂ with h₂ | h₂
  · obtain ⟨c, hc, hgoes⟩ := hr h₁ h₂ hlt
    exact ⟨c, hc, .inl hgoes⟩
  · -- The left expression takes something, so the right one starts with another character.
    obtain ⟨c, hc, hstarts⟩ := starts_of_leaves h₂ (Nat.lt_of_lt_of_le hlt h₁.length_le)
    obtain rfl := eq_of_not_starts h₁ hc fun hleft ↦ hapart c hleft hstarts
    rw [mayBeEmpty_of_leaves h₁] at hempty
    cases hempty
  · obtain ⟨c, hc, hstarts⟩ := starts_of_leaves h₂ (Nat.lt_of_lt_of_le hlt h₁.length_le)
    obtain rfl := eq_of_not_starts h₁ hc (hapart c hstarts)
    exact ⟨c, hc, .inr (.inr ⟨mayBeEmpty_of_leaves h₁, hstarts⟩)⟩
  · obtain ⟨c, hc, hgoes⟩ := hs h₁ h₂ hlt
    exact ⟨c, hc, .inr (.inl hgoes)⟩

private theorem many (hr : r.GoesOnWith goesOn) (hapart : ∀ c, goesOn c → ¬ r.Starts c) :
    (Regex.many r).GoesOnWith fun c ↦ goesOn c ∨ r.Starts c := by
  intro text near far h₁ h₂ hlt
  -- Every round takes something, so the induction is on the length of the text.
  induction hn : text.length using Nat.strongRecOn generalizing text with
  | ind n ihn =>
  subst hn
  rcases leaves_many_iff.1 h₂ with rfl | ⟨mid', hlt₂, hr₂, hs₂⟩
  · exact absurd h₁.length_le (Nat.not_le.2 hlt)
  rcases leaves_many_iff.1 h₁ with rfl | ⟨mid, hlt₁, hr₁, hs₁⟩
  · obtain ⟨c, hc, hstarts⟩ := starts_of_leaves hr₂ hlt₂
    exact ⟨c, hc, .inr hstarts⟩
  · rcases hr.seq_cases (s := .many r) hapart hr₁ hs₁ hr₂ hs₂ hlt with
      rfl | ⟨rfl, c, hc, hgoes⟩
    · exact ihn mid.length hlt₁ hs₁ hs₂ rfl
    · exact ⟨c, hc, .inl hgoes⟩

end GoesOnWith

/-- Behind a match of a greedy expression that is not the longest one stands a character with which
the match may go on. -/
theorem goesOnWith_of_isGreedy (h : r.IsGreedy) : r.GoesOnWith r.GoesOn := by
  induction r with
  | never => exact .of_eq fun _ _ _ h₁ _ ↦ absurd h₁ not_leaves_never
  | nothing =>
    exact .of_eq fun _ _ _ h₁ h₂ ↦ (leaves_nothing_iff.1 h₁).trans (leaves_nothing_iff.1 h₂).symm
  | wordEnd =>
    exact .of_eq fun _ _ _ h₁ h₂ ↦
      (leaves_wordEnd_iff.1 h₁).1.trans (leaves_wordEnd_iff.1 h₂).1.symm
  | char accepts =>
    refine .of_eq fun text near far h₁ h₂ ↦ ?_
    obtain ⟨c, -, rfl⟩ := leaves_char_iff.1 h₁
    obtain ⟨d, -, heq⟩ := leaves_char_iff.1 h₂
    exact (List.cons.inj heq).2
  | seq r s ihr ihs =>
    obtain ⟨hr, hs, hyields⟩ := h
    exact (ihr hr).seq (ihs hs) fun c hc ↦ (hyields c hc).1
  | either r s ihr ihs =>
    obtain ⟨hr, hs, hempty, hapart⟩ := h
    exact (ihr hr).either (ihs hs) hempty hapart
  | many r ih =>
    obtain ⟨hr, -, hapart⟩ := h
    exact (ih hr).many hapart

/-! ### Reading finds the longest match -/

/-- Holds when `read` finds the longest match of `r` in front of every text that has one, and fails
in front of the others. -/
structure FindsLongest (read : List Char → Option (List Char)) (r : Regex) : Prop where
  leaves {text rest : List Char} : read text = some rest → r.Leaves text rest
  exists_le {text rest : List Char} : r.Leaves text rest →
    ∃ best, read text = some best ∧ best.length ≤ rest.length

namespace FindsLongest

variable {read readNext : List Char → Option (List Char)}

/-- Expressions with the same matches are read alike. -/
theorem congr (h : FindsLongest read r)
    (hiff : ∀ text rest, r.Leaves text rest ↔ s.Leaves text rest) : FindsLongest read s where
  leaves hread := (hiff _ _).1 (h.leaves hread)
  exists_le hs := h.exists_le ((hiff _ _).2 hs)

/-- One reading after another finds the longest match, if what comes second cannot take what the
first one goes on with. -/
theorem seq {goesOn : Char → Prop} (hr : FindsLongest read r) (hs : FindsLongest readNext s)
    (hgoes : r.GoesOnWith goesOn) (hyields : s.YieldsTo goesOn) :
    FindsLongest (fun text ↦ (read text).bind readNext) (seq r s) where
  leaves hread := by
    obtain ⟨mid, hmid, hrest⟩ := Option.bind_eq_some_iff.1 hread
    exact leaves_seq_iff.2 ⟨mid, hr.leaves hmid, hs.leaves hrest⟩
  exists_le {text rest} h := by
    obtain ⟨mid, hr', hs'⟩ := leaves_seq_iff.1 h
    obtain ⟨first, hfirst, hle⟩ := hr.exists_le hr'
    have hbind : ∀ best, readNext first = some best → (read text).bind readNext = some best := by
      intro best hbest
      rw [hfirst, Option.bind_some, hbest]
    rcases Nat.eq_or_lt_of_le hle with heq | hlt
    · obtain rfl := (hr.leaves hfirst).eq_of_length hr' heq
      obtain ⟨best, hbest, hle'⟩ := hs.exists_le hs'
      exact ⟨best, hbind best hbest, hle'⟩
    · -- The first reading goes past this match of `r`, so `s` was empty there and is again.
      obtain ⟨c, hc, hc'⟩ := hgoes hr' (hr.leaves hfirst) hlt
      obtain ⟨hstarts, hnullable⟩ := hyields c hc'
      obtain rfl := eq_of_not_starts hs' hc hstarts
      have hempty := leaves_of_isNullable (hnullable (mayBeEmpty_of_leaves hs')) first
      obtain ⟨best, hbest, hle'⟩ := hs.exists_le hempty
      exact ⟨best, hbind best hbest, Nat.le_trans hle' (Nat.le_of_lt hlt)⟩

private theorem either (hr : FindsLongest read r) (hs : FindsLongest readNext s)
    (hempty : r.mayBeEmpty = false) (hapart : ∀ c, r.Starts c → ¬ s.Starts c) :
    FindsLongest (fun text ↦ (read text).or (readNext text)) (either r s) where
  leaves hread := by
    rcases Option.or_eq_some_iff.1 hread with h | ⟨-, h⟩
    · exact leaves_either_iff.2 (.inl (hr.leaves h))
    · exact leaves_either_iff.2 (.inr (hs.leaves h))
  exists_le {text rest} h := by
    rcases leaves_either_iff.1 h with h | h
    · obtain ⟨best, hbest, hle⟩ := hr.exists_le h
      exact ⟨best, by rw [hbest, Option.some_or], hle⟩
    · cases hread : read text with
      | none =>
        obtain ⟨best, hbest, hle⟩ := hs.exists_le h
        exact ⟨best, by rw [Option.none_or, hbest], hle⟩
      | some left =>
        refine ⟨left, Option.some_or, ?_⟩
        have hleft := hr.leaves hread
        by_cases hlt : left.length < text.length
        · obtain ⟨c, hc, hstarts⟩ := starts_of_leaves hleft hlt
          rw [eq_of_not_starts h hc (hapart c hstarts)]
          exact Nat.le_of_lt hlt
        · obtain rfl := hleft.eq_of_length_le (Nat.le_of_not_lt hlt)
          rw [mayBeEmpty_of_leaves hleft] at hempty
          cases hempty

private theorem many (hr : FindsLongest read r) (hgoes : r.GoesOnWith r.GoesOn)
    (hempty : r.mayBeEmpty = false) (hapart : ∀ c, r.GoesOn c → ¬ r.Starts c) :
    FindsLongest (fun text ↦ some (repeated read text)) (many r) where
  leaves {text rest} hread := by
    obtain rfl := Option.some.inj hread
    clear hread
    fun_induction repeated read text with
    | case1 text mid hmid hlt ih => exact leaves_many_iff.2 (.inr ⟨mid, hlt, hr.leaves hmid, ih⟩)
    | case2 => exact leaves_many_iff.2 (.inl rfl)
    | case3 => exact leaves_many_iff.2 (.inl rfl)
  exists_le {text rest} h := by
    refine ⟨repeated read text, rfl, ?_⟩
    fun_induction repeated read text generalizing rest with
    | case1 text first hfirst hlt ih =>
      rcases leaves_many_iff.1 h with rfl | ⟨mid, -, hr', hs'⟩
      · exact Nat.le_trans (ih (leaves_many_iff.2 (.inl rfl))) (Nat.le_of_lt hlt)
      · obtain ⟨best, hbest, hle⟩ := hr.exists_le hr'
        obtain rfl := Option.some.inj (hfirst.symm.trans hbest)
        rcases Nat.eq_or_lt_of_le hle with heq | hlt'
        · obtain rfl := (hr.leaves hfirst).eq_of_length hr' heq
          exact ih hs'
        · obtain ⟨c, hc, hc'⟩ := hgoes hr' (hr.leaves hfirst) hlt'
          obtain rfl := eq_of_not_starts (r := .many r) hs' hc (hapart c hc')
          exact Nat.le_trans (ih (leaves_many_iff.2 (.inl rfl))) hle
    | case2 text first hfirst hlt =>
      obtain rfl := (hr.leaves hfirst).eq_of_length_le (Nat.le_of_not_lt hlt)
      rw [mayBeEmpty_of_leaves (hr.leaves hfirst)] at hempty
      cases hempty
    | case3 text hnone =>
      rcases leaves_many_iff.1 h with rfl | ⟨mid, -, hr', -⟩
      · exact Nat.le_refl _
      · obtain ⟨best, hbest, -⟩ := hr.exists_le hr'
        rw [hnone] at hbest
        cases hbest

end FindsLongest

/-- Reading an expression whose parts the next character tells apart finds its longest match. -/
theorem findsLongest_scan (h : r.IsGreedy) : FindsLongest r.scan r := by
  induction r with
  | never =>
    constructor
    · intro text rest hread
      cases hread
    · intro text rest hleaves
      exact absurd hleaves not_leaves_never
  | nothing =>
    constructor
    · intro text rest hread
      exact leaves_nothing_iff.2 (Option.some.inj hread).symm
    · intro text rest hleaves
      exact ⟨text, rfl, Nat.le_of_eq (congrArg List.length (leaves_nothing_iff.1 hleaves).symm)⟩
  | wordEnd =>
    have hcond : ∀ text : List Char, (text.head?.all fun c ↦ !isWordChar c) = true ↔
        ∀ c ∈ text.head?, isWordChar c = false := by
      intro text
      simp [Option.all_eq_true]
    constructor
    · intro text rest hread
      rw [scan, Option.ite_none_right_eq_some] at hread
      exact leaves_wordEnd_iff.2 ⟨(Option.some.inj hread.2).symm, (hcond text).1 hread.1⟩
    · intro text rest hleaves
      obtain ⟨rfl, hend⟩ := leaves_wordEnd_iff.1 hleaves
      exact ⟨rest, by rw [scan, if_pos ((hcond rest).2 hend)], Nat.le_refl _⟩
  | char accepts =>
    constructor
    · intro text rest hread
      cases text with
      | nil => cases hread
      | cons c cs =>
        rw [scan, Option.ite_none_right_eq_some] at hread
        obtain ⟨hc, rfl⟩ := And.imp_right Option.some.inj hread
        exact leaves_char_iff.2 ⟨c, hc, rfl⟩
    · intro text rest hleaves
      obtain ⟨c, hc, rfl⟩ := leaves_char_iff.1 hleaves
      exact ⟨rest, by rw [scan, if_pos hc], Nat.le_refl _⟩
  | seq r s ihr ihs =>
    obtain ⟨hr, hs, hyields⟩ := h
    have h := (ihr hr).seq (ihs hs) (goesOnWith_of_isGreedy hr) hyields
    exact h
  | either r s ihr ihs =>
    obtain ⟨hr, hs, hempty, hapart⟩ := h
    exact (ihr hr).either (ihs hs) hempty hapart
  | many r ih =>
    obtain ⟨hr, hempty, hapart⟩ := h
    exact (ih hr).many (goesOnWith_of_isGreedy hr) hempty hapart

end BlockDiagram.Regex
