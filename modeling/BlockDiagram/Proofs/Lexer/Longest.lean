import BlockDiagram.Parser
import BlockDiagram.Proofs.Lexer.Rules

/-!
# Longest matches

The lexer cuts the longest match of the patterns of its mode, by the first rule that has it
(`cut_eq_some_iff`), and fails exactly where no pattern matches anything (`next_eq_error_iff`). The
same is then said of a whole source (`tokens_eq_ok_iff`, `tokens_eq_error_iff`).
-/

namespace BlockDiagram.Lexer

open Regex
open Token (Kind)
open Source (Span)

variable {rules : List Rule} {text : List Char}

/-! ### The best rule -/

namespace Rule

variable {rule : Rule}

/-- What a rule takes is a match of its pattern. -/
theorem TakesLongest.matches_take (h : rule.TakesLongest) (hpos : 0 < rule.length text) :
    rule.length text ≤ text.length ∧
      rule.pattern.Matches (text.take (rule.length text)) (text.drop (rule.length text)) := by
  rw [length] at hpos ⊢
  cases hread : rule.read text with
  | none =>
    rw [hread] at hpos
    exact absurd hpos (Nat.lt_irrefl 0)
  | some rest =>
    obtain ⟨front, rfl, hmatches⟩ := h.leaves hread
    have hlength : (front ++ rest).length - rest.length = front.length := by simp
    rw [Option.elim_some, hlength, List.take_left, List.drop_left]
    exact ⟨by simp, hmatches⟩

/-- No match of the pattern is longer than what a rule takes. -/
theorem TakesLongest.length_le (h : rule.TakesLongest) {front back : List Char}
    (htext : front ++ back = text) (hmatches : rule.pattern.Matches front back) :
    front.length ≤ rule.length text := by
  obtain ⟨best, hbest, hle⟩ := h.exists_le ⟨front, htext.symm, hmatches⟩
  rw [length, hbest, Option.elim_some, ← htext, List.length_append]
  omega

end Rule

/-- Holds for the outcome of looking for the rule that takes most of a text. -/
private def IsBest (text : List Char) (rules : List Rule) : Option (Rule × Nat) → Prop
  | none => ∀ rule ∈ rules, rule.length text = 0
  | some (best, length) =>
    0 < length ∧ length = best.length text ∧ (∀ rule ∈ rules, rule.length text ≤ length) ∧
      ∃ earlier later, rules = earlier ++ best :: later ∧ ∀ rule ∈ earlier, rule.length text < length

private theorem isBest_better {best : Option (Rule × Nat)} (h : IsBest text rules best)
    (rule : Rule) : IsBest text (rules ++ [rule]) (better text best rule) := by
  cases best with
  | none =>
    rw [better]
    split
    · next hlt =>
      refine ⟨hlt, rfl, ?_, rules, [], rfl, fun earlier hearlier ↦ ?_⟩
      · rw [List.forall_mem_append, List.forall_mem_singleton]
        exact ⟨fun other hother ↦ Nat.le_trans (Nat.le_of_eq (h other hother)) (Nat.zero_le _),
          Nat.le_refl _⟩
      · rw [h earlier hearlier]
        exact hlt
    · next hle =>
      refine List.forall_mem_append.2 ⟨h, List.forall_mem_singleton.2 ?_⟩
      exact Nat.eq_zero_of_not_pos hle
  | some best =>
    obtain ⟨best, length⟩ := best
    obtain ⟨hpos, hlength, hmax, earlier, later, rfl, hearlier⟩ := h
    rw [better]
    split
    · next hlt =>
      refine ⟨Nat.lt_trans hpos hlt, rfl, ?_, _, [], rfl, fun other hother ↦ ?_⟩
      · rw [List.forall_mem_append, List.forall_mem_singleton]
        exact ⟨fun other hother ↦ Nat.le_trans (hmax other hother) (Nat.le_of_lt hlt),
          Nat.le_refl _⟩
      · exact Nat.lt_of_le_of_lt (hmax other hother) hlt
    · next hle =>
      refine ⟨hpos, hlength, ?_, earlier, later ++ [rule], ?_, hearlier⟩
      · rw [List.forall_mem_append, List.forall_mem_singleton]
        exact ⟨hmax, Nat.le_of_not_lt hle⟩
      · rw [List.append_assoc, List.cons_append]

private theorem isBest_foldl {best : Option (Rule × Nat)} (h : IsBest text rules best)
    (more : List Rule) : IsBest text (rules ++ more) (more.foldl (better text) best) := by
  induction more generalizing rules best with
  | nil => rwa [List.append_nil]
  | cons rule more ih =>
    rw [List.append_cons, List.foldl_cons]
    exact ih (isBest_better h rule)

private theorem isBest_bestRule (rules : List Rule) (text : List Char) :
    IsBest text rules (bestRule rules text) := by
  have hnone : IsBest text [] none := fun _ h ↦ absurd h List.not_mem_nil
  exact isBest_foldl hnone rules

/-! ### Cutting -/

namespace State

/-- Holds where no rule of the mode matches anything. -/
def NothingMatches (s : State) : Prop :=
  ∀ rule ∈ s.modes.current.rules, ∀ front back, front ++ back = s.rest → front ≠ [] →
    ¬ rule.pattern.Matches front back

/-- Holds for the piece that is to be cut next. -/
structure Cuts (s : State) (piece : Piece) : Prop where
  text_append : piece.text ++ piece.after.rest = s.rest
  text_ne_nil : piece.text ≠ []
  pattern_matches : piece.rule.pattern.Matches piece.text piece.after.rest
  /-- No rule of the mode has a longer match. -/
  longest : ∀ rule ∈ s.modes.current.rules, ∀ front back, front ++ back = s.rest →
    rule.pattern.Matches front back → front.length ≤ piece.text.length
  /-- No rule in front of the one that applies matches the same text. -/
  first : ∃ earlier later, s.modes.current.rules = earlier ++ piece.rule :: later ∧
    ∀ rule ∈ earlier, ¬ rule.pattern.Matches piece.text piece.after.rest
  offset : piece.after.offset = s.offset + byteLength piece.text
  modes : piece.after.modes = s.modes.apply piece.rule.effect

variable {s s' : State} {piece piece' : Piece}

private theorem eq_of_first {α : Type} {p : α → Prop} {a b : α}
    {earlier later earlier' later' : List α}
    (heq : earlier ++ a :: later = earlier' ++ b :: later') (ha : p a) (hb : p b)
    (hearlier : ∀ x ∈ earlier, ¬ p x) (hearlier' : ∀ x ∈ earlier', ¬ p x) : a = b := by
  rcases List.append_eq_append_iff.1 heq with ⟨more, rfl, hmore⟩ | ⟨more, rfl, hmore⟩
  · cases more with
    | nil => exact (List.cons.inj hmore).1
    | cons c more =>
      rw [(List.cons.inj hmore).1] at ha
      exact absurd ha (hearlier' c (List.mem_append_right _ List.mem_cons_self))
  · cases more with
    | nil => exact (List.cons.inj hmore).1.symm
    | cons c more =>
      rw [(List.cons.inj hmore).1] at hb
      exact absurd hb (hearlier c (List.mem_append_right _ List.mem_cons_self))

/-- A piece is cut by a rule of the mode. -/
theorem Cuts.mem_rules (h : s.Cuts piece) : piece.rule ∈ s.modes.current.rules := by
  obtain ⟨earlier, later, hrules, -⟩ := h.first
  rw [hrules]
  exact List.mem_append_right _ List.mem_cons_self

/-- There is only one piece to cut next. -/
theorem Cuts.unique (h : s.Cuts piece) (h' : s.Cuts piece') : piece = piece' := by
  have hlength : piece.text.length = piece'.text.length :=
    Nat.le_antisymm (h'.longest _ h.mem_rules _ _ h.text_append h.pattern_matches)
      (h.longest _ h'.mem_rules _ _ h'.text_append h'.pattern_matches)
  obtain ⟨htext, hrest⟩ := List.append_inj (h.text_append.trans h'.text_append.symm) hlength
  have hrule : piece.rule = piece'.rule := by
    obtain ⟨earlier, later, hrules, hearlier⟩ := h.first
    obtain ⟨earlier', later', hrules', hearlier'⟩ := h'.first
    refine eq_of_first (p := fun rule ↦ rule.pattern.Matches piece.text piece.after.rest)
      (hrules.symm.trans hrules') h.pattern_matches ?_ hearlier ?_
    · rw [htext, hrest]
      exact h'.pattern_matches
    · rw [htext, hrest]
      exact hearlier'
  have hoffset : piece.after.offset = piece'.after.offset := by
    rw [h.offset, h'.offset, htext]
  have hmodes : piece.after.modes = piece'.after.modes := by
    rw [h.modes, h'.modes, hrule]
  obtain ⟨rule, text, ⟨rest, offset, modes⟩⟩ := piece
  obtain ⟨rule', text', ⟨rest', offset', modes'⟩⟩ := piece'
  cases hrule
  cases htext
  cases hrest
  cases hoffset
  cases hmodes
  rfl

private theorem cuts_of_cut (h : s.cut = some piece) : s.Cuts piece := by
  have hbest := isBest_bestRule s.modes.current.rules s.rest
  have htakes := takesLongest_of_mem_rules s.modes.current
  obtain ⟨⟨rule, length⟩, heq, rfl⟩ := Option.map_eq_some_iff.1 h
  rw [heq] at hbest
  obtain ⟨hpos, rfl, hmax, earlier, later, hrules, hearlier⟩ := hbest
  have hmem : rule ∈ s.modes.current.rules := by
    rw [hrules]
    exact List.mem_append_right _ List.mem_cons_self
  obtain ⟨hle, hmatches⟩ := (htakes rule hmem).matches_take hpos
  have hlength : (s.rest.take (rule.length s.rest)).length = rule.length s.rest :=
    List.length_take_of_le hle
  refine ⟨List.take_append_drop _ _, ?_, hmatches, ?_, ⟨earlier, later, hrules, ?_⟩, rfl, rfl⟩
  · exact List.ne_nil_of_length_pos (Nat.lt_of_lt_of_eq hpos hlength.symm)
  · intro other hother front back hrest hother'
    have hfront := (htakes other hother).length_le hrest hother'
    exact Nat.le_trans hfront (Nat.le_trans (hmax other hother) (Nat.le_of_eq hlength.symm))
  · intro other hother hother'
    have hmem' : other ∈ s.modes.current.rules := by
      rw [hrules]
      exact List.mem_append_left _ hother
    have hfront := (htakes other hmem').length_le (List.take_append_drop _ _) hother'
    have hshorter := hearlier other hother
    omega

private theorem nothingMatches_of_cut (h : s.cut = none) : s.NothingMatches := by
  have hbest := isBest_bestRule s.modes.current.rules s.rest
  rw [Option.map_eq_none_iff.1 h] at hbest
  intro rule hrule front back hrest hne hmatches
  have hle := (takesLongest_of_mem_rules _ rule hrule).length_le hrest hmatches
  rw [hbest rule hrule, Nat.le_zero, List.length_eq_zero_iff] at hle
  exact hne hle

private theorem NothingMatches.not_cuts (h : s.NothingMatches) : ¬ s.Cuts piece := fun hcuts ↦
  h piece.rule hcuts.mem_rules _ _ hcuts.text_append hcuts.text_ne_nil hcuts.pattern_matches

/-- What is cut is the longest match of a pattern of the mode, by the first rule that has it. -/
theorem cut_eq_some_iff : s.cut = some piece ↔ s.Cuts piece := by
  constructor
  · exact cuts_of_cut
  · intro h
    cases hcut : s.cut with
    | none => exact absurd h (nothingMatches_of_cut hcut).not_cuts
    | some piece' => rw [h.unique (cuts_of_cut hcut)]

/-- No piece is cut exactly if no rule of the mode matches. -/
theorem cut_eq_none_iff : s.cut = none ↔ s.NothingMatches := by
  constructor
  · exact nothingMatches_of_cut
  · intro h
    cases hcut : s.cut with
    | none => rfl
    | some piece => exact absurd (cuts_of_cut hcut) h.not_cuts

/-! ### Tokens -/

/-- The token for a piece with a kind. -/
def tokenFor (s : State) (piece : Piece) (kind : Kind) : Token :=
  ⟨kind, String.ofList piece.text, Span.between s.offset piece.after.offset⟩

/-- The token at the end of a source. -/
def endToken (s : State) : Token :=
  ⟨.endOfInput, "", Span.emptyAt s.offset⟩

/-- Holds where the pieces from one state up to another one make up the given tokens. -/
inductive Reads : State → List Token → State → Prop where
  | done {s : State} : Reads s [] s
  | skip {s s' : State} {piece : Piece} {ts : List Token} (hcuts : s.Cuts piece)
      (hkind : piece.rule.kind = none) (hreads : Reads piece.after ts s') : Reads s ts s'
  | token {s s' : State} {piece : Piece} {kind : Kind} {ts : List Token} (hcuts : s.Cuts piece)
      (hkind : piece.rule.kind = some kind) (hreads : Reads piece.after ts s') :
      Reads s (s.tokenFor piece kind :: ts) s'

private theorem next_of_nil (h : s.rest = []) : s.next = .ok (s.endToken, s) := by
  rw [next]
  split
  · rfl
  · next heq =>
    rw [h] at heq
    cases heq

private theorem next_of_stuck {c : Char} {cs : List Char} (hrest : s.rest = c :: cs)
    (h : s.NothingMatches) : s.next = .error ⟨c, s.offset⟩ := by
  rw [next]
  split
  · next heq =>
    rw [hrest] at heq
    cases heq
  · next heq =>
    obtain ⟨rfl, -⟩ := List.cons.inj (hrest.symm.trans heq)
    split
    · rfl
    · next hcut =>
      rw [cut_eq_none_iff.2 h] at hcut
      cases hcut

private theorem next_of_cuts (h : s.Cuts piece) :
    s.next = piece.rule.kind.elim piece.after.next fun kind ↦
      .ok (s.tokenFor piece kind, piece.after) := by
  rw [next]
  split
  · next heq =>
    have htext := h.text_append
    rw [heq, List.append_eq_nil_iff] at htext
    exact absurd htext.1 h.text_ne_nil
  · split
    · next hcut =>
      rw [cut_eq_some_iff.2 h] at hcut
      cases hcut
    · next piece' hcut =>
      obtain rfl := h.unique (cut_eq_some_iff.1 hcut)
      split
      · next hkind => rw [hkind, Option.elim_none]
      · next kind hkind => rw [hkind, Option.elim_some, tokenFor]

private theorem next_of_skip (h : s.Cuts piece) (hkind : piece.rule.kind = none) :
    s.next = piece.after.next := by
  rw [next_of_cuts h, hkind, Option.elim_none]

private theorem next_of_token (h : s.Cuts piece) {kind : Kind}
    (hkind : piece.rule.kind = some kind) : s.next = .ok (s.tokenFor piece kind, piece.after) := by
  rw [next_of_cuts h, hkind, Option.elim_some]

/-- Skipped pieces make no difference to the next token. -/
theorem Reads.next_eq (h : Reads s [] s') : s.next = s'.next := by
  generalize hts : ([] : List Token) = ts at h
  induction h with
  | done => rfl
  | skip hcuts hkind hreads ih => exact (next_of_skip hcuts hkind).trans (ih hts)
  | token => cases hts

/-- The next token is that of the first piece with a kind, or there is none up to the end. -/
theorem next_eq_ok_iff {t : Token} {s'' : State} :
    s.next = .ok (t, s'') ↔ ∃ s', Reads s [] s' ∧
      ((s'.rest = [] ∧ t = s'.endToken ∧ s'' = s') ∨
        ∃ piece kind, s'.Cuts piece ∧ piece.rule.kind = some kind ∧
          t = s'.tokenFor piece kind ∧ s'' = piece.after) := by
  constructor
  · intro h
    fun_induction next s with
    | case1 s hrest =>
      cases h
      exact ⟨_, .done, .inl ⟨hrest, rfl, rfl⟩⟩
    | case2 => cases h
    | case3 s c cs hrest piece hcut hnone ih =>
      obtain ⟨s', hreads, hnext⟩ := ih h
      exact ⟨s', .skip (cut_eq_some_iff.1 hcut) hnone hreads, hnext⟩
    | case4 s c cs hrest piece hcut kind hkind =>
      cases h
      exact ⟨s, .done, .inr ⟨piece, kind, cut_eq_some_iff.1 hcut, hkind, rfl, rfl⟩⟩
  · rintro ⟨s', hreads, ⟨hrest, rfl, rfl⟩ | ⟨piece, kind, hcuts, hkind, rfl, rfl⟩⟩
    · rw [hreads.next_eq, next_of_nil hrest]
    · rw [hreads.next_eq, next_of_token hcuts hkind]

/-- There is no next token exactly where no rule matches anything behind the skipped pieces. -/
theorem next_eq_error_iff {u : Unmatched} :
    s.next = .error u ↔ ∃ s' cs, Reads s [] s' ∧ s'.NothingMatches ∧ s'.rest = u.char :: cs ∧
      u.offset = s'.offset := by
  constructor
  · intro h
    fun_induction next s with
    | case1 => cases h
    | case2 s c cs hrest hcut =>
      cases h
      exact ⟨s, cs, .done, cut_eq_none_iff.1 hcut, hrest, rfl⟩
    | case3 s c cs hrest piece hcut hnone ih =>
      obtain ⟨s', cs', hreads, hnext⟩ := ih h
      exact ⟨s', cs', .skip (cut_eq_some_iff.1 hcut) hnone hreads, hnext⟩
    | case4 => cases h
  · rintro ⟨s', cs, hreads, hnothing, hrest, hoffset⟩
    rw [hreads.next_eq, next_of_stuck hrest hnothing, ← hoffset]

/-! ### Whole sources -/

/-- No rule is for the end of a source. -/
theorem kind_ne_endOfInput (mode : Mode) : ∀ rule ∈ mode.rules, rule.kind ≠ some .endOfInput := by
  cases mode <;> decide

/-- No rule makes the token for the end of the input. -/
theorem Cuts.kind_ne_endOfInput (h : s.Cuts piece) {kind : Kind}
    (hkind : piece.rule.kind = some kind) : kind ≠ .endOfInput := by
  rintro rfl
  exact State.kind_ne_endOfInput _ _ h.mem_rules hkind

/-- Tokens may be read in two turns. -/
theorem Reads.trans {s'' : State} {ts ts' : List Token} (h : Reads s ts s')
    (h' : Reads s' ts' s'') : Reads s (ts ++ ts') s'' := by
  induction h with
  | done => exact h'
  | skip hcuts hkind _ ih => exact .skip hcuts hkind (ih h')
  | token hcuts hkind _ ih => exact .token hcuts hkind (ih h')

/-- The tokens of a source are the next one and, up to the end of the input, those behind it. -/
theorem tokens_eq (s : State) :
    s.tokens = match s.next with
      | .error unmatched => .error unmatched
      | .ok (t, s') => if t.kind = .endOfInput then .ok [t] else s'.tokens.map (t :: ·) := by
  rw [tokens]
  split
  · next heq => rw [heq]
  · next heq => rw [heq]; rfl

/-- Behind pieces that have been read come the tokens of what is left. -/
theorem Reads.tokens_eq {ts : List Token} (h : Reads s ts s') :
    s.tokens = s'.tokens.map (ts ++ ·) := by
  induction h with
  | done =>
    rename_i s
    cases s.tokens <;> rfl
  | skip hcuts hkind hreads ih =>
    rw [← ih, State.tokens_eq, State.tokens_eq, next_of_skip hcuts hkind]
  | @token s s' piece kind ts hcuts hkind hreads ih =>
    have hend : (s.tokenFor piece kind).kind ≠ .endOfInput := hcuts.kind_ne_endOfInput hkind
    rw [State.tokens_eq, next_of_token hcuts hkind]
    dsimp only
    rw [if_neg hend, ih]
    cases s'.tokens <;> rfl

/-- Reading ends at the end of a source or where no rule matches anything. -/
theorem exists_reads (s : State) :
    ∃ ts s', Reads s ts s' ∧ (s'.rest = [] ∨ s'.rest ≠ [] ∧ s'.NothingMatches) := by
  -- A piece may be skipped, so the induction is on what is left and not on the tokens.
  induction hn : s.rest.length using Nat.strongRecOn generalizing s with
  | ind n ih =>
    subst hn
    by_cases hrest : s.rest = []
    · exact ⟨[], s, .done, .inl hrest⟩
    cases hcut : s.cut with
    | none => exact ⟨[], s, .done, .inr ⟨hrest, cut_eq_none_iff.1 hcut⟩⟩
    | some piece =>
      obtain ⟨ts, s', hreads, hend⟩ := ih _ (cut_length_lt hrest hcut) piece.after rfl
      have hcuts := cut_eq_some_iff.1 hcut
      cases hkind : piece.rule.kind with
      | none => exact ⟨ts, s', .skip hcuts hkind hreads, hend⟩
      | some kind => exact ⟨_, s', .token hcuts hkind hreads, hend⟩

private theorem tokens_of_nil (h : s.rest = []) : s.tokens = .ok [s.endToken] := by
  rw [tokens_eq, next_of_nil h]
  rfl

private theorem tokens_of_stuck {c : Char} {cs : List Char} (hrest : s.rest = c :: cs)
    (h : s.NothingMatches) : s.tokens = .error ⟨c, s.offset⟩ := by
  rw [tokens_eq, next_of_stuck hrest h]

/-- Reading a source ends with it, or in front of a character where no rule matches. -/
theorem tokens_outcome (s : State) :
    (∃ front s', Reads s front s' ∧ s'.rest = [] ∧ s.tokens = .ok (front ++ [s'.endToken])) ∨
      ∃ front s' c cs, Reads s front s' ∧ s'.NothingMatches ∧ s'.rest = c :: cs ∧
        s.tokens = .error ⟨c, s'.offset⟩ := by
  obtain ⟨front, s', hreads, hrest | ⟨hrest, hnothing⟩⟩ := exists_reads s
  · refine .inl ⟨front, s', hreads, hrest, ?_⟩
    rw [hreads.tokens_eq, tokens_of_nil hrest]
    rfl
  · obtain ⟨c, cs, hrest⟩ := List.exists_cons_of_ne_nil hrest
    refine .inr ⟨front, s', c, cs, hreads, hnothing, hrest, ?_⟩
    rw [hreads.tokens_eq, tokens_of_stuck hrest hnothing]
    rfl

/-- The tokens of a source are those of the pieces that make it up. -/
theorem tokens_eq_ok_iff {ts : List Token} :
    s.tokens = .ok ts ↔ ∃ front s', Reads s front s' ∧ s'.rest = [] ∧
      ts = front ++ [s'.endToken] := by
  constructor
  · intro h
    obtain ⟨front, s', hreads, hrest, htokens⟩ | ⟨front, s', c, cs, -, -, -, htokens⟩ :=
      tokens_outcome s
    · exact ⟨front, s', hreads, hrest, Except.ok.inj (h.symm.trans htokens)⟩
    · cases h.symm.trans htokens
  · rintro ⟨front, s', hreads, hrest, rfl⟩
    rw [hreads.tokens_eq, tokens_of_nil hrest]
    rfl

/-- A source has no tokens exactly where reading it ends too early. -/
theorem tokens_eq_error_iff {u : Unmatched} :
    s.tokens = .error u ↔ ∃ front s' cs, Reads s front s' ∧ s'.NothingMatches ∧
      s'.rest = u.char :: cs ∧ u.offset = s'.offset := by
  constructor
  · intro h
    obtain ⟨front, s', -, -, htokens⟩ | ⟨front, s', c, cs, hreads, hnothing, hrest, htokens⟩ :=
      tokens_outcome s
    · cases h.symm.trans htokens
    · obtain rfl := Except.error.inj (h.symm.trans htokens)
      exact ⟨front, s', cs, hreads, hnothing, hrest, rfl⟩
  · rintro ⟨front, s', cs, hreads, hnothing, hrest, hoffset⟩
    rw [hreads.tokens_eq, tokens_of_stuck hrest hnothing, ← hoffset]
    rfl

end State

end BlockDiagram.Lexer

namespace BlockDiagram.Parser

open Lexer

/-- The parser gets the next token of the lexer. -/
theorem lexed_eq_ok_iff {s : State} {next : Token × State} :
    lexed s = .ok next ↔ s.next = .ok next := by
  rw [lexed]
  split
  · next heq => simp [heq]
  · next heq => simp [heq]

/-- The parser fails for a token exactly if the lexer does. -/
theorem lexed_eq_error_iff {s : State} {fault : Fault} :
    lexed s = .error fault ↔ ∃ u, s.next = .error u ∧ fault = .unmatched u := by
  rw [lexed]
  split
  · next heq => simp [heq]
  · next heq => simp [heq, eq_comm]

/-- From every state on, the lexer cuts the longest match of a pattern of its mode, by the first rule
that has it, and faults exactly where no pattern matches anything. It can do so because every rule
takes the longest match of its own pattern. -/
theorem lexed_longest (s : State) :
    (∀ piece, s.cut = some piece ↔ s.Cuts piece) ∧
      (s.cut = none ↔ s.NothingMatches) ∧
      (∀ t s'', lexed s = .ok (t, s'') ↔ ∃ s', s.Reads [] s' ∧
        ((s'.rest = [] ∧ t = s'.endToken ∧ s'' = s') ∨
          ∃ piece kind, s'.Cuts piece ∧ piece.rule.kind = some kind ∧
            t = s'.tokenFor piece kind ∧ s'' = piece.after)) ∧
      (∀ fault, lexed s = .error fault ↔ ∃ s' c cs, s.Reads [] s' ∧ s'.NothingMatches ∧
        s'.rest = c :: cs ∧ fault = .unmatched ⟨c, s'.offset⟩) ∧
      (∀ fault, lexed s = .error fault → fault.code = .unexpectedInput) ∧
      ∀ mode : Mode, ∀ rule ∈ mode.rules, rule.TakesLongest := by
  refine ⟨fun piece ↦ State.cut_eq_some_iff, State.cut_eq_none_iff, fun t s'' ↦ ?_,
    fun fault ↦ ⟨fun h ↦ ?_, ?_⟩, fun fault h ↦ ?_, takesLongest_of_mem_rules⟩
  · rw [lexed_eq_ok_iff, State.next_eq_ok_iff]
  · obtain ⟨u, hnext, rfl⟩ := lexed_eq_error_iff.1 h
    obtain ⟨s', cs, hreads, hnothing, hrest, hoffset⟩ := State.next_eq_error_iff.1 hnext
    exact ⟨s', u.char, cs, hreads, hnothing, hrest, by rw [← hoffset]⟩
  · rintro ⟨s', c, cs, hreads, hnothing, hrest, rfl⟩
    exact lexed_eq_error_iff.2
      ⟨⟨c, s'.offset⟩, State.next_eq_error_iff.2 ⟨s', cs, hreads, hnothing, hrest, rfl⟩, rfl⟩
  · obtain ⟨u, -, rfl⟩ := lexed_eq_error_iff.1 h
    rfl

end BlockDiagram.Parser
