import BlockDiagram.Proofs.Lexer.Longest

/-!
# Where tokens come from

Every token in front of the end of a source is a match of a rule for its kind (`origin_of_next`),
and starts behind the start of the one before it (`pairwise_start_of_tokens`).
-/

namespace BlockDiagram.Lexer

open Token (Kind)

/-- Holds for tokens at the end of a source, and for those that a rule for their kind matches. -/
def HasOrigin (t : Token) : Prop :=
  t.kind = .endOfInput ∨ ∃ (mode : Mode) (rule : Rule) (after : List Char), rule ∈ mode.rules ∧
    rule.kind = some t.kind ∧ rule.pattern.Matches t.text.toList after

namespace State

/-- A token is a match of a rule for its kind, unless the source is at its end. -/
theorem origin_of_next {s s' : State} {t : Token} (h : s.next = .ok (t, s')) : HasOrigin t := by
  fun_induction next s with
  | case1 s hrest =>
    obtain ⟨rfl, -⟩ := Prod.mk.inj (Except.ok.inj h)
    exact .inl rfl
  | case2 => cases h
  | case3 s c cs hrest piece hcut hnone ih => exact ih h
  | case4 s c cs hrest piece hcut kind hkind =>
    obtain ⟨rfl, -⟩ := Prod.mk.inj (Except.ok.inj h)
    have hcuts := cut_eq_some_iff.1 hcut
    refine .inr ⟨s.modes.current, piece.rule, piece.after.rest, hcuts.mem_rules, hkind, ?_⟩
    rw [String.toList_ofList]
    exact hcuts.pattern_matches

/-- The tokens are the next one and those behind it. -/
theorem tokens_eq_of_next {s s' : State} {t : Token} (h : s.next = .ok (t, s')) :
    s.tokens = if t.kind = .endOfInput then .ok [t] else s'.tokens.map (t :: ·) := by
  rw [tokens_eq, h]

/-- The tokens of a source are those of its first step and of what is left behind it. -/
theorem tokens_cases {s : State} {ts : List Token} (h : s.tokens = .ok ts) :
    ∃ t s', s.next = .ok (t, s') ∧
      ((t.kind = .endOfInput ∧ ts = [t]) ∨
        (t.kind ≠ .endOfInput ∧ ∃ rest, s'.tokens = .ok rest ∧ ts = t :: rest)) := by
  cases hnext : s.next with
  | error unmatched =>
    rw [tokens] at h
    split at h
    · cases h
    · next heq =>
      rw [hnext] at heq
      cases heq
  | ok result =>
    obtain ⟨t, s'⟩ := result
    refine ⟨t, s', rfl, ?_⟩
    rw [tokens_eq_of_next hnext] at h
    split at h
    · next hkind =>
      cases h
      exact .inl ⟨hkind, rfl⟩
    · next hkind =>
      cases htokens : s'.tokens with
      | error unmatched =>
        rw [htokens] at h
        cases h
      | ok rest =>
        rw [htokens] at h
        cases h
        exact .inr ⟨hkind, rest, rfl, rfl⟩

/-- All tokens of a source come from its rules. -/
theorem origin_of_mem_tokens {s : State} {ts : List Token} (h : s.tokens = .ok ts) :
    ∀ t ∈ ts, HasOrigin t := by
  induction ts generalizing s with
  | nil =>
    intro t ht
    cases ht
  | cons first ts ih =>
    obtain ⟨t, s', hnext, ⟨-, hts⟩ | ⟨-, rest, hrest, hts⟩⟩ := tokens_cases h
    · obtain ⟨rfl, rfl⟩ := List.cons.inj hts
      exact List.forall_mem_singleton.2 (origin_of_next hnext)
    · obtain ⟨rfl, rfl⟩ := List.cons.inj hts
      exact List.forall_mem_cons.2 ⟨origin_of_next hnext, ih hrest⟩

/-! ### Order -/

/-- Cutting a piece from a text that is not empty moves on. -/
theorem offset_lt_of_cut {s : State} {piece : Piece} (hs : s.rest ≠ []) (h : s.cut = some piece) :
    s.offset < piece.after.offset := by
  obtain ⟨⟨rule, length⟩, hbest, rfl⟩ := Option.map_eq_some_iff.1 h
  obtain ⟨c, cs, hrest⟩ := List.exists_cons_of_ne_nil hs
  obtain ⟨n, rfl⟩ := Nat.exists_eq_succ_of_ne_zero (Nat.ne_of_gt (bestRule_pos hbest))
  have := c.utf8Size_pos
  simp only [hrest, List.take_succ_cons, byteLength, List.foldr_cons]
  omega

/-- A token starts in front of the state behind it, unless the source is at its end. -/
theorem start_of_next {s s' : State} {t : Token} (h : s.next = .ok (t, s')) :
    s.offset ≤ t.span.start ∧ (t.kind ≠ .endOfInput → t.span.start < s'.offset) := by
  fun_induction next s with
  | case1 s hrest =>
    obtain ⟨rfl, rfl⟩ := Prod.mk.inj (Except.ok.inj h)
    exact ⟨Nat.le_refl _, fun hkind ↦ absurd rfl hkind⟩
  | case2 => cases h
  | case3 s c cs hrest piece hcut hnone ih =>
    have := offset_lt_of_cut (by simp [hrest]) hcut
    obtain ⟨hstart, hstop⟩ := ih h
    exact ⟨by omega, hstop⟩
  | case4 s c cs hrest piece hcut kind hkind =>
    obtain ⟨rfl, rfl⟩ := Prod.mk.inj (Except.ok.inj h)
    exact ⟨Nat.le_refl _, fun _ ↦ offset_lt_of_cut (by simp [hrest]) hcut⟩

/-- The tokens of a source start one behind the other. -/
theorem pairwise_start_of_tokens {s : State} {ts : List Token} (h : s.tokens = .ok ts) :
    (∀ t ∈ ts, s.offset ≤ t.span.start) ∧
      ts.Pairwise fun t t' ↦ t.span.start < t'.span.start := by
  induction ts generalizing s with
  | nil => exact ⟨List.forall_mem_nil _, .nil⟩
  | cons first ts ih =>
    obtain ⟨t, s', hnext, ⟨-, hts⟩ | ⟨hkind, rest, hrest, hts⟩⟩ := tokens_cases h
    · obtain ⟨rfl, rfl⟩ := List.cons.inj hts
      exact ⟨List.forall_mem_singleton.2 (start_of_next hnext).1, List.pairwise_singleton _ _⟩
    · obtain ⟨rfl, rfl⟩ := List.cons.inj hts
      obtain ⟨hstart, hlt⟩ := start_of_next hnext
      obtain ⟨hbehind, hpairs⟩ := ih hrest
      have hfirst : ∀ t' ∈ ts, first.span.start < t'.span.start := fun t' ht' ↦
        Nat.lt_of_lt_of_le (hlt hkind) (hbehind t' ht')
      exact ⟨List.forall_mem_cons.2 ⟨hstart, fun t' ht' ↦
        Nat.le_trans hstart (Nat.le_of_lt (hfirst t' ht'))⟩, .cons hfirst hpairs⟩

end State

end BlockDiagram.Lexer
