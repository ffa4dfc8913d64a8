import BlockDiagram.Proofs.Lexer.Pieces

/-!
# Open texts

What the stack of modes says about the source in front of it. Every mode stands above one that it
may stand above, down to the initial one, whatever has been read (`Reads.isNested`). Quotes and the
braces of a description become no tokens, so what they open is known from the stack alone: there is
a piece that opened it, and nothing behind that has closed it (`Reads.open_cases`).
-/

namespace BlockDiagram.Lexer

open Token (Kind)

/-! ### Nested modes -/

/-- The modes that a mode may stand directly above. -/
def Mode.hosts : Mode → List Mode
  | initial => []
  | string | markdown => [initial, node, blockArrow, linkLabel]
  | arrowDirections => [blockArrow]
  | _ => [initial]

/-- Holds for what may be done to a stack with the given current mode. -/
def Effect.Fits (mode : Mode) : Effect → Prop
  | .stay => True
  | .enter inner => mode ∈ inner.hosts
  | .leave => mode ≠ .initial
  | .become other => mode ≠ .initial ∧ ∀ below ∈ mode.hosts, below ∈ other.hosts
  | .leaveTwice => mode ≠ .initial ∧ ∀ below ∈ mode.hosts, below ≠ .initial

/-- What fits a stack can be checked, effect by effect. -/
instance (mode : Mode) : (effect : Effect) → Decidable (effect.Fits mode)
  | .stay => inferInstanceAs (Decidable True)
  | .enter inner => inferInstanceAs (Decidable (mode ∈ inner.hosts))
  | .leave => inferInstanceAs (Decidable (mode ≠ .initial))
  | .become other =>
    inferInstanceAs (Decidable (mode ≠ .initial ∧ ∀ below ∈ mode.hosts, below ∈ other.hosts))
  | .leaveTwice =>
    inferInstanceAs (Decidable (mode ≠ .initial ∧ ∀ below ∈ mode.hosts, below ≠ .initial))

/-- The rules of a mode do nothing that does not fit it. -/
theorem fits_of_mem_rules (mode : Mode) : ∀ rule ∈ mode.rules, rule.effect.Fits mode := by
  cases mode <;> decide

namespace Modes

/-- Holds for stacks in which every mode stands above one that it may stand above, down to the
initial one. -/
inductive IsNested : Modes → Prop where
  | bottom : IsNested [.initial]
  | above {mode below : Mode} {rest : Modes} (hmem : below ∈ mode.hosts)
      (hbelow : IsNested (below :: rest)) : IsNested (mode :: below :: rest)

variable {modes : Modes} {mode : Mode} {effect : Effect}

private theorem IsNested.apply (h : modes.IsNested) (hfits : effect.Fits modes.current) :
    (modes.apply effect).IsNested := by
  cases effect with
  | stay => exact h
  | enter inner =>
    cases h with
    | bottom => exact .above hfits .bottom
    | above hmem hbelow => exact .above hfits (.above hmem hbelow)
  | leave =>
    cases h with
    | bottom => exact absurd rfl hfits
    | above hmem hbelow => exact hbelow
  | become other =>
    cases h with
    | bottom => exact absurd rfl hfits.1
    | above hmem hbelow => exact .above (hfits.2 _ hmem) hbelow
  | leaveTwice =>
    cases h with
    | bottom => exact absurd rfl hfits.1
    | above hmem hbelow =>
      cases hbelow with
      | bottom => exact absurd rfl (hfits.2 _ hmem)
      | above hmem' hbelow' => exact hbelow'

/-- A mode that no other stands above is only at the top. -/
theorem IsNested.not_mem_tail (h : modes.IsNested) (hmode : ∀ other : Mode, mode ∉ other.hosts) :
    mode ∉ modes.tail := by
  induction h with
  | bottom => exact List.not_mem_nil
  | above hmem hbelow ih =>
    intro h
    rcases List.mem_cons.1 h with heq | htail
    · exact hmode _ (heq ▸ hmem)
    · exact ih htail

/-- The initial mode is at the bottom only. -/
theorem IsNested.eq_initial (h : modes.IsNested) (hcurrent : modes.current = .initial) :
    modes = [.initial] := by
  cases h with
  | bottom => rfl
  | above hmem hbelow =>
    obtain rfl : _ = Mode.initial := hcurrent
    exact absurd hmem List.not_mem_nil

/-- Below a mode is one that it may stand above. -/
theorem IsNested.exists_eq_cons (h : modes.IsNested) (hcurrent : modes.current ≠ .initial) :
    ∃ below rest, modes = modes.current :: below :: rest ∧ below ∈ modes.current.hosts ∧
      IsNested (below :: rest) := by
  cases h with
  | bottom => exact absurd rfl hcurrent
  | above hmem hbelow => exact ⟨_, _, rfl, hmem, hbelow⟩

/-- A mode that stands above the initial one only is the second of the stack. -/
theorem IsNested.eq_of_hosts (h : modes.IsNested) (hhosts : modes.current.hosts = [.initial]) :
    modes = [modes.current, .initial] := by
  have hcurrent : modes.current ≠ .initial := by
    intro hcurrent
    rw [hcurrent] at hhosts
    cases hhosts
  obtain ⟨below, rest, heq, hmem, hbelow⟩ := h.exists_eq_cons hcurrent
  rw [hhosts, List.mem_singleton] at hmem
  subst hmem
  have hrest := hbelow.eq_initial rfl
  rwa [hrest] at heq

end Modes

namespace State

variable {s s' : State} {piece : Piece} {ts : List Token}

private theorem Cuts.isNested (h : s.Cuts piece) (hs : s.modes.IsNested) :
    piece.after.modes.IsNested := by
  rw [h.modes]
  exact hs.apply (fits_of_mem_rules _ _ h.mem_rules)

/-- Modes stay nested, whatever is read. -/
theorem Reads.isNested (h : s.Reads ts s') (hs : s.modes.IsNested) : s'.modes.IsNested := by
  induction h with
  | done => exact hs
  | skip hcuts hkind hreads ih => exact ih (hcuts.isNested hs)
  | token hcuts hkind hreads ih => exact ih (hcuts.isNested hs)

end State

/-! ### Texts between marks -/

/-- A text between marks that become no tokens. -/
inductive Enclosure where
  | quoted
  | markdown
  | description
  deriving DecidableEq

namespace Enclosure

/-- The mode of the text. -/
def mode : Enclosure → Mode
  | quoted => .string
  | markdown => .markdown
  | description => .descriptionBlock

/-- What opens the text. -/
def opening : Enclosure → Gap
  | quoted => .quote
  | markdown => .markdownStart
  | description => .descriptionStart

/-- The character that the text is closed with. -/
def mark : Enclosure → Char
  | quoted => '\x22'
  | markdown => '\x22'
  | description => '\x7d'

/-- The kind of the tokens for the text. -/
def kind : Enclosure → Kind
  | quoted => .text
  | markdown => .markdown
  | description => .descriptionBlock

variable {e : Enclosure} {rule : Rule}

/-- No text between marks is read in the initial mode. -/
theorem mode_ne_initial (e : Enclosure) : e.mode ≠ .initial := by
  cases e <;> decide

private theorem mode_not_mem_hosts (e : Enclosure) (other : Mode) : e.mode ∉ other.hosts := by
  cases e <;> cases other <;> decide

private theorem not_mem_of_matches_upTo {c : Char} {text after : List Char}
    (h : (Pattern.upTo c).Matches text after) : c ∉ text := by
  intro hmem
  have hne := Regex.matches_many_char_iff.1 h c hmem
  rw [bne_self_eq_false] at hne
  cases hne

/-- Inside, a rule is for more of the text, in which the mark is not, or for the mark. -/
theorem rules_cases (h : rule ∈ e.mode.rules) :
    (rule.kind = some e.kind ∧ rule.effect = .stay ∧
      ∀ text after, rule.pattern.Matches text after → e.mark ∉ text) ∨
    (rule.kind = none ∧ rule.effect = .leave ∧
      ∀ text after, rule.pattern.Matches text after → e.mark ∈ text) := by
  cases e with
  | quoted =>
    rcases List.mem_cons.1 h with rfl | h
    · refine .inr ⟨rfl, rfl, fun text after hmatches ↦ ?_⟩
      rw [Regex.matches_literal_iff.1 hmatches]
      decide
    · obtain rfl := List.mem_singleton.1 h
      exact .inl ⟨rfl, rfl, fun text after ↦ not_mem_of_matches_upTo⟩
  | markdown =>
    rcases List.mem_cons.1 h with rfl | h
    · refine .inl ⟨rfl, rfl, fun text after hmatches hmem ↦ ?_⟩
      exact absurd ((Regex.matches_atLeastOnce_char_iff.1 hmatches).2 _ hmem) (by decide)
    · obtain rfl := List.mem_singleton.1 h
      refine .inr ⟨rfl, rfl, fun text after hmatches ↦ ?_⟩
      rw [Regex.matches_literal_iff.1 hmatches]
      decide
  | description =>
    rcases List.mem_cons.1 h with rfl | h
    · refine .inr ⟨rfl, rfl, fun text after hmatches ↦ ?_⟩
      rw [Regex.matches_literal_iff.1 hmatches]
      decide
    · obtain rfl := List.mem_singleton.1 h
      exact .inl ⟨rfl, rfl, fun text after ↦ not_mem_of_matches_upTo⟩

/-- Outside, only the opening enters the text. -/
theorem opening_of_mem_rules (h : rule ∈ Mode.initial.rules)
    (heffect : rule.effect = .enter e.mode) :
    rule.kind = none ∧ rule.pattern = e.opening.pattern := by
  have hkind : ∀ rule ∈ Mode.initial.rules, rule.effect = .enter e.mode → rule.kind = none := by
    cases e <;> decide
  have hnone := hkind rule h heffect
  obtain ⟨gap, hgap, hpattern⟩ := Gap.exists_of_mem_rules h hnone
  refine ⟨hnone, hpattern.trans (congrArg Gap.pattern ?_)⟩
  rw [heffect] at hgap
  cases e <;> cases gap <;> simp [Gap.ofMode, mode, opening] at hgap ⊢

/-- No rule changes another mode into the text. -/
theorem effect_ne_become (e : Enclosure) (mode : Mode) :
    ∀ rule ∈ mode.rules, rule.effect ≠ .become e.mode := by
  cases e <;> cases mode <;> decide

/-- A stack with the text directly above the initial mode is so since before a rule, or the rule
has entered the text. -/
theorem modes_cases {modes : Modes} (h : modes.IsNested) (hrule : rule ∈ modes.current.rules)
    (hmodes : modes.apply rule.effect = [e.mode, .initial]) :
    (modes = [e.mode, .initial] ∧ rule.effect = .stay) ∨
      (modes = [.initial] ∧ rule.effect = .enter e.mode) := by
  have hfits := fits_of_mem_rules _ rule hrule
  have htail := h.not_mem_tail e.mode_not_mem_hosts
  cases heffect : rule.effect with
  | stay =>
    rw [heffect] at hmodes
    exact .inl ⟨hmodes, rfl⟩
  | enter inner =>
    rw [heffect] at hmodes
    obtain ⟨rfl, hrest⟩ := List.cons.inj hmodes
    exact .inr ⟨hrest, rfl⟩
  | leave =>
    rw [heffect] at hfits hmodes
    obtain ⟨below, rest, heq, -⟩ := h.exists_eq_cons hfits
    rw [heq] at hmodes htail
    have hbelow : below :: rest = [e.mode, .initial] := hmodes
    rw [List.tail_cons, hbelow] at htail
    exact absurd List.mem_cons_self htail
  | become other =>
    rw [heffect] at hmodes
    obtain ⟨rfl, -⟩ := List.cons.inj hmodes
    exact absurd heffect (e.effect_ne_become _ rule hrule)
  | leaveTwice =>
    rw [heffect] at hfits hmodes
    obtain ⟨below, rest, heq, hmem, hbelow⟩ := h.exists_eq_cons hfits.1
    obtain ⟨lower, rest', heq', -⟩ := hbelow.exists_eq_cons (hfits.2 _ hmem)
    obtain ⟨-, rfl⟩ := List.cons.inj heq'
    rw [heq] at hmodes htail
    have hlower : lower :: rest' = [e.mode, .initial] := hmodes
    rw [List.tail_cons, hlower] at htail
    exact absurd (List.mem_cons_of_mem _ List.mem_cons_self) htail

/-- Holds where only text is read from one state to another one. -/
structure Fills (e : Enclosure) (s : State) (ts : List Token) (s' : State) : Prop where
  exists_text : ∃ text, s.rest = text ++ s'.rest ∧ e.mark ∉ text ∧ (ts = [] → text = [])
  kind_eq : ∀ t ∈ ts, t.kind = e.kind

/-- Holds for pieces of a source that open a text, outside of all else. -/
structure Opens (e : Enclosure) (s : State) (piece : Piece) : Prop where
  modes_eq : s.modes = [.initial]
  cuts : s.Cuts piece
  kind_eq : piece.rule.kind = none
  opening_matches : e.opening.pattern.Matches piece.text piece.after.rest
  modes_after : piece.after.modes = [e.mode, .initial]

end Enclosure

namespace State

variable {s s' : State} {piece : Piece} {ts : List Token} {e : Enclosure}

private theorem Cuts.cases_of_modes (h : s.Cuts piece) (hs : s.modes.IsNested)
    (hmodes : piece.after.modes = [e.mode, .initial]) :
    (s.modes = [e.mode, .initial] ∧ piece.rule.kind = some e.kind ∧ e.mark ∉ piece.text) ∨
      e.Opens s piece := by
  have hrule := h.mem_rules
  rw [h.modes] at hmodes
  rcases Enclosure.modes_cases hs hrule hmodes with ⟨hstack, hstay⟩ | ⟨hstack, henter⟩
  · rw [hstack] at hrule
    rcases Enclosure.rules_cases hrule with ⟨hkind, -, hmark⟩ | ⟨-, hleave, -⟩
    · exact .inl ⟨hstack, hkind, hmark _ _ h.pattern_matches⟩
    · rw [hstay] at hleave
      cases hleave
  · rw [hstack] at hrule
    obtain ⟨hkind, hpattern⟩ := Enclosure.opening_of_mem_rules hrule henter
    exact .inr ⟨hstack, h, hkind, hpattern ▸ h.pattern_matches, h.modes.trans hmodes⟩

/-- Where a text is open there is a piece that opened it, and only text behind that; or it was open
all the time. -/
theorem Reads.open_cases (h : s.Reads ts s') (hs : s.modes.IsNested)
    (hmodes : s'.modes = [e.mode, .initial]) :
    (s.modes = [e.mode, .initial] ∧ e.Fills s ts s') ∨
      ∃ front behind before piece, ts = front ++ behind ∧ s.Reads front before ∧
        e.Opens before piece ∧ e.Fills piece.after behind s' := by
  induction h with
  | done =>
    exact .inl ⟨hmodes, ⟨⟨[], rfl, List.not_mem_nil, fun _ ↦ rfl⟩, List.forall_mem_nil _⟩⟩
  | @skip s s' piece ts hcuts hkind hreads ih =>
    rcases ih (hcuts.isNested hs) hmodes with
      ⟨hafter, hfills⟩ | ⟨front, behind, before, opener, rfl, hfront, hopens, hfills⟩
    · rcases hcuts.cases_of_modes hs hafter with ⟨-, hsome, -⟩ | hopens
      · rw [hkind] at hsome
        cases hsome
      · exact .inr ⟨[], ts, s, piece, rfl, .done, hopens, hfills⟩
    · exact .inr ⟨front, behind, before, opener, rfl, .skip hcuts hkind hfront, hopens, hfills⟩
  | @token s s' piece kind ts hcuts hkind hreads ih =>
    rcases ih (hcuts.isNested hs) hmodes with
      ⟨hafter, hfills⟩ | ⟨front, behind, before, opener, rfl, hfront, hopens, hfills⟩
    · rcases hcuts.cases_of_modes hs hafter with ⟨hstack, hsome, hmark⟩ | hopens
      · obtain ⟨text, hrest, htext, -⟩ := hfills.exists_text
        obtain rfl := Option.some.inj (hkind.symm.trans hsome)
        refine .inl ⟨hstack, ⟨⟨piece.text ++ text, ?_, ?_, fun hnil ↦ ?_⟩, ?_⟩⟩
        · rw [← hcuts.text_append, hrest, List.append_assoc]
        · rw [List.mem_append]
          exact not_or_intro hmark htext
        · cases hnil
        · exact List.forall_mem_cons.2 ⟨rfl, hfills.kind_eq⟩
      · rw [hopens.kind_eq] at hkind
        cases hkind
    · exact .inr ⟨_ :: front, behind, before, opener, rfl, .token hcuts hkind hfront, hopens,
        hfills⟩

/-- What does not have the mark in it does not close a text. -/
theorem Cuts.modes_eq_of_mark (h : s.Cuts piece) (hmodes : s.modes = [e.mode, .initial])
    (hmark : e.mark ∉ s.rest) :
    piece.after.modes = [e.mode, .initial] ∧ e.mark ∉ piece.after.rest := by
  rw [← h.text_append, List.mem_append, not_or] at hmark
  have hrule := h.mem_rules
  rw [hmodes] at hrule
  rcases Enclosure.rules_cases hrule with ⟨-, hstay, -⟩ | ⟨-, -, hmem⟩
  · rw [h.modes, hstay]
    exact ⟨hmodes, hmark.2⟩
  · exact absurd (hmem _ _ h.pattern_matches) hmark.1

/-- A text stays open for as long as its mark does not come. -/
theorem Reads.modes_eq_of_mark (h : s.Reads ts s') (hmodes : s.modes = [e.mode, .initial])
    (hmark : e.mark ∉ s.rest) : s'.modes = [e.mode, .initial] := by
  induction h with
  | done => exact hmodes
  | skip hcuts hkind hreads ih =>
    obtain ⟨hafter, hrest⟩ := hcuts.modes_eq_of_mark hmodes hmark
    exact ih hafter hrest
  | token hcuts hkind hreads ih =>
    obtain ⟨hafter, hrest⟩ := hcuts.modes_eq_of_mark hmodes hmark
    exact ih hafter hrest

/-- Behind its source the lexer goes nowhere. -/
theorem Reads.eq_of_rest (h : s.Reads ts s') (hs : s.rest = []) : s' = s := by
  cases h with
  | done => rfl
  | skip hcuts => exact absurd hs hcuts.rest_ne_nil
  | token hcuts => exact absurd hs hcuts.rest_ne_nil

/-- Reading goes one way only: what has been read is in front of the end. -/
theorem Reads.reads_end {last : State} {ts' : List Token} (h : s.Reads ts s')
    (h' : s.Reads ts' last) (hlast : last.rest = []) : ∃ ts'', s'.Reads ts'' last := by
  induction h generalizing ts' with
  | done => exact ⟨ts', h'⟩
  | skip hcuts hkind hreads ih =>
    cases h' with
    | done => exact absurd hlast hcuts.rest_ne_nil
    | skip hcuts' hkind' hreads' => exact ih (hcuts'.unique hcuts ▸ hreads')
    | token hcuts' hkind' hreads' => exact ih (hcuts'.unique hcuts ▸ hreads')
  | token hcuts hkind hreads ih =>
    cases h' with
    | done => exact absurd hlast hcuts.rest_ne_nil
    | skip hcuts' hkind' hreads' => exact ih (hcuts'.unique hcuts ▸ hreads')
    | token hcuts' hkind' hreads' => exact ih (hcuts'.unique hcuts ▸ hreads')

/-- The last token is that of a piece with only gaps behind it. -/
theorem Reads.exists_last {t : Token} (h : s.Reads (ts ++ [t]) s') :
    ∃ before piece kind, s.Reads ts before ∧ before.Cuts piece ∧ piece.rule.kind = some kind ∧
      t = before.tokenFor piece kind ∧ piece.after.Reads [] s' := by
  generalize hall : ts ++ [t] = all at h
  induction h generalizing ts with
  | done => exact absurd hall (List.append_ne_nil_of_right_ne_nil _ (List.cons_ne_nil _ _))
  | skip hcuts hkind hreads ih =>
    obtain ⟨before, piece, kind, hbefore, hlast⟩ := ih hall
    exact ⟨before, piece, kind, .skip hcuts hkind hbefore, hlast⟩
  | token hcuts hkind hreads ih =>
    rcases List.append_eq_cons_iff.1 hall with ⟨rfl, hsingle⟩ | ⟨rest, rfl, hrest⟩
    · obtain ⟨rfl, rfl⟩ := List.cons.inj hsingle
      exact ⟨_, _, _, .done, hcuts, hkind, rfl, hreads⟩
    · obtain ⟨before, piece, kind, hbefore, hlast⟩ := ih hrest.symm
      exact ⟨before, piece, kind, .token hcuts hkind hbefore, hlast⟩

end State

end BlockDiagram.Lexer
