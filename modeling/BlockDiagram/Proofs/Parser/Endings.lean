import BlockDiagram.Proofs.Grammar.Followers
import BlockDiagram.Proofs.Lexer.Modes
import BlockDiagram.Proofs.Parser.Leftmost

/-!
# How sources end

What is open where a source ends that the parser accepts. The grammar only sees tokens. No diagram
ends with the token for an opening, so what such a token has opened is closed. The marks of a text
outside of all else are no tokens, and with an opening one of these a source may end; behind the
brace of a description there may be its text, too (`modes_of_statements`).
-/

namespace BlockDiagram

open Token (Kind)

namespace Grammar

/-- The kinds of the tokens that a diagram may end with. -/
def finalKinds : List Kind := [
  .diagram, .blockEnd, .columns, .space, .nodeId, .width, .shapeClose, .arrowClose, .classStyles,
  .appliedClass, .styles, .titleText, .descriptionText, .descriptionBlock]

private theorem mem_finalKinds_iff {kind : Kind} :
    kind ∈ finalKinds ↔ MayTouch (some kind) .endOfInput := by
  have hall : ∀ kind ∈ Kind.all,
      (kind ∈ finalKinds ↔ (neighbours (some kind)).contains .endOfInput = true) := by
    decide +kernel
  rw [mayTouch_iff]
  exact hall kind kind.mem_all

/-- Every diagram has a last token. -/
theorem exists_final_of_accepts {kinds : List Kind} (h : Accepts kinds) :
    ∃ front last, kinds = front ++ [last] ∧ last ∈ finalKinds := by
  have htouch := (mayFollow_endOfInput_iff.2 h).mayTouch
  cases hlast : kinds.getLast? with
  | none =>
    rw [hlast, mayTouch_iff] at htouch
    exact absurd htouch (by decide +kernel)
  | some last =>
    obtain ⟨front, rfl⟩ := List.getLast?_eq_some_iff.1 hlast
    rw [hlast] at htouch
    exact ⟨front, last, rfl, mem_finalKinds_iff.2 htouch⟩

end Grammar

open Grammar

namespace Lexer

/-- Holds for stacks with nothing open but a text, if that. -/
def Modes.IsShallow (modes : Modes) : Prop :=
  modes = [.initial] ∨ ∃ e : Enclosure, modes = [e.mode, .initial]

/-- Where a rule for a last token applies, and what it does there. -/
theorem cases_of_finalKinds (mode : Mode) : ∀ rule ∈ mode.rules,
    (∃ kind ∈ finalKinds, rule.kind = some kind) →
      mode = .initial ∧ rule.effect = .stay ∨
      mode.hosts = [.initial] ∧ rule.effect = .leave ∨
      mode = .arrowDirections ∧ rule.effect = .leaveTwice ∨
      mode = .descriptionBlock ∧ rule.effect = .stay := by
  cases mode <;> decide

namespace State

variable {s s' : State} {piece : Piece} {e : Enclosure}

/-- A token that a diagram may end with leaves nothing open but a text. -/
theorem Cuts.isShallow_of_final (h : s.Cuts piece) (hs : s.modes.IsNested) {kind : Kind}
    (hkind : piece.rule.kind = some kind) (hfinal : kind ∈ finalKinds) :
    piece.after.modes.IsShallow := by
  rw [h.modes]
  rcases cases_of_finalKinds _ _ h.mem_rules ⟨kind, hfinal, hkind⟩ with
    ⟨hmode, heffect⟩ | ⟨hhosts, heffect⟩ | ⟨hmode, heffect⟩ | ⟨hmode, heffect⟩
  · rw [heffect, hs.eq_initial hmode]
    exact .inl rfl
  · rw [heffect, hs.eq_of_hosts hhosts]
    exact .inl rfl
  · obtain ⟨below, rest, heq, hmem, hbelow⟩ := hs.exists_eq_cons (by rw [hmode]; decide)
    rw [hmode] at heq hmem
    obtain rfl : below = .blockArrow := List.mem_singleton.1 hmem
    rw [heffect, heq, hbelow.eq_of_hosts rfl]
    exact .inl rfl
  · have hstack := hs.eq_of_hosts (by rw [hmode]; rfl)
    rw [hmode] at hstack
    rw [heffect, hstack]
    exact .inr ⟨.description, rfl⟩

/-- What becomes no token opens or closes no more than a text. -/
theorem Cuts.isShallow (h : s.Cuts piece) (hs : s.modes.IsShallow)
    (hkind : piece.rule.kind = none) : piece.after.modes.IsShallow := by
  have hinitial : ∀ rule ∈ Mode.initial.rules, rule.kind = none →
      rule.effect = .stay ∨ rule.effect = .enter .string ∨ rule.effect = .enter .markdown ∨
        rule.effect = .enter .descriptionBlock := by
    decide
  have hrule := h.mem_rules
  rw [h.modes]
  rcases hs with hstack | ⟨e, hstack⟩
  · rw [hstack] at hrule ⊢
    rcases hinitial _ hrule hkind with heffect | heffect | heffect | heffect
    · rw [heffect]
      exact .inl rfl
    · rw [heffect]
      exact .inr ⟨.quoted, rfl⟩
    · rw [heffect]
      exact .inr ⟨.markdown, rfl⟩
    · rw [heffect]
      exact .inr ⟨.description, rfl⟩
  · rw [hstack] at hrule ⊢
    rcases Enclosure.rules_cases hrule with ⟨hsome, -⟩ | ⟨-, heffect, -⟩
    · rw [hkind] at hsome
      cases hsome
    · rw [heffect]
      exact .inl rfl

private theorem Reads.isShallow {ts : List Token} (h : s.Reads ts s') (hts : ts = [])
    (hs : s.modes.IsShallow) : s'.modes.IsShallow := by
  induction h with
  | done => exact hs
  | skip hcuts hkind hreads ih => exact ih hts (hcuts.isShallow hs hkind)
  | token => cases hts

end State

/-- A diagram may end with the text of a description only. -/
theorem Enclosure.eq_description_of_final {e : Enclosure} (h : e.kind ∈ finalKinds) :
    e = .description := by
  revert h
  cases e <;> decide

/-- Holds for pieces of a source that open a text, outside of all else, which nothing closes. -/
def Enclosure.IsLeftOpen (e : Enclosure) (source : String) (piece : Piece) : Prop :=
  (∃ front before, (State.start source).Reads front before ∧ e.Opens before piece) ∧
    e.mark ∉ piece.after.rest

end Lexer

open Lexer

variable {source : String} {ss : List (Source.Located Statement)}

/-- An accepted source ends with a token that a diagram may end with and the gaps behind it. -/
theorem exists_end_of_statements (h : statements source = .ok ss) :
    ∃ front last s, (State.start source).Reads (front ++ [last]) s ∧ s.rest = [] ∧
      last.kind ∈ finalKinds := by
  obtain ⟨body, eof, htokens, haccepts⟩ := exists_tokens_of_statements h
  obtain ⟨kinds, kind, hkinds, hfinal⟩ := exists_final_of_accepts haccepts
  obtain ⟨front, last, rfl, -, hlast⟩ := List.map_eq_append_iff.1 hkinds
  obtain ⟨t, rfl, rfl⟩ := List.map_eq_singleton_iff.1 hlast
  obtain ⟨front', s, hreads, hrest, heq⟩ := State.tokens_eq_ok_iff.1 htokens
  obtain ⟨rfl, -⟩ := List.append_inj' heq rfl
  exact ⟨front, t, s, hreads, hrest, hfinal⟩

/-- Where an accepted source ends, nothing is open, or there is one text outside of all else that
has been opened and not closed. Behind the opening of that there is nothing, unless it is the text
of a description. -/
theorem modes_of_statements (h : statements source = .ok ss) :
    ∃ ts s, (State.start source).Reads ts s ∧ s.rest = [] ∧
      ((s.modes = [.initial] ∧ ∀ e piece, ¬ Enclosure.IsLeftOpen e source piece) ∨
        ∃ (e : Enclosure) (piece : Piece), s.modes = [e.mode, .initial] ∧
          e.IsLeftOpen source piece ∧ (e ≠ .description → piece.after.rest = [])) := by
  obtain ⟨front, last, s, hreads, hrest, hfinal⟩ := exists_end_of_statements h
  obtain ⟨before, piece, kind, hbefore, hcuts, hkind, rfl, hgaps⟩ := hreads.exists_last
  have hlast := hcuts.isShallow_of_final (hbefore.isNested .bottom) hkind hfinal
  refine ⟨_, s, hreads, hrest, ?_⟩
  rcases hgaps.isShallow rfl hlast with hmodes | ⟨e, hmodes⟩
  · refine .inl ⟨hmodes, ?_⟩
    rintro e opener ⟨⟨front', before', hfront', hopens⟩, hmark⟩
    obtain ⟨ts, hts⟩ := (hfront'.trans (.skip hopens.cuts hopens.kind_eq .done)).reads_end
      hreads hrest
    have hopen := hts.modes_eq_of_mark hopens.modes_after hmark
    rw [hmodes] at hopen
    exact absurd (List.cons.inj hopen).1.symm e.mode_ne_initial
  · right
    rcases hreads.open_cases .bottom hmodes with
      ⟨hstart, -⟩ | ⟨front', behind, before', opener, happend, hfront', hopens, hfills⟩
    · exact absurd (List.cons.inj hstart).1.symm e.mode_ne_initial
    · obtain ⟨text, htext, hmark, hnil⟩ := hfills.exists_text
      rw [hrest, List.append_nil] at htext
      refine ⟨e, opener, hmodes, ⟨⟨front', before', hfront', hopens⟩, htext ▸ hmark⟩, ?_⟩
      intro he
      rw [htext]
      apply hnil
      rcases List.eq_nil_or_concat behind with hbehind | ⟨others, t, rfl⟩
      · exact hbehind
      -- The last token would be for the text.
      · rw [List.concat_eq_append, ← List.append_assoc] at happend
        obtain ⟨-, hsingle⟩ := List.append_inj' happend rfl
        obtain ⟨rfl, -⟩ := List.cons.inj hsingle
        have htokens := hfills.kind_eq (before.tokenFor piece kind) (by simp)
        rw [htokens] at hfinal
        exact absurd (Enclosure.eq_description_of_final hfinal) he

/-! ### A description that is left open -/

/-- A source that ends in the text of a description. -/
def openDescription : String := "block-beta a accDescr \x7b b"

/-- The rules that derive it. -/
def openDescriptionRules : List Production :=
  [.start] ++ nodeRules ++ [.documentMore, .descriptionBlock, .documentEnd]

private theorem statements_openDescription : ∃ ss, statements openDescription = .ok ss := by
  have hdecide : ((statementsAlong openDescriptionRules openDescription).bind fun ss ↦
      (Builder.build 9 ss).toOption.map fun d ↦ d.description) = some (some "b") := by
    decide +kernel
  obtain ⟨ss, -, hss, -⟩ := parse_of_along hdecide
  exact ⟨ss, hss⟩

private theorem modes_openDescription : ∃ ts s, (State.start openDescription).Reads ts s ∧
    s.rest = [] ∧ s.modes = [.descriptionBlock, .initial] := by
  have hdecide : (piecesOf openDescription).getLast?.map
      (fun piece ↦ (piece.after.rest, piece.after.modes)) =
        some ([], [.descriptionBlock, .initial]) := by
    decide +kernel
  obtain ⟨piece, hpiece, hafter⟩ := Option.map_eq_some_iff.1 hdecide
  obtain ⟨hrest, hmodes⟩ := Prod.mk.inj hafter
  obtain ⟨ts, hreads⟩ := State.reads_of_getLast? hpiece
  exact ⟨ts, piece.after, hreads, hrest, hmodes⟩

/-- What is open at the end of the source is the text behind a brace. -/
theorem isLeftOpen_openDescription : ∃ ss e piece, statements openDescription = .ok ss ∧
    Enclosure.IsLeftOpen e openDescription piece := by
  obtain ⟨ss, hss⟩ := statements_openDescription
  obtain ⟨ts, s, hreads, hrest, ⟨hmodes, -⟩ | ⟨e, piece, -, hopen, -⟩⟩ := modes_of_statements hss
  · obtain ⟨ts', s', hreads', hrest', hmodes'⟩ := modes_openDescription
    obtain ⟨ts'', hbehind⟩ := hreads.reads_end hreads' hrest'
    rw [hbehind.eq_of_rest hrest, hmodes] at hmodes'
    cases hmodes'
  · exact ⟨ss, e, piece, hss, hopen⟩

/-- The source is accepted, and does not end in the initial mode. -/
theorem modes_ne_initial : ∃ ss ts s, statements openDescription = .ok ss ∧
    (State.start openDescription).Reads ts s ∧ s.rest = [] ∧ s.modes ≠ [.initial] := by
  obtain ⟨ss, hss⟩ := statements_openDescription
  obtain ⟨ts, s, hreads, hrest, hmodes⟩ := modes_openDescription
  refine ⟨ss, ts, s, hss, hreads, hrest, ?_⟩
  rw [hmodes]
  decide

end BlockDiagram
