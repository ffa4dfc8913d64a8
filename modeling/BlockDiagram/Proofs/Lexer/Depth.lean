import BlockDiagram.Proofs.Lexer.Modes

/-!
# How deep modes are nested

Leaving a mode does nothing to a stack of one mode, so a rule that leaves more than has been entered
would go unnoticed. There is no such rule: whatever has been read, the current mode and the ones
below it are such that each of its rules finds the modes that it leaves (`modes_of_reads`). No more
than three modes are ever nested.
-/

namespace BlockDiagram.Lexer

/-! ### Stacks that run out -/

namespace Modes

variable {modes : Modes} {effect : Effect}

/-- Leaves the current mode of a stack that has another one below it. -/
def left? : Modes → Option Modes
  | _ :: below :: rest => some (below :: rest)
  | _ => none

/-- Changes the stack as a rule asks for, unless the last mode would be left for that. -/
def applied? (modes : Modes) : Effect → Option Modes
  | .stay => some modes
  | .enter mode => some (mode :: modes)
  | .leave => modes.left?
  | .become mode => modes.left?.map (mode :: ·)
  | .leaveTwice => modes.left?.bind left?

/-- Nested modes do not run out when something is done that fits them. -/
theorem IsNested.applied?_eq (h : modes.IsNested) (hfits : effect.Fits modes.current) :
    modes.applied? effect = some (modes.apply effect) := by
  by_cases hcurrent : modes.current = .initial
  · rw [hcurrent] at hfits
    cases effect with
    | stay | enter => rfl
    | leave => exact absurd rfl hfits
    | become | leaveTwice => exact absurd rfl hfits.1
  · obtain ⟨below, rest, heq, hmem, hbelow⟩ := h.exists_eq_cons hcurrent
    rw [heq]
    cases effect with
    | stay | enter | leave | become => rfl
    | leaveTwice =>
      obtain ⟨lower, rest', heq', -⟩ := hbelow.exists_eq_cons (hfits.2 below hmem)
      rw [heq']
      rfl

end Modes

/-! ### The shape of nested modes -/

/-- How many modes a stack has at most that the mode is on top of. -/
def Mode.height : Mode → Nat
  | initial => 1
  | string | markdown | arrowDirections => 3
  | _ => 2

private theorem Mode.height_lt_of_mem_hosts (mode : Mode) :
    ∀ below ∈ mode.hosts, below.height < mode.height := by
  cases mode <;> decide

private theorem Mode.height_le (mode : Mode) : mode.height ≤ 3 := by
  cases mode <;> decide

namespace Modes

variable {modes : Modes} {mode : Mode}

/-- Holds for stacks of three modes at most, with the initial mode at the bottom and nowhere else.
The directions of an arrow are directly above a block arrow, and quoted text is above a mode with
quotes. -/
structure IsOrderly (modes : Modes) : Prop where
  length_le : modes.length ≤ 3
  exists_above : ∃ above, modes = above ++ [.initial] ∧ .initial ∉ above
  below_directions : ∀ above below, modes = above ++ .arrowDirections :: below →
    below.head? = some .blockArrow
  below_text : ∀ above mode below, modes = above ++ mode :: below →
    mode = .string ∨ mode = .markdown →
    ∃ host, below.head? = some host ∧
      (host = .initial ∨ host = .node ∨ host = .blockArrow ∨ host = .linkLabel)

namespace IsNested

private theorem length_le_height (h : modes.IsNested) : modes.length ≤ modes.current.height := by
  induction h with
  | bottom => exact Nat.le_refl 1
  | @above mode below rest hmem hbelow ih =>
    have hlt := mode.height_lt_of_mem_hosts below hmem
    change below.height.succ ≤ mode.height at hlt
    exact Nat.le_trans (Nat.succ_le_succ ih) hlt

private theorem exists_above (h : modes.IsNested) :
    ∃ above, modes = above ++ [.initial] ∧ .initial ∉ above := by
  induction h with
  | bottom => exact ⟨[], rfl, List.not_mem_nil⟩
  | @above mode below rest hmem hbelow ih =>
    obtain ⟨above, heq, hinitial⟩ := ih
    refine ⟨mode :: above, by rw [heq, List.cons_append], ?_⟩
    rw [List.mem_cons, not_or]
    refine ⟨?_, hinitial⟩
    rintro rfl
    cases hmem

/-- What is below a mode is nested too. -/
theorem of_append {above below : Modes} (h : IsNested (above ++ mode :: below)) :
    IsNested (mode :: below) := by
  induction above with
  | nil => exact h
  | cons top above ih =>
    apply ih
    rw [List.cons_append] at h
    generalize hrest : above ++ mode :: below = rest at h ⊢
    cases h with
    | bottom => exact absurd hrest (List.append_ne_nil_of_right_ne_nil _ (List.cons_ne_nil _ _))
    | above hmem hbelow => exact hbelow

/-- Directly below a mode is one that it may stand above. -/
theorem exists_head (h : modes.IsNested) {above below : Modes}
    (heq : modes = above ++ mode :: below) (hmode : mode ≠ .initial) :
    ∃ host ∈ mode.hosts, below.head? = some host := by
  rw [heq] at h
  obtain ⟨host, rest, hcons, hmem, -⟩ := h.of_append.exists_eq_cons hmode
  obtain ⟨-, rfl⟩ := List.cons.inj hcons
  exact ⟨host, hmem, rfl⟩

private theorem isOrderly (h : modes.IsNested) : modes.IsOrderly where
  length_le := Nat.le_trans h.length_le_height modes.current.height_le
  exists_above := h.exists_above
  below_directions above below heq := by
    obtain ⟨host, hhost, hhead⟩ := h.exists_head heq Mode.noConfusion
    rw [hhead, List.mem_singleton.1 hhost]
  below_text above mode below heq hmode := by
    have hinitial : mode ≠ .initial := by
      rcases hmode with rfl | rfl <;> exact Mode.noConfusion
    obtain ⟨host, hhost, hhead⟩ := h.exists_head heq hinitial
    refine ⟨host, hhead, ?_⟩
    rcases hmode with rfl | rfl <;> simpa [Mode.hosts] using hhost

/-- Directions are read inside a block arrow, and that outside of all else. -/
theorem eq_of_directions (h : modes.IsNested) (hcurrent : modes.current = .arrowDirections) :
    modes = [.arrowDirections, .blockArrow, .initial] := by
  have hinitial : modes.current ≠ .initial := by
    rw [hcurrent]
    exact Mode.noConfusion
  obtain ⟨below, rest, heq, hmem, hbelow⟩ := h.exists_eq_cons hinitial
  rw [hcurrent] at heq hmem
  obtain rfl := List.mem_singleton.1 hmem
  rw [heq, hbelow.eq_of_hosts rfl]
  rfl

end IsNested

end Modes

/-- Only directions end together with what they are in. -/
theorem eq_directions_of_leaveTwice (mode : Mode) :
    ∀ rule ∈ mode.rules, rule.effect = .leaveTwice → mode = .arrowDirections := by
  cases mode <;> decide

namespace State

variable {source : String} {s : State} {piece : Piece} {ts : List Token}

/-- Wherever a source has been read up to, three modes at most are nested, the initial one below
all others. The rule for the next piece changes the stack in the same way whether or not the last
mode can be left, since it never is: every mode that the rule leaves has another one below it. A
rule that leaves two modes leaves the directions of a block arrow and the arrow itself. -/
theorem modes_of_reads (h : (start source).Reads ts s) :
    s.modes.IsOrderly ∧ ∀ piece, s.cut = some piece →
      s.modes.applied? piece.rule.effect = some piece.after.modes ∧
      (piece.rule.effect = .leaveTwice →
        s.modes = [.arrowDirections, .blockArrow, .initial] ∧ piece.after.modes = [.initial]) := by
  have hnested : s.modes.IsNested := h.isNested .bottom
  refine ⟨hnested.isOrderly, fun piece hcut ↦ ?_⟩
  have hcuts := cut_eq_some_iff.1 hcut
  have hrule := hcuts.mem_rules
  rw [hcuts.modes]
  refine ⟨hnested.applied?_eq (fits_of_mem_rules _ _ hrule), fun heffect ↦ ?_⟩
  have hmodes := hnested.eq_of_directions (eq_directions_of_leaveTwice _ _ hrule heffect)
  rw [hmodes, heffect]
  exact ⟨rfl, rfl⟩

/-- A bracket behind the directions of a block arrow leaves two modes, and does so with three. -/
theorem modes_blockArrow : ∃ ts s piece, (start "a<[\"x\"]>(right)").Reads ts s ∧
    s.cut = some piece ∧ piece.rule.effect = .leaveTwice ∧
      s.modes.length = 3 ∧ s.modes.applied? .leaveTwice = some [.initial] := by
  have hdecide : (piecesOf "a<[\"x\"]>(right)").any fun piece ↦
      decide (piece.rule.effect = .leaveTwice) := by
    decide +kernel
  obtain ⟨piece, hpiece, heffect⟩ := List.any_eq_true.1 hdecide
  rw [decide_eq_true_iff] at heffect
  obtain ⟨s, -, hcuts, -, -, ts, hreads⟩ := exists_cuts_of_mem_pieces hpiece
  have hcut := cut_eq_some_iff.2 hcuts
  obtain ⟨happly, hleaves⟩ := (modes_of_reads hreads).2 piece hcut
  obtain ⟨hmodes, hafter⟩ := hleaves heffect
  rw [heffect, hafter] at happly
  exact ⟨ts, s, piece, hreads, hcut, heffect, by rw [hmodes]; rfl, happly⟩

end State

end BlockDiagram.Lexer
