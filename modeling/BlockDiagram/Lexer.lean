import BlockDiagram.Lexer.Rules
import BlockDiagram.Source.Position

/-!
# The lexer

Cuts a source into pieces. Of all rules of the current mode the one that reads furthest is applied,
and of several that read as far the first. `cut_append` says that nothing is lost between a piece
and what is left, `next_length_lt` that every token takes something with it.
-/

namespace BlockDiagram.Lexer

open Source (Span)
open Token (Kind)

/-- Text that no rule of the current mode matches. -/
structure Unmatched where
  char : Char
  offset : Nat
  deriving DecidableEq, Repr

namespace Unmatched

/-- The place of the character in the source. -/
def span (u : Unmatched) : Span :=
  Span.between u.offset (u.offset + u.char.utf8Size)

end Unmatched

/-- The stack of modes, the current one first. -/
abbrev Modes := List Mode

namespace Modes

/-- The current mode. -/
def current (modes : Modes) : Mode :=
  modes.headD .initial

/-- Leaves the current mode, unless it is the last one. -/
def leave : Modes → Modes
  | _ :: below :: rest => below :: rest
  | modes => modes

/-- Changes the stack as a rule asks for. -/
def apply (modes : Modes) : Effect → Modes
  | .stay => modes
  | .enter mode => mode :: modes
  | .leave => leave modes
  | .become mode => mode :: leave modes
  | .leaveTwice => leave (leave modes)

end Modes

/-- How far a source has been read. -/
structure State where
  rest : List Char
  offset : Nat
  modes : Modes

namespace State

/-- The state in front of a whole source. -/
def start (source : String) : State :=
  ⟨source.toList, 0, [.initial]⟩

end State

/-- The number of bytes that characters take. -/
def byteLength (cs : List Char) : Nat :=
  cs.foldr (fun c n ↦ c.utf8Size + n) 0

/-- The better one of a rule and the best of those in front of it, with how much they take. -/
def better (text : List Char) (best : Option (Rule × Nat)) (rule : Rule) : Option (Rule × Nat) :=
  let length := rule.length text
  if (best.map Prod.snd).getD 0 < length then some (rule, length) else best

/-- The rule that takes most of a text, and how much it takes. The first of several wins, and a rule
that takes nothing never does. -/
def bestRule (rules : List Rule) (text : List Char) : Option (Rule × Nat) :=
  rules.foldl (better text) none

/-- A piece cut from the front of a source. -/
structure Piece where
  rule : Rule
  text : List Char
  /-- The state behind the piece. -/
  after : State

namespace State

/-- Cuts the next piece. -/
def cut (s : State) : Option Piece :=
  (bestRule s.modes.current.rules s.rest).map fun (rule, length) ↦
    let text := s.rest.take length
    { rule, text
      after := ⟨s.rest.drop length, s.offset + byteLength text, s.modes.apply rule.effect⟩ }

end State

private theorem bestRule_pos_of_foldl {text : List Char} (rules : List Rule)
    (best : Option (Rule × Nat)) (hbest : ∀ b ∈ best, 0 < b.2) :
    ∀ b ∈ rules.foldl (better text) best, 0 < b.2 := by
  induction rules generalizing best with
  | nil => exact hbest
  | cons rule rules ih =>
    refine ih _ fun b hb ↦ ?_
    dsimp only [better] at hb
    split at hb
    · rename_i h
      obtain rfl := Option.some.inj hb
      exact Nat.lt_of_le_of_lt (Nat.zero_le _) h
    · exact hbest b hb

/-- The rule that wins takes something. -/
theorem bestRule_pos {rules : List Rule} {text : List Char} {rule : Rule} {length : Nat}
    (h : bestRule rules text = some (rule, length)) : 0 < length :=
  bestRule_pos_of_foldl rules none (by simp) (rule, length) h

namespace State

/-- A piece and the text left behind it make up the text in front of it. -/
theorem cut_append {s : State} {piece : Piece} (h : s.cut = some piece) :
    piece.text ++ piece.after.rest = s.rest := by
  obtain ⟨⟨rule, length⟩, -, rfl⟩ := Option.map_eq_some_iff.1 h
  exact List.take_append_drop _ _

/-- Cutting a piece from a text that is not empty leaves less of it. -/
theorem cut_length_lt {s : State} {piece : Piece} (hs : s.rest ≠ []) (h : s.cut = some piece) :
    piece.after.rest.length < s.rest.length := by
  obtain ⟨⟨rule, length⟩, hbest, rfl⟩ := Option.map_eq_some_iff.1 h
  have hpos := bestRule_pos hbest
  have := List.length_pos_iff.2 hs
  simp only [List.length_drop]
  omega

/-- The next token and the state behind it. At the end of the source that is an empty token, however
often it is asked for. -/
def next (s : State) : Except Unmatched (Token × State) :=
  match _ : s.rest with
  | [] => .ok (⟨.endOfInput, "", Span.emptyAt s.offset⟩, s)
  | c :: _ =>
    match _ : s.cut with
    | none => .error ⟨c, s.offset⟩
    | some piece =>
      match piece.rule.kind with
      | none => piece.after.next
      | some kind =>
        .ok (⟨kind, String.ofList piece.text, Span.between s.offset piece.after.offset⟩,
          piece.after)
termination_by s.rest.length
decreasing_by exact cut_length_lt (by simp [‹s.rest = _›]) ‹s.cut = _›

/-- A token before the end of the source leaves less of the source behind. -/
theorem next_length_lt {s s' : State} {token : Token} (h : s.next = .ok (token, s'))
    (hkind : token.kind ≠ .endOfInput) : s'.rest.length < s.rest.length := by
  fun_induction next s with
  | case1 s hrest =>
    obtain ⟨rfl, -⟩ := Prod.mk.inj (Except.ok.inj h)
    exact absurd rfl hkind
  | case2 => cases h
  | case3 s c cs hrest piece hcut hnone ih =>
    have := cut_length_lt (by simp [hrest]) hcut
    have := ih h
    omega
  | case4 s c cs hrest piece hcut kind hkind' =>
    obtain ⟨-, rfl⟩ := Prod.mk.inj (Except.ok.inj h)
    exact cut_length_lt (by simp [hrest]) hcut

/-- All tokens from a state on, the one at the end of the source included. -/
def tokens (s : State) : Except Unmatched (List Token) :=
  match _ : s.next with
  | .error unmatched => .error unmatched
  | .ok (token, s') =>
    if _ : token.kind = .endOfInput then .ok [token]
    else (s'.tokens).map (token :: ·)
termination_by s.rest.length
decreasing_by exact next_length_lt ‹s.next = _› ‹¬ _›

end State

/-- The tokens of a source. -/
def tokenize (source : String) : Except Unmatched (List Token) :=
  (State.start source).tokens

end BlockDiagram.Lexer
