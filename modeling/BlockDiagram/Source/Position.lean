/-!
# Positions

Lines and columns of byte offsets, both counted from one, columns in characters. An offset inside a
character has the position of that character, and one past the end has the position of the end.
-/

namespace BlockDiagram.Source

/-- A line and a column, counted from one. -/
structure Position where
  line : Nat
  column : Nat
  deriving DecidableEq, Repr

namespace Position

/-- The position of the first character. -/
def first : Position := ⟨1, 1⟩

/-- The position after `c`, when `c` itself is at `p`. -/
def after (p : Position) (c : Char) : Position :=
  if c = '\n' then ⟨p.line + 1, 1⟩ else ⟨p.line, p.column + 1⟩

/-- The position reached from `p` by stepping over the characters that end within `bytes`. -/
def advance (p : Position) (bytes : Nat) : List Char → Position
  | [] => p
  | c :: cs => if c.utf8Size ≤ bytes then (p.after c).advance (bytes - c.utf8Size) cs else p

/-- The position of a byte offset in `source`. -/
def locate (source : String) (offset : Nat) : Position :=
  first.advance offset source.toList

/-- The position as messages show it. -/
protected def toString (p : Position) : String :=
  s!"{p.line}:{p.column}"

/-- Nothing is stepped over with no bytes to spend, as every character takes at least one. -/
theorem advance_zero (p : Position) (cs : List Char) : p.advance 0 cs = p := by
  cases cs with
  | nil => rfl
  | cons c cs =>
    have := c.utf8Size_pos
    rw [advance, if_neg (by omega)]

end Position

end BlockDiagram.Source
