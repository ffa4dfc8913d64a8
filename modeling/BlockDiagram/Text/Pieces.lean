/-!
# Cutting and searching text

Lines, separated lists, the first occurrence of a word. All of them work on the characters of a
text; `flatten_pieces` shows that cutting at a separator loses nothing but the separators.
-/

namespace BlockDiagram.Text

/-- The lines of a text. A line ends at a newline, which takes one carriage return before it along;
no empty line follows the last newline. -/
def lines : List Char → List (List Char)
  | [] => []
  | '\n' :: cs => [] :: lines cs
  | '\r' :: '\n' :: cs => [] :: lines cs
  | c :: cs =>
    match lines cs with
    | [] => [[c]]
    | line :: rest => (c :: line) :: rest

/-- The runs between the occurrences of `separator`; at least one, and each possibly empty. -/
def pieces (separator : Char) : List Char → List (List Char)
  | [] => [[]]
  | c :: cs =>
    if c = separator then [] :: pieces separator cs
    else
      match pieces separator cs with
      | [] => [[c]]
      | piece :: rest => (c :: piece) :: rest

/-- The texts before and after the first occurrence of `separator`. -/
def splitFirst? (separator : Char) : List Char → Option (List Char × List Char)
  | [] => none
  | c :: cs =>
    if c = separator then some ([], cs)
    else (splitFirst? separator cs).map fun (before, after) ↦ (c :: before, after)

/-- Holds when `word` occurs somewhere in the text. -/
def occurs (word : List Char) : List Char → Bool
  | [] => word.isEmpty
  | c :: cs => word.isPrefixOf (c :: cs) || occurs word cs

/-- The text with the first occurrence of `word` exchanged for `replacement`. -/
def replaceFirst (word replacement : List Char) : List Char → List Char
  | [] => if word.isEmpty then replacement else []
  | c :: cs =>
    if word.isPrefixOf (c :: cs) then replacement ++ (c :: cs).drop word.length
    else c :: replaceFirst word replacement cs

/-- There is a piece of every text. -/
theorem pieces_ne_nil (separator : Char) (cs : List Char) : pieces separator cs ≠ [] := by
  cases cs with
  | nil => simp [pieces]
  | cons c cs =>
    rw [pieces]
    split
    · simp
    · split <;> simp

/-- Joining the pieces with the separator gives the text back. -/
theorem flatten_pieces (separator : Char) (cs : List Char) :
    ((pieces separator cs).intersperse [separator]).flatten = cs := by
  induction cs with
  | nil => rfl
  | cons c cs ih =>
    rw [pieces]
    split
    · rename_i h
      cases hp : pieces separator cs with
      | nil => exact absurd hp (pieces_ne_nil _ _)
      | cons piece rest =>
        rw [hp] at ih
        simp [List.intersperse, h, ih]
    · cases hp : pieces separator cs with
      | nil => exact absurd hp (pieces_ne_nil _ _)
      | cons piece rest =>
        rw [hp] at ih
        cases rest with
        | nil => simpa using ih
        | cons next rest => simpa using ih

end BlockDiagram.Text
