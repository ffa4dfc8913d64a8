import BlockDiagram.Toml.Scalar

/-!
# Texts of TOML

Texts between quotation marks. Double marks let a backslash introduce escapes; between single ones
every character stands for itself. Three marks on each side let a text go on over lines; a line end
right behind the marks in front does not count.
-/

namespace BlockDiagram.Toml

/-- Holds for the characters that comments and texts may hold. -/
def isPrintable (c : Char) : Bool :=
  c = '\t' || (0x20 ≤ c.toNat && c.toNat != 0x7f)

/-- The escapes of two characters, by the second one. -/
def shortEscapes : List (Char × Char) :=
  [('b', '\x08'), ('t', '\t'), ('n', '\n'), ('f', '\x0c'), ('r', '\r'), ('e', '\x1b'),
    ('\x22', '\x22'), ('\\', '\\')]

/-- The escapes by code point: the letter behind the backslash and the number of its digits. -/
def codeEscapes : List (Char × Nat) := [('x', 2), ('u', 4), ('U', 8)]

/-- The character of a code point. -/
def charOf? (n : Nat) : Option Char :=
  if h : n.isValidChar then some (Char.ofNatAux n h) else none

/-- The character that an escape stands for, and what follows it. The backslash is read already. -/
def takeEscape? : List Char → Option (Char × List Char)
  | [] => none
  | c :: cs =>
    match codeEscapes.lookup c with
    | none => (shortEscapes.lookup c).map fun escaped ↦ (escaped, cs)
    | some count => do
      let digits := cs.take count
      guard (digits.length = count && digits.all (isDigitIn 16))
      return (← charOf? (numberIn 16 digits), cs.drop count)

/-- What follows a line end at the front of a text. -/
def afterLineEnd? : List Char → Option (List Char)
  | '\n' :: cs => some cs
  | '\r' :: '\n' :: cs => some cs
  | _ => none

/-- Holds for the blanks inside a line. -/
def isBlank (c : Char) : Bool :=
  c = ' ' || c = '\t'

/-- The text behind blanks and line ends. -/
def skipBlankLines : Nat → List Char → List Char
  | 0, cs => cs
  | fuel + 1, cs =>
    let cs := cs.dropWhile isBlank
    match afterLineEnd? cs with
    | some cs => skipBlankLines fuel cs
    | none => cs

/-- The text behind a backslash that ends its line, and behind all blanks and line ends after it. -/
def afterContinuation? (cs : List Char) : Option (List Char) := do
  let rest ← afterLineEnd? (cs.dropWhile isBlank)
  return skipBlankLines rest.length rest

/-- A way to write texts. -/
structure Quotation where
  mark : Char
  /-- Whether a backslash introduces escapes. -/
  escapes : Bool
  /-- Whether texts go on over lines. -/
  multiline : Bool

namespace Quotation

/-- All ways. -/
def all : List Quotation :=
  [⟨'\x22', true, true⟩, ⟨'\x27', false, true⟩, ⟨'\x22', true, false⟩, ⟨'\x27', false, false⟩]

/-- The ways that keep to a line. -/
def onOneLine : List Quotation :=
  all.filter fun q ↦ !q.multiline

/-- The marks in front of a text. -/
def opening (q : Quotation) : List Char :=
  List.replicate (if q.multiline then 3 else 1) q.mark

/-- The text up to the marks that end it, and what follows them. The two marks in front of the last
three belong to a text over lines. The characters read so far are in `done`, the last one first. -/
def takeRest? (q : Quotation) : Nat → List Char → List Char → Option (List Char × List Char)
  | 0, _, _ => none
  | _, _, [] => none
  | fuel + 1, done, c :: cs =>
    if c = q.mark then
      let more := cs.takeWhile (· = q.mark)
      if !q.multiline then some (done.reverse, cs)
      else if 2 ≤ more.length then
        let kept := min (more.length - 2) 2
        some (done.reverse ++ List.replicate kept q.mark, cs.drop (2 + kept))
      else q.takeRest? fuel (c :: done) cs
    else if q.escapes && c = '\\' then
      match (if q.multiline then afterContinuation? cs else none) with
      | some rest => q.takeRest? fuel done rest
      | none => do
        let (escaped, rest) ← takeEscape? cs
        q.takeRest? fuel (escaped :: done) rest
    else if isPrintable c || (q.multiline && (afterLineEnd? (c :: cs)).isSome) then
      q.takeRest? fuel (c :: done) cs
    else none

/-- The text at the front of `cs`, and what follows it. -/
def take? (q : Quotation) (cs : List Char) : Option (List Char × List Char) :=
  let cs := cs.drop q.opening.length
  let cs := if q.multiline then (afterLineEnd? cs).getD cs else cs
  q.takeRest? (cs.length + 1) [] cs

end Quotation

/-- The way in which the text at the front of `cs` is written, if there is one. -/
def quotation? (ways : List Quotation) (cs : List Char) : Option Quotation :=
  ways.find? fun q ↦ q.opening.isPrefixOf cs

end BlockDiagram.Toml
