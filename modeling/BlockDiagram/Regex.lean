/-!
# Regular expressions

Expressions over characters, what they match and how they are read. `Matches` is the meaning of an
expression on its own. `scan` reads an expression off the front of a text and never looks back, so
what it finds need not be the longest match: that depends on the expression.

A match may depend on what comes after it: `wordEnd` holds only where no word character follows.
-/

namespace BlockDiagram

/-- Holds for the characters that make up words. -/
def isWordChar (c : Char) : Bool :=
  c.isAlphanum || c == '_'

/-- A regular expression over characters. -/
inductive Regex where
  /-- Matches nothing. -/
  | never
  /-- Matches the empty text. -/
  | nothing
  /-- Matches the empty text where the next character does not continue a word. -/
  | wordEnd
  /-- Matches one character of a class. -/
  | char (accepts : Char → Bool)
  /-- Matches one expression and then another. -/
  | seq (first second : Regex)
  /-- Matches either of two expressions. -/
  | either (left right : Regex)
  /-- Matches any number of repetitions. -/
  | many (r : Regex)
  deriving Inhabited

namespace Regex

/-- The meaning of expressions: `Matches r text after` holds when `r` matches the whole of `text` in
front of `after`. -/
inductive Matches : Regex → List Char → List Char → Prop where
  | nothing {after} : Matches nothing [] after
  | wordEnd {after} (h : ∀ c ∈ after.head?, isWordChar c = false) : Matches wordEnd [] after
  | char {accepts c after} (h : accepts c = true) : Matches (char accepts) [c] after
  | seq {r s front back after} (hr : Matches r front (back ++ after))
      (hs : Matches s back after) : Matches (seq r s) (front ++ back) after
  | left {r s text after} (h : Matches r text after) : Matches (either r s) text after
  | right {r s text after} (h : Matches s text after) : Matches (either r s) text after
  | stop {r after} : Matches (many r) [] after
  | more {r front back after} (hr : Matches r front (back ++ after))
      (hs : Matches (many r) back after) : Matches (many r) (front ++ back) after

/-- One expression and then another, without the parts that make no difference. -/
def andThen : Regex → Regex → Regex
  | never, _ => never
  | nothing, s => s
  | r, s => seq r s

/-! ### Reading -/

/-- Reads off the front of a text for as long as that takes something from it. -/
def repeated (read : List Char → Option (List Char)) (text : List Char) : List Char :=
  match read text with
  | some rest => if rest.length < text.length then repeated read rest else text
  | none => text
termination_by text.length

/-- Reads an expression off the front of a text, and returns what is left. Nothing is ever given
back: of two expressions the first one that can be read counts, and a repetition goes on for as long
as it can. -/
def scan : Regex → List Char → Option (List Char)
  | never, _ => none
  | nothing, text => some text
  | wordEnd, text => if text.head?.all fun c ↦ !isWordChar c then some text else none
  | char _, [] => none
  | char accepts, c :: cs => if accepts c then some cs else none
  | seq r s, text => (r.scan text).bind s.scan
  | either r s, text => (r.scan text).or (s.scan text)
  | many r, text => some (repeated r.scan text)

/-! ### Building blocks -/

/-- One given character. -/
def just (c : Char) : Regex :=
  char (· == c)

/-- One character of a list. -/
def oneOf (cs : List Char) : Regex :=
  char cs.contains

/-- A given text. -/
def literal (text : String) : Regex :=
  text.toList.foldr (fun c r ↦ (just c).andThen r) nothing

/-- All expressions of a list, one after the other. -/
def inOrder : List Regex → Regex
  | [] => nothing
  | [r] => r
  | r :: rs => seq r (inOrder rs)

/-- Any expression of a list. -/
def anyOf : List Regex → Regex
  | [] => never
  | [r] => r
  | r :: rs => either r (anyOf rs)

/-- An expression or nothing. -/
def optional (r : Regex) : Regex :=
  either r nothing

/-- At least one repetition. -/
def atLeastOnce (r : Regex) : Regex :=
  seq r (many r)

end Regex

end BlockDiagram
