import BlockDiagram.Decimal.Single
import BlockDiagram.Setting
import BlockDiagram.Text.Pieces
import BlockDiagram.Toml.Moment

/-!
# Words of TOML texts

Numbers, flags, dates and times, each of which is written as one word. Underscores may stand between
digits; apart from a single zero no number starts with the digit zero.
-/

namespace BlockDiagram.Toml

/-- The digits in a text where underscores stand between digits only. -/
def digits? (isDigit : Char → Bool) (cs : List Char) : Option (List Char) :=
  let groups := Text.pieces '_' cs
  if groups.all fun group ↦ !group.isEmpty && group.all isDigit then some groups.flatten else none

/-- The digits of a number without needless zeros in front. -/
def wholeDigits? (cs : List Char) : Option (List Char) :=
  match digits? Char.isDigit cs with
  | some ('0' :: _ :: _) => none
  | digits => digits

/-- The value of a digit in a base up to sixteen. -/
def digitValue (c : Char) : Nat :=
  if c.isDigit then c.toNat - '0'.toNat else c.toLower.toNat - 'a'.toNat + 10

/-- The number that digits of a base stand for. -/
def numberIn (base : Nat) (digits : List Char) : Nat :=
  digits.foldl (fun n c ↦ base * n + digitValue c) 0

/-- Holds for the digits of a base up to sixteen. -/
def isDigitIn (base : Nat) (c : Char) : Bool :=
  (c.isDigit || ('a' ≤ c.toLower && c.toLower ≤ 'f')) && digitValue c < base

/-- Holds for the whole numbers that fit into 128 bits, with or without a sign. -/
def isInRange (n : Int) : Bool :=
  -0x80000000000000000000000000000000 ≤ n && n < 0x100000000000000000000000000000000

/-- The whole number of a word. -/
def integer? (cs : List Char) : Option Int := do
  let n : Int ← match cs with
    | '0' :: 'x' :: cs => (digits? (isDigitIn 16) cs).map fun digits ↦ numberIn 16 digits
    | '0' :: 'o' :: cs => (digits? (isDigitIn 8) cs).map fun digits ↦ numberIn 8 digits
    | '0' :: 'b' :: cs => (digits? (isDigitIn 2) cs).map fun digits ↦ numberIn 2 digits
    | _ =>
      let (negative, magnitude) := Decimal.takeSign cs
      (wholeDigits? magnitude).map fun digits ↦
        if negative then -(numberIn 10 digits : Int) else numberIn 10 digits
  guard (isInRange n)
  return n

/-- The exponent of a number. -/
def exponent? (cs : List Char) : Option Int := do
  let (negative, magnitude) := Decimal.takeSign cs
  let n : Int := numberIn 10 (← digits? Char.isDigit magnitude)
  return if negative then -n else n

/-- The digits on both sides of a point. There is at least one on each side; only in front of an
exponent there may be no point. -/
def mantissa? (cs : List Char) (hasExponent : Bool) : Option (List Char × List Char) := do
  match Text.splitFirst? '.' cs with
  | none =>
    guard hasExponent
    return (← wholeDigits? cs, [])
  | some (whole, fraction) => return (← wholeDigits? whole, ← digits? Char.isDigit fraction)

/-- The number of a word that has a point or an exponent, or is infinite or missing. A number that is
written in digits and too large is none. -/
def decimal? (cs : List Char) : Option Float := do
  let (negative, magnitude) := Decimal.takeSign cs
  if magnitude = "inf".toList then return if negative then -1 / 0 else 1 / 0
  if magnitude = "nan".toList then return 0 / 0
  let (mantissa, exponent) ← match Text.splitFirst? 'e' (magnitude.map Char.toLower) with
    | none => pure (magnitude, none)
    | some (mantissa, exponent) => pure (mantissa, some (← exponent? exponent))
  let (whole, fraction) ← mantissa? mantissa exponent.isSome
  let x := Decimal.Written.toDouble { negative, whole, fraction, exponent := exponent.getD 0 }
  guard x.isFinite
  return x

/-- The value of a word. -/
def word? (cs : List Char) : Option Setting :=
  if cs = "true".toList then some (.flag true)
  else if cs = "false".toList then some (.flag false)
  else
    match integer? cs with
    | some n => some (.integer n)
    | none =>
      match decimal? cs with
      | some x => some (.decimal x)
      | none => if isMoment cs then some (.date (String.ofList cs)) else none

/-- Holds for the characters of words. -/
def isWordChar (c : Char) : Bool :=
  c.isAlphanum || c = '_' || c = '+' || c = '-' || c = '.' || c = ':'

/-- The word at the front of a text, and what follows it. One blank may stand between a date and a
time. -/
def takeWord (cs : List Char) : List Char × List Char :=
  let word := cs.takeWhile isWordChar
  match cs.dropWhile isWordChar with
  | ' ' :: c :: rest =>
    if isDate word && c.isDigit then
      (word ++ ' ' :: (c :: rest).takeWhile isWordChar, (c :: rest).dropWhile isWordChar)
    else (word, ' ' :: c :: rest)
  | rest => (word, rest)

end BlockDiagram.Toml
