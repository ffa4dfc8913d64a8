import BlockDiagram.Decimal.Digits
import BlockDiagram.Decimal.Shortest

/-!
# Writing decimals

Where the point goes. A layout decides which numbers are written without an exponent, whether whole
numbers keep a fraction, and which one of two equally near decimals is written.
-/

namespace BlockDiagram.Decimal

/-- How decimals are written. The exponent meant here is that of the first digit. -/
structure Layout where
  /-- The exponents of the numbers that are written without one; all of them if absent. -/
  positional : Option (Int × Int)
  /-- Whether a whole number ends in a point and a zero. -/
  keepsFraction : Bool
  /-- Which one of two equally near decimals stands for a binary number. -/
  tie : Tie
  deriving DecidableEq, Repr

namespace Layout

/-- The digits with the point `point` places behind the first of them. -/
def place (layout : Layout) (digits : List Char) (point : Int) : List Char :=
  if point ≤ 0 then
    '0' :: '.' :: (List.replicate (-point).toNat '0' ++ digits)
  else if point.toNat < digits.length then
    digits.take point.toNat ++ '.' :: digits.drop point.toNat
  else
    digits ++ List.replicate (point.toNat - digits.length) '0' ++
      (if layout.keepsFraction then ['.', '0'] else [])

/-- The digits with the point behind the first of them, and an exponent. -/
def withExponent (digits : List Char) (exponent : Int) : List Char :=
  let mantissa :=
    match digits with
    | first :: second :: rest => first :: '.' :: second :: rest
    | _ => digits
  let sign := if exponent < 0 then ['-'] else ['+']
  mantissa ++ 'e' :: (sign ++ decimalDigits exponent.natAbs)

/-- The text of a decimal. -/
def write (layout : Layout) (d : Digits) : List Char :=
  let digits := decimalDigits d.digits
  let point := d.exponent + digits.length
  let exponent := point - 1
  let isPositional := layout.positional.all fun (first, last) ↦ first ≤ exponent && exponent ≤ last
  if d.digits = 0 then layout.place ['0'] 1
  else if isPositional then layout.place digits point
  else withExponent digits exponent

end Layout

end BlockDiagram.Decimal
