import BlockDiagram.Decimal.Layout

/-!
# Decimals and single-precision numbers

Reading a decimal gives the number nearest to it; writing gives the shortest decimal that reads back.
Decimals with a point pass through double precision on the way in.
-/

namespace BlockDiagram.Decimal

/-- The number without its sign, unless it is zero, infinite or missing. -/
def Binary.ofSingle? (x : Float32) : Option Binary :=
  let bits := x.toBits.toNat % 0x80000000
  let fraction := bits % 0x800000
  let exponent : Nat := bits / 0x800000
  if bits = 0 || exponent = 255 then none
  else if exponent = 0 then some ⟨fraction, -149, false⟩
  else some ⟨0x800000 + fraction, (exponent : Int) - 150, fraction = 0 && 1 < exponent⟩

/-- Holds for the numbers with a minus sign, zero among them. -/
def isNegative (x : Float32) : Bool :=
  0x80000000 ≤ x.toBits.toNat

/-- The text of a number, which is not infinite or missing. -/
def writeFinite (layout : Layout) (x : Float32) : List Char :=
  let sign := if isNegative x then ['-'] else []
  let digits := ((Binary.ofSingle? x).map (·.shortest layout.tie)).getD ⟨0, 0⟩
  sign ++ layout.write digits

/-- The layout of numbers in messages and drawings: no exponents, no fraction without digits, and the
larger one of two equally near decimals. -/
def plain : Layout where
  positional := none
  keepsFraction := false
  tie := .up

/-- The text of a number in messages and drawings. -/
def showSingle (x : Float32) : String :=
  if x.isNaN then "NaN"
  else if x.isInf then (if isNegative x then "-inf" else "inf")
  else String.ofList (writeFinite plain x)

/-- The double-precision number nearest to `mantissa * 10 ^ exponent`. Outside of some hundred
powers of ten it is zero or infinite. -/
def nearestDouble (mantissa : Nat) (exponent : Int) : Float :=
  let magnitude := exponent + (decimalDigits mantissa).length
  if mantissa = 0 || magnitude < -400 then 0
  else if 400 < magnitude then 1 / 0
  else if 0 ≤ exponent then Float.ofScientific mantissa false exponent.toNat
  else Float.ofScientific mantissa true (-exponent).toNat

/-- A decimal as it is written: sign, digits before and behind the point, and exponent. -/
structure Written where
  negative : Bool
  whole : List Char
  fraction : List Char
  exponent : Int
  deriving DecidableEq, Repr

namespace Written

/-- The double-precision number nearest to a decimal. -/
def toDouble (w : Written) : Float :=
  let magnitude := nearestDouble (numberOfDigits (w.whole ++ w.fraction))
    (w.exponent - w.fraction.length)
  if w.negative then -magnitude else magnitude

end Written

/-- A sign at the front of a text, and what follows it. -/
def takeSign : List Char → Bool × List Char
  | '-' :: cs => (true, cs)
  | '+' :: cs => (false, cs)
  | cs => (false, cs)

/-- An exponent at the front of a text, and what follows it; zero when there is none. -/
def takeExponent (cs : List Char) : Int × List Char :=
  match cs with
  | [] => (0, cs)
  | e :: rest =>
    if e = 'e' || e = 'E' then
      let (negative, rest) := takeSign rest
      let digits := rest.takeWhile Char.isDigit
      if digits.isEmpty then (0, cs)
      else
        let n : Int := numberOfDigits digits
        (if negative then -n else n, rest.dropWhile Char.isDigit)
    else (0, cs)

/-- A decimal at the front of a text, and what follows it. A point counts only with a digit behind
it, an exponent likewise. -/
def takeWritten? (cs : List Char) : Option (Written × List Char) :=
  let (negative, rest) := takeSign cs
  let whole := rest.takeWhile Char.isDigit
  let rest := rest.dropWhile Char.isDigit
  let (fraction, rest) :=
    match rest with
    | '.' :: behind =>
      let digits := behind.takeWhile Char.isDigit
      if digits.isEmpty then ([], rest) else (digits, behind.dropWhile Char.isDigit)
    | _ => ([], rest)
  if whole.isEmpty && fraction.isEmpty then none
  else
    let (exponent, rest) := takeExponent rest
    some (⟨negative, whole, fraction, exponent⟩, rest)

end BlockDiagram.Decimal
