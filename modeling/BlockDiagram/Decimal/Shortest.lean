/-!
# The shortest decimal

The decimal with the fewest digits that reads back as a given binary number. A binary number stands
for all real numbers that round to it. On each grid of decimals, from coarse to fine, its two
neighbours are tested for being one of those, in exact arithmetic; the first grid with a hit gives
the digits, and of two hits the nearer one. Where both are equally near, a rule decides.
-/

namespace BlockDiagram.Decimal

/-- The positive number `mantissa * 2 ^ exponent`, and what lies next to it. -/
structure Binary where
  mantissa : Nat
  exponent : Int
  /-- Whether the next smaller number is only half as far away as the next larger one. -/
  narrowBelow : Bool
  deriving DecidableEq, Repr

/-- A decimal number `digits * 10 ^ exponent`. -/
structure Digits where
  digits : Nat
  exponent : Int
  deriving DecidableEq, Repr

/-- Which one of two decimals is taken that are equally near. -/
inductive Tie where
  /-- The one with an even last digit. -/
  | toEven
  /-- The larger one. -/
  | up
  deriving DecidableEq, Repr

/-- Holds when the smaller one of two neighbours is taken. -/
def Tie.takesBelow (below : Nat) : Tie → Bool
  | toEven => below % 2 = 0
  | up => false

/-- A positive rational number. -/
structure Ratio where
  num : Nat
  den : Nat
  deriving DecidableEq, Repr

namespace Ratio

/-- A whole number times a power. -/
def scaled (n base : Nat) (exponent : Int) : Ratio :=
  if 0 ≤ exponent then ⟨n * base.pow exponent.toNat, 1⟩ else ⟨n, base.pow (-exponent).toNat⟩

/-- Holds when the first number is smaller. -/
def lt (a b : Ratio) : Bool :=
  a.num * b.den < b.num * a.den

/-- Holds when the first number is not larger. -/
def le (a b : Ratio) : Bool :=
  a.num * b.den ≤ b.num * a.den

/-- The distance of two numbers. -/
def distance (a b : Ratio) : Ratio :=
  let x := a.num * b.den
  let y := b.num * a.den
  ⟨if x ≤ y then y - x else x - y, a.den * b.den⟩

/-- The whole part of a number divided by a power of ten. -/
def quotientPow10 (a : Ratio) (exponent : Int) : Nat :=
  if 0 ≤ exponent then a.num / (a.den * Nat.pow 10 exponent.toNat)
  else a.num * Nat.pow 10 (-exponent).toNat / a.den

end Ratio

namespace Binary

/-- The number itself. -/
def value (b : Binary) : Ratio :=
  .scaled (4 * b.mantissa) 2 (b.exponent - 2)

/-- Half way to the next larger number. -/
def upper (b : Binary) : Ratio :=
  .scaled (4 * b.mantissa + 2) 2 (b.exponent - 2)

/-- Half way to the next smaller number. -/
def lower (b : Binary) : Ratio :=
  .scaled (4 * b.mantissa - (if b.narrowBelow then 1 else 2)) 2 (b.exponent - 2)

/-- Holds for the numbers that round to `b`; half way goes to an even mantissa. -/
def roundsFrom (b : Binary) (r : Ratio) : Bool :=
  if b.mantissa % 2 = 0 then b.lower.le r && r.le b.upper else b.lower.lt r && r.lt b.upper

/-- The hit on the grid of multiples of `10 ^ exponent` that is nearest to `b`. -/
def onGrid? (b : Binary) (tie : Tie) (exponent : Int) : Option Digits :=
  let below := b.value.quotientPow10 exponent
  let hit (n : Nat) : Bool := b.roundsFrom (.scaled n 10 exponent)
  let distance (n : Nat) : Ratio := b.value.distance (.scaled n 10 exponent)
  match hit below, hit (below + 1) with
  | false, false => none
  | true, false => some ⟨below, exponent⟩
  | false, true => some ⟨below + 1, exponent⟩
  | true, true =>
    let toBelow := distance below
    let toAbove := distance (below + 1)
    if toBelow.lt toAbove || (toBelow.le toAbove && tie.takesBelow below) then
      some ⟨below, exponent⟩
    else some ⟨below + 1, exponent⟩

/-- The first hit on the grids from `10 ^ exponent` on down, of which there are `count`. -/
def firstHit? (b : Binary) (tie : Tie) : Nat → Int → Option Digits
  | 0, _ => none
  | count + 1, exponent =>
    match b.onGrid? tie exponent with
    | some digits =>
      if digits.digits = 0 then firstHit? b tie count (exponent - 1) else some digits
    | none => firstHit? b tie count (exponent - 1)

/-- A power of ten above the number: no number has more decimal than binary places. -/
def leadingExponent (b : Binary) : Int :=
  let length : Int := Nat.log2 b.mantissa + 1 + b.exponent
  if 0 ≤ length then length * 302 / 1000 + 1 else length * 301 / 1000 + 1

/-- The decimal with the fewest digits among those that round to `b`. -/
def shortest (b : Binary) (tie : Tie) : Digits :=
  (b.firstHit? tie 24 b.leadingExponent).getD ⟨0, 0⟩

end Binary

end BlockDiagram.Decimal
