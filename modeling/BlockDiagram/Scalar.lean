/-!
# Scalars

The numbers that diagrams are measured in. Everything about sizes and places is written for any kind
of scalar, and is computed with single-precision numbers: every operation rounds its result to one
of them, and the operations that are one step for a reader are rounded once. Sizes and places need
no more than arithmetic; where lines end at shapes also depends on lengths and angles.
-/

namespace BlockDiagram

/-- Numbers that diagrams can be measured in. -/
class Scalar (α : Type) extends Add α, Sub α, Mul α, Div α, Neg α, LT α, LE α, BEq α where
  decidableLT (x y : α) : Decidable (x < y)
  decidableLE (x y : α) : Decidable (x ≤ y)
  /-- The number with the given digits; the flag says whether the power of ten divides. -/
  ofScientific (mantissa : Nat) (divides : Bool) (exponent : Nat) : α
  /-- The larger of two numbers; a missing number loses. -/
  larger (x y : α) : α
  /-- The smaller of two numbers; a missing number loses. -/
  smaller (x y : α) : α
  /-- The number without its sign. -/
  abs (x : α) : α
  /-- Holds unless the number is missing or beyond all bounds. -/
  isFinite (x : α) : Bool

/-- Scalars in which lines can be cut off at the outlines of shapes. -/
class MetricScalar (α : Type) extends Scalar α where
  /-- The length of the hypotenuse over two sides. -/
  hypot (x y : α) : α
  /-- The value of `x * y + z`, rounded once. -/
  mulAdd (x y z : α) : α
  /-- The cosine and the sine of the angle that the direction `(x, y)` has. -/
  heading (x y : α) : α × α
  /-- The distance from one to the next larger number. -/
  epsilon : α
  /-- The largest number. -/
  largest : α

namespace Scalar

variable {α : Type} [Scalar α]

instance (x y : α) : Decidable (x < y) := decidableLT x y

instance (x y : α) : Decidable (x ≤ y) := decidableLE x y

-- Numbers that have numerals of their own keep them.
instance (priority := 50) : OfScientific α := ⟨ofScientific⟩

instance (priority := 50) (n : Nat) : OfNat α n := ⟨ofScientific n false 0⟩

/-- The number that counts `n` things. -/
def ofNat (n : Nat) : α :=
  ofScientific n false 0

end Scalar

namespace Single

/-- The larger number, or the only one that is there. -/
def larger (x y : Float32) : Float32 :=
  if x.isNaN then y else if y.isNaN then x else if x < y then y else x

/-- The smaller number, or the only one that is there. -/
def smaller (x y : Float32) : Float32 :=
  if x.isNaN then y else if y.isNaN then x else if y < x then y else x

/-- The hypotenuse, with the squares and their sum taken in double precision. An infinite side makes
it infinite, whatever the other one is. -/
def hypot (x y : Float32) : Float32 :=
  if x.isInf then x.abs
  else if y.isInf then y.abs
  else (x.toFloat * x.toFloat + y.toFloat * y.toFloat).sqrt.toFloat32

/-- A sum in double precision whose last bit is set whenever the sum is not exact. A number rounded
like that can be rounded once more to single precision as if it were exact. -/
def addToOdd (x y : Float) : Float :=
  let sum := x + y
  let y' := sum - x
  let x' := sum - y'
  let error := (x - x') + (y - y')
  let bits := sum.toBits
  if !sum.isFinite || error == 0 || bits % 2 == 1 then sum
  else if (error > 0) == (sum > 0) then Float.ofBits (bits + 1)
  else Float.ofBits (bits - 1)

/-- The value of `x * y + z`, rounded once. The product is exact in double precision. -/
def mulAdd (x y z : Float32) : Float32 :=
  (addToOdd (x.toFloat * y.toFloat) z.toFloat).toFloat32

/-- The cosine and the sine of the angle of a direction. -/
def heading (x y : Float32) : Float32 × Float32 :=
  let angle := y.atan2 x
  (angle.cos, angle.sin)

/-- Pictures are computed in single precision. -/
instance : MetricScalar Float32 where
  decidableLT := inferInstance
  decidableLE := inferInstance
  ofScientific := OfScientific.ofScientific
  larger := larger
  smaller := smaller
  abs := Float32.abs
  isFinite := Float32.isFinite
  hypot := hypot
  mulAdd := mulAdd
  heading := heading
  epsilon := Float32.ofBits 0x34000000
  largest := Float32.ofBits 0x7f7fffff

end Single

end BlockDiagram
