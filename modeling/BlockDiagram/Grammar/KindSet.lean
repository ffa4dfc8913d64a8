import BlockDiagram.Token

/-!
# Sets of token kinds

A set of kinds as a number whose bits are the kinds in it. `contains_union` and `contains_single` say
what is in the sets that are built here.
-/

namespace BlockDiagram.Grammar

open Token (Kind)

/-- A set of token kinds; bit `i` stands for the kind with index `i`. -/
structure KindSet where
  bits : Nat
  deriving DecidableEq, Repr

namespace KindSet

/-- The set without kinds. -/
def empty : KindSet := ⟨0⟩

/-- The set of one kind. -/
def single (kind : Kind) : KindSet := ⟨1 <<< kind.index⟩

/-- The kinds of either set. -/
def union (s t : KindSet) : KindSet := ⟨s.bits ||| t.bits⟩

/-- Holds for the kinds in the set. -/
def contains (s : KindSet) (kind : Kind) : Bool :=
  s.bits.testBit kind.index

/-- The kinds in the set, in declaration order. -/
def toList (s : KindSet) : List Kind :=
  Kind.all.filter s.contains

/-- No kind is in the empty set. -/
@[simp] theorem contains_empty (kind : Kind) : empty.contains kind = false := by
  simp [empty, contains]

/-- A kind is in a union if it is in one of both sets. -/
@[simp] theorem contains_union (s t : KindSet) (kind : Kind) :
    (s.union t).contains kind = (s.contains kind || t.contains kind) := by
  simp [union, contains, Nat.testBit_or]

/-- A set of a single kind has no other kind in it. -/
theorem contains_single (kind other : Kind) :
    (single kind).contains other = decide (other = kind) := by
  cases kind <;> cases other <;> rfl

end KindSet

end BlockDiagram.Grammar
