/-!
# Spans

Half-open ranges of byte offsets into a source text. A span never ends before it starts; the field
`start_le_stop` says so, and every way to build a span keeps it.
-/

namespace BlockDiagram.Source

/-- The byte offsets from `start` up to, but not including, `stop`. -/
structure Span where
  start : Nat
  stop : Nat
  start_le_stop : start ≤ stop := by omega
  deriving DecidableEq, Repr

namespace Span

/-- The range between two offsets; an end before the start counts as the start. -/
def between (start stop : Nat) : Span where
  start := start
  stop := max stop start
  start_le_stop := by omega

/-- The empty span in front of an offset. -/
def emptyAt (offset : Nat) : Span where
  start := offset
  stop := offset

/-- The number of bytes covered. -/
def length (s : Span) : Nat :=
  s.stop - s.start

/-- Holds when no byte is covered. -/
def isEmpty (s : Span) : Bool :=
  s.start == s.stop

/-- The smallest span that covers both. -/
def union (s t : Span) : Span where
  start := min s.start t.start
  stop := max s.stop t.stop
  start_le_stop := by
    have := s.start_le_stop
    omega

/-- The union of two places starts where the first of them does. -/
@[simp] theorem start_union (s t : Span) : (s.union t).start = min s.start t.start := rfl

/-- The union of two places stops where the last of them does. -/
@[simp] theorem stop_union (s t : Span) : (s.union t).stop = max s.stop t.stop := rfl

end Span

/-- A value together with the part of the source it was read from. -/
structure Located (α : Type) where
  value : α
  span : Span
  deriving DecidableEq, Repr

end BlockDiagram.Source
