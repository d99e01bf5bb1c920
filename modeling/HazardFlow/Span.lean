import HazardFlow.Fault

/-!
# Spans

A span holds the indices from `start` up to, but not including, `stop`. Nothing keeps a span from
being inverted; the operations that need order check it.
-/

namespace HazardFlow

/-- The indices from `start` up to, but not including, `stop`. -/
structure Span where
  /-- The first index. -/
  start : Nat
  /-- The index after the last. -/
  stop : Nat
  deriving DecidableEq, Repr, Inhabited

namespace Span

/-- The number of indices. An inverted span has none. -/
def length (s : Span) : Nat := s.stop - s.start

/-- The index that separates the two halves. -/
def middle (s : Span) : Nat := s.start + s.length / 2

/-- The lower half, of half the length rounded down, and the rest. -/
def halve (s : Span) : Except Fault (Span × Span) :=
  if s.start ≤ s.stop then .ok (⟨s.start, s.middle⟩, ⟨s.middle, s.stop⟩)
  else .error .spanInverted

/-- The text of a span. -/
def describe (s : Span) : String := s!"{s.start}..{s.stop}"

/-- The middle of an ordered span lies in it. -/
theorem middle_le_stop {s : Span} (h : s.start ≤ s.stop) : s.middle ≤ s.stop := by
  simp only [middle, length]
  omega

theorem start_le_middle (s : Span) : s.start ≤ s.middle := Nat.le_add_right ..

end Span

end HazardFlow
