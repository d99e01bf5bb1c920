import HazardFlow.Span
import HazardFlow.Text.Record

/-!
# Splittable cursors

A cursor covers the part of a span that nobody has taken yet. It hands out its lower half as long
as both halves hold at least a grain, and in the end everything that is left.
-/

namespace HazardFlow

/-- The untaken rest of a span. -/
structure Cursor where
  /-- The first index not taken. -/
  next : Nat
  /-- The index after the last. -/
  stop : Nat
  /-- The least number of indices that each half keeps when the cursor splits. -/
  grain : Nat
  next_le_stop : next ≤ stop
  grain_pos : 0 < grain
  deriving DecidableEq, Repr

namespace Cursor

/-- A cursor over a whole span. A grain of zero is refused before an inverted span. -/
def ofSpan (s : Span) (grain : Nat) : Except Fault Cursor :=
  if hg : 0 < grain then
    if hs : s.start ≤ s.stop then .ok ⟨s.start, s.stop, grain, hs, hg⟩
    else .error .cursorInverted
  else .error .grainZero

/-- The span still covered. -/
def remaining (c : Cursor) : Span := ⟨c.next, c.stop⟩

/-- A cursor over the lower half of what is left, and the rest; nothing when either half would
be shorter than the grain. -/
def split (c : Cursor) : Option (Cursor × Cursor) :=
  let middle := c.remaining.middle
  if c.grain ≤ middle - c.next ∧ c.grain ≤ c.stop - middle then
    some (⟨c.next, middle, c.grain, c.remaining.start_le_middle, c.grain_pos⟩,
      ⟨middle, c.stop, c.grain, Span.middle_le_stop c.next_le_stop, c.grain_pos⟩)
  else none

/-- Takes everything that is left. -/
def take (c : Cursor) : Span × Cursor :=
  (c.remaining, ⟨c.stop, c.stop, c.grain, Nat.le_refl _, c.grain_pos⟩)

/-- The text of a cursor. -/
def describe (c : Cursor) : String :=
  Text.record "RangeCursor"
    [("cursor", toString c.next), ("end", toString c.stop), ("grain", toString c.grain)]

/-- One thing to do with a cursor. -/
inductive Command where
  | split
  | take
  | remaining
  | grain
  | describe
  deriving DecidableEq, Repr

/-- What a command answers. -/
inductive Answer where
  | span (s : Span)
  | noSpan
  | number (n : Nat)
  | text (t : String)
  deriving DecidableEq, Repr

/-- Does one command. A split answers with the detached lower half. -/
def perform (c : Cursor) : Command → Cursor × Answer
  | .split =>
    match c.split with
    | some (piece, rest) => (rest, .span piece.remaining)
    | none => (c, .noSpan)
  | .take => (c.take.2, .span c.take.1)
  | .remaining => (c, .span c.remaining)
  | .grain => (c, .number c.grain)
  | .describe => (c, .text c.describe)

/-- The answers to commands done in turn. -/
def performAll (c : Cursor) : List Command → List Answer
  | [] => []
  | command :: rest => (c.perform command).2 :: (c.perform command).1.performAll rest

end Cursor

end HazardFlow
