import HazardFlow.Span
import HazardFlow.Text.Record

/-!
# Work

What a node does when it runs. The calls themselves are left open; their names have type `κ`.
-/

namespace HazardFlow

/-- What a node does when it runs. -/
inductive Work (κ : Type) where
  /-- A call on the device. -/
  | kernel (call : κ)
  /-- A call on the worker itself. -/
  | host (call : κ)
  /-- A host call that does nothing. -/
  | idle
  /-- A call on the device for every piece of a span. -/
  | range (span : Span) (call : κ)
  deriving DecidableEq, Repr

namespace Work

variable {κ : Type}

/-- Whether workers may share the work. -/
def isSplittable : Work κ → Bool
  | .range .. => true
  | _ => false

/-- The text of a work. -/
def describe : Work κ → String
  | .kernel _ => "Work::Kernel"
  | .host _ | .idle => "Work::Host"
  | .range span _ => Text.wrapped "Work::Range" span.describe

end Work

end HazardFlow
