import HazardFlow.Event.Signals

/-!
# Completion events

What a unit of work answers when it goes on after its call returns: something that can be asked
whether it has completed.
-/

namespace HazardFlow

/-- A completion event. -/
inductive Event where
  /-- Already complete. -/
  | ready
  /-- Complete once the signal is. -/
  | signal (id : Nat)
  /-- Answers "not yet" to so many queries, and then "complete". -/
  | countdown (queries : Nat)
  deriving DecidableEq, Repr

/-- The answer of an event to a query, and the event afterwards. -/
def Event.query (signals : Signals) : Event → Bool × Event
  | .ready => (true, .ready)
  | .signal id => (signals.isComplete id, .signal id)
  | .countdown 0 => (true, .countdown 0)
  | .countdown (n + 1) => (false, .countdown n)

end HazardFlow
