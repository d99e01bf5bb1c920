import HazardFlow.Fault
import HazardFlow.Text.Record

/-!
# Owner counts

The number of owners of an object. It starts at zero, and its last owner is told so on leaving.
The count moves even when a call stops with a fault.
-/

namespace HazardFlow

/-- The number of owners of an object. Misuse can drive it below zero. -/
structure OwnerCount where
  owners : Int := 0
  deriving DecidableEq, Repr, Inhabited

namespace OwnerCount

/-- Adds one owner. An object whose count is negative has been destroyed. -/
def acquire (c : OwnerCount) : Outcome OwnerCount Unit :=
  let after : OwnerCount := ⟨c.owners + 1⟩
  if 0 ≤ c.owners then .pure after () else .fail after .acquireDestroyed

/-- Removes one owner and tells whether it was the last. -/
def release (c : OwnerCount) : Outcome OwnerCount Bool :=
  let after : OwnerCount := ⟨c.owners - 1⟩
  if 0 < c.owners then .pure after (c.owners == 1) else .fail after .releaseUnowned

theorem state_acquire (c : OwnerCount) : c.acquire.state = ⟨c.owners + 1⟩ := by
  unfold acquire
  dsimp only
  split <;> rfl

theorem state_release (c : OwnerCount) : c.release.state = ⟨c.owners - 1⟩ := by
  unfold release
  dsimp only
  split <;> rfl

/-- The text of a count. -/
def describe (c : OwnerCount) : String := Text.wrapped "RefCount" (toString c.owners)

/-- One thing to do with a count. -/
inductive Command where
  | acquire
  | release
  | describe
  deriving DecidableEq, Repr

/-- What a command answers. -/
inductive Answer where
  | done
  | last (yes : Bool)
  | text (t : String)
  deriving DecidableEq, Repr

/-- Does one command. -/
def perform (c : OwnerCount) : Command → Outcome OwnerCount Answer
  | .acquire => c.acquire.map fun _ => .done
  | .release => c.release.map .last
  | .describe => .pure c (.text c.describe)

/-- The outcomes of commands done in turn. A fault stops its own command only. -/
def performAll (c : OwnerCount) : List Command → List (Outcome OwnerCount Answer)
  | [] => []
  | command :: rest => c.perform command :: (c.perform command).state.performAll rest

end OwnerCount

end HazardFlow
