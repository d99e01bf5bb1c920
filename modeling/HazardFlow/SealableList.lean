import HazardFlow.Fault

/-!
# Lists that can be sealed

A list that only grows at its front until it is sealed, once. Sealing takes the whole list, and
whatever is pushed afterwards is refused.
-/

namespace HazardFlow

/-- A list that can be sealed. -/
inductive SealableList (α : Type) where
  /-- Still growing; the newest entry comes first. -/
  | growing (entries : List α)
  /-- Closed for good. -/
  | closed
  deriving DecidableEq, Repr

namespace SealableList

variable {α : Type}

instance : Inhabited (SealableList α) := ⟨.growing []⟩

/-- The entries not yet taken, newest first. -/
def entries : SealableList α → List α
  | .growing entries => entries
  | .closed => []

/-- Whether the list has been sealed. -/
def isClosed : SealableList α → Bool
  | .growing _ => false
  | .closed => true

/-- Adds an entry at the front, or refuses it. -/
def push (l : SealableList α) (a : α) : Option (SealableList α) :=
  match l with
  | .growing entries => some (.growing (a :: entries))
  | .closed => none

/-- Closes the list and takes everything in it, newest first. -/
def close : SealableList α → Outcome (SealableList α) (List α)
  | .growing entries => .pure .closed entries
  | .closed => .fail .closed .sealedTwice

@[simp] theorem entries_growing (entries : List α) : (growing entries).entries = entries := rfl

@[simp] theorem entries_closed : (closed : SealableList α).entries = [] := rfl

@[simp] theorem isClosed_growing (entries : List α) : (growing entries).isClosed = false := rfl

@[simp] theorem isClosed_closed : (closed : SealableList α).isClosed = true := rfl

@[simp] theorem push_growing (entries : List α) (a : α) :
    (growing entries).push a = some (.growing (a :: entries)) := rfl

@[simp] theorem push_closed (a : α) : (closed : SealableList α).push a = none := rfl

@[simp] theorem state_close (l : SealableList α) : l.close.state = .closed := by
  cases l <;> rfl

end SealableList

end HazardFlow
