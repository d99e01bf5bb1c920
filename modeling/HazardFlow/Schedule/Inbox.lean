/-!
# The inbox

Jobs submitted from outside wait in an inbox, oldest first. The inbox is laid out in trays with a
fixed number of places, which are filled one after another. A worker with nothing to do takes a
share at once: half of what lies in the last tray, or what is left in an earlier one.
-/

namespace HazardFlow

/-- Jobs submitted from outside. -/
structure Inbox (α : Type) where
  /-- The jobs not yet taken, oldest first. -/
  waiting : List α := []
  /-- The number of jobs taken so far, which tells where in its tray the oldest job lies. -/
  taken : Nat := 0
  deriving Repr

namespace Inbox

variable {α : Type}

/-- The number of places in a tray. -/
def traySize : Nat := 63

/-- The most jobs that a worker takes at once. -/
def maxShare : Nat := 33

/-- Adds a job behind the others. -/
def put (i : Inbox α) (job : α) : Inbox α := { i with waiting := i.waiting ++ [job] }

/-- Adds jobs behind the others. -/
def putAll (i : Inbox α) (jobs : List α) : Inbox α := { i with waiting := i.waiting ++ jobs }

/-- The number of jobs that a worker takes at once. A tray that all jobs lie in, and that has room
for more, gives half of them, rounded up; any other gives all it has left. -/
def shareSize (i : Inbox α) : Nat :=
  let place := i.taken % traySize
  min maxShare <|
    if place + i.waiting.length < traySize then (i.waiting.length + 1) / 2 else traySize - place

/-- Takes the oldest job. -/
def take (i : Inbox α) : Option (α × Inbox α) :=
  match i.waiting with
  | [] => none
  | job :: rest => some (job, ⟨rest, i.taken + 1⟩)

/-- Takes a share: its oldest job, and the others in order. -/
def takeShare (i : Inbox α) : Option (α × List α × Inbox α) :=
  match i.waiting with
  | [] => none
  | job :: rest =>
    let others := rest.take (i.shareSize - 1)
    some (job, others, ⟨rest.drop (i.shareSize - 1), i.taken + 1 + others.length⟩)

/-- Taking a share neither loses nor reorders jobs. -/
theorem waiting_of_takeShare {i j : Inbox α} {job : α} {others : List α}
    (h : i.takeShare = some (job, others, j)) : i.waiting = job :: (others ++ j.waiting) := by
  unfold takeShare at h
  split at h
  · cases h
  · next heq =>
    cases h
    rw [heq, List.take_append_drop]

@[simp] theorem waiting_put (i : Inbox α) (job : α) :
    (i.put job).waiting = i.waiting ++ [job] := rfl

@[simp] theorem waiting_putAll (i : Inbox α) (jobs : List α) :
    (i.putAll jobs).waiting = i.waiting ++ jobs := rfl

end Inbox

end HazardFlow
