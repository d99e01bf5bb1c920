import HazardFlow.Graph.Completion

/-!
# Watchers

A watcher asks completion events whether they have completed and finishes the parts that wait for
them. A scan that finds none complete doubles the number of polls then skipped, up to a cap;
progress, and new events, bring it back to none.
-/

namespace HazardFlow

/-- An event and the node that loses a part when it completes. -/
structure Watched (ε : Type) where
  event : ε
  node : NodeId
  deriving DecidableEq, Repr

/-- Events not yet known to be complete. -/
structure Watcher (ε : Type) where
  pending : List (Watched ε) := []
  /-- The polls left to skip before the next scan. -/
  skip : Nat := 0
  /-- The polls skipped after the next scan without progress. -/
  backoff : Nat := 0
  cap : Nat
  deriving DecidableEq, Repr

/-- What looking at events leaves behind. -/
structure Watch (κ ε β : Type) where
  handed : Handed κ β
  watcher : Watcher ε
  /-- The number of events found complete. -/
  completed : Nat

namespace Watcher

variable {κ ε β : Type}

/-- Watches another event. -/
def track (w : Watcher ε) (event : ε) (n : NodeId) : Watcher ε :=
  { w with pending := w.pending ++ [⟨event, n⟩], skip := 0, backoff := 0 }

/-- The list after its first entry was taken out and the last one put in its place. -/
def lastFirst {α : Type} (rest : List α) : List α :=
  match rest.getLast? with
  | none => []
  | some last => last :: rest.dropLast

theorem length_lastFirst {α : Type} (rest : List α) : (lastFirst rest).length = rest.length := by
  cases rest with
  | nil => rfl
  | cons a rest => simp [lastFirst, List.getLast?_cons]

/-- Moving the last entry to the front loses none. -/
theorem perm_lastFirst {α : Type} (rest : List α) : (lastFirst rest).Perm rest := by
  cases rest with
  | nil => exact .nil
  | cons a rest =>
    have hlast := List.cons_ne_nil a rest
    have hsplit := List.dropLast_concat_getLast hlast
    have hperm := (List.perm_append_singleton ((a :: rest).getLast hlast) (a :: rest).dropLast).symm
    rw [hsplit] at hperm
    unfold lastFirst
    rw [List.getLast?_eq_some_getLast hlast]
    exact hperm

/-- What a scan leaves behind. -/
structure Scan (κ ε β : Type) where
  handed : Handed κ β
  pending : List (Watched ε)
  completed : Nat

/-- Asks every event of `rest` once and finishes a part for each complete one, whose place is then
taken by the last entry. A fault stops the scan. -/
def scan (query : ε → Bool × ε) (hand : Hand κ β) (g : Graph κ) (kept rest : List (Watched ε)) :
    Scan κ ε β :=
  match rest with
  | [] => ⟨⟨g, [], none⟩, kept, 0⟩
  | entry :: rest =>
    match query entry.event with
    | (false, event) => scan query hand g (kept ++ [⟨event, entry.node⟩]) rest
    | (true, _) =>
      let finished := g.finishPart hand entry.node
      match finished.fault with
      | some _ => ⟨finished, kept ++ lastFirst rest, 1⟩
      | none =>
        let later := scan query hand finished.graph kept (lastFirst rest)
        { later with
          handed := { later.handed with items := finished.items ++ later.handed.items }
          completed := later.completed + 1 }
termination_by rest.length
decreasing_by
  all_goals simp [length_lastFirst]

/-- The number of polls skipped after one more scan without progress. -/
def nextBackoff (w : Watcher ε) : Nat :=
  min (addHalfWord (addHalfWord w.backoff w.backoff) 1) w.cap

/-- Polls once: nothing when no event is pending, a skip while there are polls to skip, and
otherwise a scan. -/
def poll (query : ε → Bool × ε) (hand : Hand κ β) (g : Graph κ) (w : Watcher ε) :
    Watch κ ε β :=
  if w.pending.isEmpty then ⟨⟨g, [], none⟩, w, 0⟩
  else if 0 < w.skip then ⟨⟨g, [], none⟩, { w with skip := w.skip - 1 }, 0⟩
  else
    let scanned := scan query hand g [] w.pending
    let w := { w with pending := scanned.pending }
    match scanned.handed.fault with
    | some _ => ⟨scanned.handed, w, scanned.completed⟩
    | none =>
      let backoff := if 0 < scanned.completed then 0 else w.nextBackoff
      ⟨scanned.handed, { w with skip := backoff, backoff }, scanned.completed⟩

/-- Finishes a part for every entry in turn. A fault stops it. -/
def finishAll (hand : Hand κ β) (g : Graph κ) : List (Watched ε) → Handed κ β
  | [] => ⟨g, [], none⟩
  | entry :: rest =>
    let finished := g.finishPart hand entry.node
    match finished.fault with
    | some _ => finished
    | none =>
      let later := finishAll hand finished.graph rest
      { later with items := finished.items ++ later.items }

/-- Waits for every pending event and finishes its part. Nothing stays pending, not even after a
fault. -/
def drain (hand : Hand κ β) (g : Graph κ) (w : Watcher ε) : Watch κ ε β :=
  let finished := finishAll hand g w.pending
  match finished.fault with
  | some _ => ⟨finished, { w with pending := [] }, w.pending.length⟩
  | none => ⟨finished, { w with pending := [], skip := 0, backoff := 0 }, w.pending.length⟩

end Watcher

end HazardFlow
