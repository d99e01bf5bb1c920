import HazardFlow.Event
import HazardFlow.Schedule.System

/-!
# What works act on

A store of cells, signals, and gates at which a work stops until it is let through. A work looks
up the cells that it reads when it begins; when it ends it fires signals and sets the cells that
it writes.
-/

namespace HazardFlow

/-- What a work does when it runs. -/
structure Effect where
  /-- The cells looked up. -/
  reads : List Address := []
  /-- The cells set to the number of the node plus one. -/
  writes : List Address := []
  /-- The gate at which the work waits after its look-ups. -/
  gate : Option Nat := none
  /-- The signals fired. -/
  fires : List Nat := []
  /-- Whether the work then stops with a fault. -/
  stops : Bool := false
  /-- What host work answers. -/
  event : Option Event := none
  deriving DecidableEq, Repr

/-- What a work saw: the values that it read, or the piece of the range that it was given. -/
inductive Sight where
  | values (vs : List Nat)
  | piece (p : Span)
  deriving DecidableEq, Repr

/-- A run of a work. -/
structure RunRecord where
  node : NodeId
  sight : Sight
  deriving DecidableEq, Repr

/-- What works act on. -/
structure World where
  /-- The cells ever set. -/
  cells : List (Address × Nat) := []
  signals : Signals := {}
  /-- The gates that a work has reached. -/
  reached : List Nat := []
  /-- The gates that are open. -/
  opened : List Nat := []
  /-- The runs so far, in the order in which they began. -/
  runs : Array RunRecord := #[]
  /-- The queries after which the event of a device call is complete; none when it is so at
  once. -/
  delay : Option Nat := none
  deriving Repr

namespace World

/-- The value of a cell, zero until it is set. -/
def cell (w : World) (a : Address) : Nat := (w.cells.lookup a).getD 0

/-- Sets a cell. -/
def setCell (w : World) (value : Nat) (a : Address) : World :=
  { w with cells := (a, value) :: w.cells.filter fun entry => entry.1 != a }

/-- The effect of a task. An idle task has none. -/
def effectOf : Task Effect → Option Effect
  | .kernel e | .host e | .range _ e => some e
  | .idle => none

/-- What a task sees when it begins. -/
def sightOf (w : World) (effect : Effect) : Task Effect → Sight
  | .range cursor _ => .piece cursor.take.1
  | _ => .values (effect.reads.map w.cell)

/-- Begins a job: notes what it sees, and the gate that it reaches. -/
def begin (w : World) (job : Job Effect) : World :=
  match effectOf job.task with
  | none => w
  | some effect =>
    { w with
      runs := w.runs.push ⟨job.node, w.sightOf effect job.task⟩
      reached := effect.gate.toList ++ w.reached }

/-- Whether a job that has begun may end. -/
def mayEnd (w : World) (job : Job Effect) : Bool :=
  match effectOf job.task with
  | some { gate := some gate, .. } => w.opened.contains gate
  | _ => true

/-- The event of a call on the device. -/
def deviceEvent (w : World) : Event :=
  match w.delay with
  | some queries => .countdown queries
  | none => .ready

/-- What a call answers when its work does not stop. -/
def answerOf (w : World) (effect : Effect) : Task Effect → RunResult Event
  | .kernel _ | .range .. => .event w.deviceEvent
  | .host _ => match effect.event with
    | some e => .event e
    | none => .finished
  | .idle => .finished

/-- Ends a job that has begun: fires its signals and sets its cells. -/
def finish (w : World) (job : Job Effect) : World × RunResult Event :=
  match effectOf job.task with
  | none => (w, .finished)
  | some effect =>
    let w := { w with signals := w.signals.fireAll effect.fires }
    let w := effect.writes.foldl (·.setCell (job.node + 1)) w
    (w, if effect.stops then .stopped else w.answerOf effect job.task)

/-- Whether waiting for an event ends. A countdown is completed by waiting for it. -/
def endsWait (w : World) : Event → Bool
  | .ready | .countdown _ => true
  | .signal id => w.signals.isComplete id

/-- The cells ever set, in order of address. -/
def cellList (w : World) : List (Address × Nat) := w.cells.mergeSort fun a b => a.1 ≤ b.1

/-- The order of runs by node, and by piece within a node. -/
def runBefore (a b : RunRecord) : Bool :=
  a.node < b.node ||
    (a.node == b.node && match a.sight, b.sight with
      | .piece p, .piece q => p.start < q.start || (p.start == q.start && p.stop ≤ q.stop)
      | _, _ => true)

/-- Joins neighbouring pieces of one range. -/
def joinPieces : List RunRecord → List RunRecord
  | [] => []
  | a :: rest =>
    match a.sight, joinPieces rest with
    | .piece p, { node, sight := .piece q } :: later =>
      if a.node = node ∧ p.stop = q.start then ⟨node, .piece ⟨p.start, q.stop⟩⟩ :: later
      else a :: ⟨node, .piece q⟩ :: later
    | _, joined => a :: joined

/-- The runs by node, with the pieces of a range joined. It does not depend on the order in which
the nodes ran. -/
def runsByNode (w : World) : List RunRecord := joinPieces (w.runs.toList.mergeSort runBefore)

end World

end HazardFlow
