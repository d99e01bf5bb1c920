import HazardFlow.Proofs.Closing.Run
import HazardFlow.Proofs.Schedule.Load
import HazardFlow.Proofs.Yard.Supplying

/-!
# Systems that are used again after they were stopped

Telling a system to stop does not end its use. Once its workers have left, builders may go on to make
and submit nodes, and the system may be told to stop again. A plant is such a system. Its builders and
submissions make their moves one by one, as in a yard, and its workers act and leave as those of a
system that is stopped once. A system is told to stop only when no builder holds on to it. A move that
is not possible changes nothing, so that every list of moves is a run.
-/

namespace HazardFlow

/-- The run of a job that a worker ends by an action, and how it ends. -/
def Action.concluded {κ ε : Type} (s : System κ ε) : Action κ ε → Option (Job κ × RunResult ε)
  | .conclude w result => (s.runningOn w).map (·, result)
  | _ => none

/-- A system that may be stopped any number of times, what feeds it, and what became of its jobs. -/
structure Plant (κ ε : Type) where
  system : System κ ε
  crews : Array Crew := #[]
  submissions : Array Submission := #[]
  /-- How far the system has come since it was last told to stop. -/
  course : Course := .serving
  stand : Nat → Stand := fun _ => .working
  /-- How many of the calls that tell it to stop have returned. -/
  stops : Nat := 0
  /-- The jobs that were run and how, newest first. -/
  ended : List (Job κ × RunResult ε) := []
  /-- The jobs dropped without being run, newest first. -/
  dropped : List (Job κ) := []

namespace Plant

variable {κ ε : Type}

/-- What may happen in a plant. -/
inductive Move (κ ε : Type) where
  /-- A builder or a submission makes a move. -/
  | build (move : HazardFlow.Move κ)
  /-- A worker acts that has not noticed that the system stops. -/
  | work (a : Action κ ε)
  /-- The system is told to stop. -/
  | stop
  /-- A worker does the next thing on its way out. -/
  | leave (worker : Nat)
  /-- Whoever stops the system does the next thing once the workers have left. -/
  | close

/-- A plant in which nothing has happened yet. -/
def start (tracker : Tracker) (workers grain cap : Nat) : Plant κ ε :=
  { system := System.start tracker workers grain cap }

/-- The graph. -/
def graph (p : Plant κ ε) : Graph κ := p.system.graph

/-- Whether builders may use the system and it may be told to stop: nobody is stopping it. -/
def isOpen (p : Plant κ ε) : Bool :=
  match p.course with
  | .stopping | .emptying _ => false
  | _ => true

/-- The yard in which builders and submissions make their moves. The jobs that workers hold lie
there, too. -/
def yard (p : Plant κ ε) : Yard κ ε where
  system := p.system
  running := p.system.workers.toList.flatMap (·.queue) ++ p.system.underWay
  watched := p.system.watched.map fun entry => ⟨entry.node, .idle⟩
  crews := p.crews
  submissions := p.submissions

/-- A builder or a submission makes a move. -/
def build (p : Plant κ ε) (move : HazardFlow.Move κ) : Plant κ ε :=
  let yard := p.yard.act move
  { p with system := yard.system, crews := yard.crews, submissions := yard.submissions }

/-- Whether a worker may act. -/
def mayWork (p : Plant κ ε) (a : Action κ ε) : Bool :=
  match a.worker? with
  | some w => (p.course == .serving || p.course == .stopping) && p.stand w == .working
  | none => false

/-- A worker acts. -/
def work (p : Plant κ ε) (a : Action κ ε) : Plant κ ε :=
  { p with
    system := (({ system := p.system } : Site κ ε).act a).system
    ended := (a.concluded p.system).toList ++ p.ended }

/-- No builder is left, and no submission is under way. -/
def isVacant (p : Plant κ ε) : Bool :=
  p.crews.all (· == .gone) && p.submissions.all fun sub => sub.phase != .underWay

/-- The system is told to stop. Without workers there is nothing to stop, and the call returns. -/
def stop (p : Plant κ ε) : Plant κ ε :=
  if p.system.workers.isEmpty then { p with stops := p.stops + 1 } else { p with course := .stopping }

/-- The part of a plant that stops. -/
def closing (p : Plant κ ε) : Closing κ ε :=
  { site := { system := p.system }, course := p.course, stand := p.stand, dropped := p.dropped }

/-- The part of a plant that stops has come further. The call that told it to stop returns when it has
stopped. -/
def withClosing (p : Plant κ ε) (c : Closing κ ε) : Plant κ ε :=
  { p with
    system := c.system
    course := c.course
    stand := c.stand
    stops := if c.course = .stopped ∧ p.course ≠ .stopped then p.stops + 1 else p.stops
    dropped := c.dropped }

/-- Makes one move. -/
def step (p : Plant κ ε) : Move κ ε → Plant κ ε
  | .build move => if p.isOpen && !move.isOfJobs then p.build move else p
  | .work a => if p.mayWork a then p.work a else p
  | .stop => if p.isOpen && p.isVacant then p.stop else p
  | .leave w => p.withClosing (p.closing.step (.leave w))
  | .close => p.withClosing (p.closing.step .close)

/-- Makes moves in turn. -/
def run (p : Plant κ ε) (moves : List (Move κ ε)) : Plant κ ε := moves.foldl step p

end Plant

end HazardFlow
