import HazardFlow.Graph.Job
import HazardFlow.Graph.Tracker
import HazardFlow.Graph.Watcher
import HazardFlow.Log
import HazardFlow.Schedule.Inbox

/-!
# The system

A graph, its tracker, and the workers that run its jobs. Every worker has a queue of its own, of
which it takes the newest job while its peers take the oldest, and a watcher for the events that
its jobs answer. Nodes submitted from outside wait in a common inbox.
-/

namespace HazardFlow

/-- One worker. -/
structure Worker (κ ε : Type) where
  /-- The jobs of the worker, newest first. -/
  queue : List (Job κ) := []
  /-- The job being run. -/
  running : Option (Job κ) := none
  watcher : Watcher ε
  /-- Whether a fault has ended the worker. Its queue stays open to its peers. -/
  dead : Bool := false

/-- What the workers have done so far. -/
structure Stats where
  /-- Jobs run. -/
  executed : Nat := 0
  /-- Jobs taken from the queue of a peer. -/
  steals : Nat := 0
  /-- Range jobs split in two. -/
  splits : Nat := 0
  /-- Jobs whose work stopped with a fault. -/
  faulted : Nat := 0
  /-- Jobs dropped without running. -/
  retired : Nat := 0
  deriving DecidableEq, Repr

/-- A graph and the workers that run it. -/
structure System (κ ε : Type) where
  graph : Graph κ := {}
  tracker : Tracker
  /-- The jobs submitted from outside and not yet taken. -/
  inbox : Inbox (Job κ) := {}
  workers : Array (Worker κ ε)
  grain : Nat
  stats : Stats := {}
  log : Array LogRecord := #[]

/-- How running a job ends. -/
inductive RunResult (ε : Type) where
  | finished
  /-- The work goes on until the event completes. -/
  | event (e : ε)
  /-- The work stopped with a fault. -/
  | stopped
  deriving DecidableEq, Repr

/-- Ready nodes handed on as their first jobs. -/
def Graph.handJob {κ : Type} (grain : Nat) : Hand κ (Job κ) := fun g n => g.takeJob n grain

namespace System

variable {κ ε : Type}

/-- Workers with nothing to do yet. -/
def start (tracker : Tracker) (workers grain cap : Nat) : System κ ε :=
  { tracker, workers := Array.replicate workers { watcher := { cap } }, grain
    log := #[{ level := .debug, message := "scheduler started",
               fields := [("workers", .number workers)] }] }

/-- Changes one worker. -/
def updateWorker (s : System κ ε) (w : Nat) (f : Worker κ ε → Worker κ ε) : System κ ε :=
  { s with workers := s.workers.modify w f }

/-- Changes the statistics. -/
def count (s : System κ ε) (f : Stats → Stats) : System κ ε := { s with stats := f s.stats }

/-- Reports something. -/
def report (s : System κ ε) (level : LogLevel) (message : String)
    (fields : List (String × LogValue)) : System κ ε :=
  { s with log := s.log.push { level, message, fields } }

/-- Puts the jobs made of ready nodes on the queue of a worker, the last one on top. The worker
dies of a fault met on the way, and its watcher goes with it. -/
def receive (s : System κ ε) (w : Nat) (handed : Handed κ (Job κ)) : System κ ε :=
  let s := { s with graph := handed.graph }
  let s := s.updateWorker w fun worker =>
    { worker with queue := handed.items.reverse ++ worker.queue }
  match handed.fault with
  | none => s
  | some _ => s.updateWorker w fun worker =>
      { worker with
        running := none, watcher := { worker.watcher with pending := [] }, dead := true }

/-- Finishes one part of a node on a worker. -/
def finishPart (s : System κ ε) (w : Nat) (n : NodeId) : System κ ε :=
  s.receive w (s.graph.finishPart (Graph.handJob s.grain) n)

end System

end HazardFlow
