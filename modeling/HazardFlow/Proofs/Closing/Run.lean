import HazardFlow.Proofs.Schedule.Run
import HazardFlow.Schedule.Shutdown

/-!
# Stopping in small steps

A system serves its builders until it is told to stop. Its workers notice that one by one, each of
them when it has ended what it runs, and go on as before until then. A worker that has noticed waits
for the events that it watches, in turn, drops the jobs of its queue and leaves. When all of them have
left, the jobs of the inbox are dropped. Between any two of these moves any other worker may make
one, and peers may take jobs from the queue of a worker that is about to leave. A move that is not
possible changes nothing, so that every list of moves is a run.
-/

namespace HazardFlow

/-- How far a worker has come on its way out. -/
inductive Stand where
  /-- It has not noticed that the system stops. -/
  | working
  /-- It waits for the events that it watches. -/
  | draining
  /-- It drops the jobs of its queue. -/
  | dropping
  | left
  deriving DecidableEq, Repr

/-- How far a system has come. -/
inductive Course where
  | serving
  /-- Its workers are to leave. -/
  | stopping
  /-- Its workers have left, and so many jobs of the inbox have been dropped. -/
  | emptying (retired : Nat)
  | stopped
  /-- A fault came up while the inbox was emptied. -/
  | failed
  deriving DecidableEq, Repr

/-- A site that is stopped at some time, and what became of its jobs. -/
structure Closing (κ ε : Type) where
  site : Site κ ε
  course : Course := .serving
  stand : Nat → Stand := fun _ => .working
  /-- The jobs that workers began to run, newest first. -/
  begun : List (Job κ) := []
  /-- The jobs dropped without being run, newest first. -/
  dropped : List (Job κ) := []
  /-- The nodes of the jobs that were split, newest first. -/
  splits : List NodeId := []

/-- A worker whose next poll of its watcher is not skipped. -/
def Worker.resetBackoff {κ ε : Type} (worker : Worker κ ε) : Worker κ ε :=
  { worker with watcher := { worker.watcher with skip := 0, backoff := 0 } }

/-- The job that a worker begins to run by an action, which leads from one system to another. -/
def Action.begun {κ ε : Type} (s s' : System κ ε) : Action κ ε → Option (Job κ)
  | .take w _ _ _ | .begin w => if s.isFree w then s'.runningOn w else none
  | _ => none

namespace Closing

variable {κ ε : Type}

/-- What may happen to a system that is stopped at some time. -/
inductive Move (κ ε : Type) where
  /-- A builder acts, or a worker that has not noticed that the system stops. -/
  | act (a : Action κ ε)
  /-- The system is told to stop. All nodes have been submitted. -/
  | stop
  /-- A worker does the next thing on its way out. -/
  | leave (worker : Nat)
  /-- Whoever stops the system does the next thing once the workers have left. -/
  | close

/-- A site at which nothing has happened yet. -/
def start (tracker : Tracker) (workers grain cap : Nat) : Closing κ ε :=
  { site := Site.start tracker workers grain cap }

/-- The system. -/
def system (c : Closing κ ε) : System κ ε := c.site.system

/-- The graph. -/
def graph (c : Closing κ ε) : Graph κ := c.site.system.graph

/-- The jobs that were run or dropped. -/
def ended (c : Closing κ ε) : List (Job κ) := c.begun ++ c.dropped

/-- Another system takes the place of the one there is. -/
def setSystem (c : Closing κ ε) (system : System κ ε) : Closing κ ε :=
  { c with site := { c.site with system } }

/-- A worker has come further on its way out. -/
def setStand (c : Closing κ ε) (w : Nat) (stand : Stand) : Closing κ ε :=
  { c with stand := fun v => if v = w then stand else c.stand v }

/-- Whether a builder or worker may act. -/
def mayAct (c : Closing κ ε) (a : Action κ ε) : Bool :=
  match a.worker? with
  | some w => (c.course == .serving || c.course == .stopping) && c.stand w == .working
  | none => c.course == .serving

/-- Acts, and notes down the job that begins to run. -/
def act (c : Closing κ ε) (a : Action κ ε) : Closing κ ε :=
  let site := c.site.act a
  match a.begun c.system site.system with
  | none => { c with site }
  | some job =>
    let split := site.system.stats.splits != c.system.stats.splits
    { c with
      site
      begun := job :: c.begun
      splits := if split then job.node :: c.splits else c.splits }

/-- Whether the system may be told to stop: it has workers, and its builders hold no nodes. -/
def mayStop (c : Closing κ ε) : Bool :=
  c.course == .serving && !c.system.workers.isEmpty &&
    c.site.builders.all fun builder => builder.all fun b => b.nodes.isEmpty

/-- A worker notices that the system stops once it runs nothing, waits for the oldest event that it
still watches, drops the newest job of its queue, and leaves when there is nothing left. -/
def leave (c : Closing κ ε) (w : Nat) : Closing κ ε :=
  match c.system.workers[w]? with
  | none => c
  | some worker =>
    if worker.dead then c
    else
      match c.stand w with
      | .working => if worker.running.isNone then c.setStand w .draining else c
      | .draining =>
        if worker.watcher.pending.isEmpty then
          (c.setSystem (c.system.updateWorker w Worker.resetBackoff)).setStand w .dropping
        else c.setSystem (c.system.settle w 0)
      | .dropping =>
        match worker.queue with
        | [] => c.setStand w .left
        | job :: _ =>
          { c.setSystem (c.system.retireQueue w 1) with dropped := job :: c.dropped }
      | .left => c

/-- Whether every worker has left, or was ended by a fault. -/
def isLeft (c : Closing κ ε) : Bool :=
  (List.range c.system.workers.size).all fun w =>
    c.stand w == .left || (c.system.workers[w]?.map (·.dead)).getD true

/-- The workers are let go of, the oldest job of the inbox is dropped, or the system reports that it
has stopped. -/
def close (c : Closing κ ε) : Closing κ ε :=
  match c.course with
  | .stopping =>
    if c.isLeft then { c.setSystem c.system.dismiss with course := .emptying 0 } else c
  | .emptying retired =>
    match c.system.inbox.waiting with
    | [] =>
      let system :=
        if retired = 0 then c.system
        else c.system.report .warn "retired submitted jobs without running them"
          [("retired", .number retired)]
      { c.setSystem (system.report .debug "scheduler stopped" []) with course := .stopped }
    | job :: _ =>
      let retire := c.system.retireInbox 1
      { c.setSystem retire.state with
        course := match retire.result with
          | .ok more => .emptying (retired + more)
          | .error _ => .failed
        dropped := job :: c.dropped }
  | _ => c

/-- Makes one move. -/
def step (c : Closing κ ε) : Move κ ε → Closing κ ε
  | .act a => if c.mayAct a then c.act a else c
  | .stop => if c.mayStop then { c with course := .stopping } else c
  | .leave w => if c.course = .stopping then c.leave w else c
  | .close => c.close

/-- Makes moves in turn. -/
def run (c : Closing κ ε) (moves : List (Move κ ε)) : Closing κ ε := moves.foldl step c

end Closing

end HazardFlow
