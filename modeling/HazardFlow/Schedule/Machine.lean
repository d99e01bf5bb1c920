import HazardFlow.Schedule.Shutdown
import HazardFlow.Schedule.Submission
import HazardFlow.Schedule.World

/-!
# A fair schedule

A system together with the world that its works act on. In a round every worker gets one turn, in
order, so nothing that could go on is left waiting for ever. What a work sees, and what is left in
the end, depends on the order that the graph imposes and not on this choice of schedule.
-/

namespace HazardFlow

/-- A system and the world that its works act on. -/
structure Machine where
  system : System Effect Event
  world : World

namespace Machine

/-- Ends the job that a worker is running, if its work may end. -/
def conclude (m : Machine) (w : Nat) : Machine :=
  match m.system.runningOn w with
  | none => m
  | some job =>
    if m.world.mayEnd job then
      let (world, result) := m.world.finish job
      { system := m.system.conclude w result, world }
    else m

/-- Polls the watcher of a worker. -/
def poll (m : Machine) (w : Nat) : Machine :=
  { m with system := m.system.poll (Event.query m.world.signals) w }

/-- Finds a job for a worker and begins it. -/
def begin (m : Machine) (w : Nat) : Machine :=
  match m.system.takeJob w with
  | none => m
  | some (system, job) =>
    let system := system.begin w job
    { system, world := (system.runningOn w).elim m.world m.world.begin }

/-- Whether a worker has not been ended by a fault. -/
def isAlive (m : Machine) (w : Nat) : Bool := (m.system.workers[w]?.map (!·.dead)).getD false

/-- One turn of a worker: it ends the job it is running, or else polls, takes a job and runs it as
far as it goes. -/
def turn (m : Machine) (w : Nat) : Machine :=
  if m.isAlive w then
    match m.system.runningOn w with
    | some _ => m.conclude w
    | none =>
      let m := m.poll w
      if m.isAlive w then (m.begin w).conclude w else m
  else m

/-- One turn of every worker. -/
def round (m : Machine) : Machine := (List.range m.system.workers.size).foldl turn m

/-- Whether a worker can go on without help from outside: it can end the job it is running, take
another one, or come to see an event complete. -/
def canMove (m : Machine) (worker : Worker Effect Event) : Bool :=
  !worker.dead && match worker.running with
    | some job => m.world.mayEnd job
    | none =>
      !m.system.inbox.waiting.isEmpty || m.system.workers.any (!·.queue.isEmpty) ||
        worker.watcher.pending.any fun entry => m.world.endsWait entry.event

/-- Whether every worker waits for help from outside. -/
def isStuck (m : Machine) : Bool := !m.system.workers.any m.canMove

/-- Goes on until a condition holds or nothing can go on, for at most so many rounds. -/
def runUntil (condition : Machine → Bool) : Nat → Machine → Machine
  | 0, m => m
  | rounds + 1, m =>
    if condition m || m.isStuck then m else runUntil condition rounds m.round

/-- A number of rounds that no wait lasts for. -/
def patience : Nat := 1 <<< 62

/-- Waits until a condition holds. -/
def await (m : Machine) (condition : Machine → Bool) : Machine := runUntil condition patience m

/-- Whether a worker of a stopping system can leave: it runs nothing, and the events it watches
complete. -/
def mayLeave (m : Machine) (w : Nat) : Bool :=
  match m.system.workers[w]? with
  | none => false
  | some worker =>
    worker.running.isNone && worker.watcher.pending.all fun entry => m.world.endsWait entry.event

/-- Lets a worker of a stopping system end its job, and leave if it can. -/
def stopWorker (m : Machine) (w : Nat) : Machine :=
  if m.isAlive w then
    let m := m.conclude w
    if m.isAlive w && m.mayLeave w then { m with system := m.system.leave w } else m
  else m

/-- Lets every worker stop, so many times over. A worker may have to wait for signals that others
fire. -/
def stopWorkers : Nat → Machine → Machine
  | 0, m => m
  | times + 1, m =>
    stopWorkers times ((List.range m.system.workers.size).foldl stopWorker m)

/-- Stops the workers and drops the jobs that nobody took. Without workers nothing happens. -/
def shutdown (m : Machine) : Outcome Machine Unit :=
  if m.system.workers.isEmpty then .pure m ()
  else
    let m := stopWorkers (m.system.workers.size + 1) m
    m.system.close.lift fun system => { m with system }

end Machine

end HazardFlow
