import HazardFlow.Schedule.System

/-!
# What a worker does

A worker polls its watcher, takes a job, splits it if its queue would otherwise be empty, runs it,
and then either watches the event that the work answered or finishes the job's part. When the
system stops, the worker waits for the events that it still watches and drops its remaining jobs,
finishing their parts without running them.
-/

namespace HazardFlow.System

variable {κ ε : Type}

/-- The peers of a worker, in the order in which it turns to them. -/
def peers (s : System κ ε) (w : Nat) : List Nat :=
  (List.range (s.workers.size - 1)).map fun offset => (w + offset + 1) % s.workers.size

/-- Takes the newest job of a worker's own queue. -/
def takeOwn (s : System κ ε) (w : Nat) : Option (System κ ε × Job κ) :=
  match s.workers[w]? with
  | some { queue := job :: rest, .. } => some (s.updateWorker w ({ · with queue := rest }), job)
  | _ => none

/-- Takes a share of the inbox for a worker: its oldest job, while the others join the queue of the
worker, the oldest on top. -/
def takeSubmitted (s : System κ ε) (w : Nat) : Option (System κ ε × Job κ) :=
  s.inbox.takeShare.map fun (job, others, inbox) =>
    (({ s with inbox } : System κ ε).updateWorker w fun worker =>
      { worker with queue := others ++ worker.queue }, job)

/-- Takes the oldest job of the queue of a peer. -/
def stealFrom (s : System κ ε) (peer : Nat) : Option (System κ ε × Job κ) :=
  match s.workers[peer]? with
  | none => none
  | some worker =>
    worker.queue.getLast?.map fun job =>
      ((s.updateWorker peer ({ · with queue := worker.queue.dropLast })).count
        fun stats => { stats with steals := stats.steals + 1 }, job)

/-- Finds a job for a worker: in its own queue, in the inbox, or with a peer. -/
def takeJob (s : System κ ε) (w : Nat) : Option (System κ ε × Job κ) :=
  ((s.takeOwn w).or (s.takeSubmitted w)).or ((s.peers w).findSome? s.stealFrom)

/-- Begins to run a job. A range job is split once when the queue of its worker is empty: the
piece is queued for whoever is free, and the rest runs. -/
def begin (s : System κ ε) (w : Nat) (job : Job κ) : System κ ε :=
  let alone := (s.workers[w]?.map fun worker => worker.queue.isEmpty).getD false
  match if alone then s.graph.splitJob job else none with
  | none => s.updateWorker w ({ · with running := some job })
  | some (graph, piece, rest) =>
    (({ s with graph } : System κ ε).updateWorker w fun worker =>
      { worker with queue := [piece], running := some rest }).count
        fun stats => { stats with splits := stats.splits + 1 }

/-- The job that a worker is running. -/
def runningOn (s : System κ ε) (w : Nat) : Option (Job κ) := (s.workers[w]?.map (·.running)).join

/-- Ends the run of a worker's job. -/
def conclude (s : System κ ε) (w : Nat) (result : RunResult ε) : System κ ε :=
  match s.runningOn w with
  | none => s
  | some job =>
    let s := s.updateWorker w ({ · with running := none })
    let s := s.count fun stats => { stats with executed := stats.executed + 1 }
    match result with
    | .event e =>
      s.updateWorker w fun worker => { worker with watcher := worker.watcher.track e job.node }
    | .finished => s.finishPart w job.node
    | .stopped =>
      (s.count fun stats => { stats with faulted := stats.faulted + 1 }).finishPart w job.node

/-- Polls the watcher of a worker. -/
def poll (query : ε → Bool × ε) (s : System κ ε) (w : Nat) : System κ ε :=
  match s.workers[w]? with
  | none => s
  | some worker =>
    let watch := worker.watcher.poll query (Graph.handJob s.grain) s.graph
    (s.updateWorker w ({ · with watcher := watch.watcher })).receive w watch.handed

/-- Waits for the events that a worker still watches and finishes their parts. -/
def drain (s : System κ ε) (w : Nat) : System κ ε :=
  match s.workers[w]? with
  | none => s
  | some worker =>
    let watch := worker.watcher.drain (Graph.handJob s.grain) s.graph
    (s.updateWorker w ({ · with watcher := watch.watcher })).receive w watch.handed

/-- Drops the jobs of a worker's queue, newest first, and finishes their parts, at most so many of
them. Nodes made ready join the queue. -/
def retireQueue (s : System κ ε) (w : Nat) : Nat → System κ ε
  | 0 => s
  | bound + 1 =>
    if (s.workers[w]?.map (·.dead)).getD true then s
    else
      match s.takeOwn w with
      | none => s
      | some (s, job) =>
        ((s.count fun stats => { stats with retired := stats.retired + 1 }).finishPart w
          job.node).retireQueue w bound

/-- The jobs that exist or can still be made: those queued, and one for every node. -/
def jobBound (s : System κ ε) (w : Nat) : Nat :=
  (s.workers[w]?.map fun worker => worker.queue.length).getD 0 + s.graph.nodes.size

/-- Ends a worker that runs nothing: it drains its watcher and drops its jobs. -/
def leave (s : System κ ε) (w : Nat) : System κ ε :=
  let s := s.drain w
  s.retireQueue w (s.jobBound w)

end HazardFlow.System
