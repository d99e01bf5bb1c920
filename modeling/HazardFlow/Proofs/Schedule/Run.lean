import HazardFlow.Schedule.Submission
import HazardFlow.Schedule.Worker

/-!
# Runs in any order

A site is a system together with the builders that feed it. Its actions are what builders and
workers may do, and a run is any list of actions: workers take whichever queued job, split it or
not, end it in any way, and see the events that they watch complete in any order. Among these are
the turns of a worker, which begins the job that it finds first and polls its watcher. An action
that is not possible changes nothing, so that every list of actions is a run.
-/

namespace HazardFlow

/-- Where queued jobs lie. -/
inductive Place where
  /-- Among the jobs submitted from outside. -/
  | inbox
  /-- On the queue of a worker. -/
  | queue (worker : Nat)
  deriving DecidableEq, Repr

namespace System

variable {κ ε : Type}

/-- The jobs queued at a place. -/
def queuedAt (s : System κ ε) : Place → List (Job κ)
  | .inbox => s.inbox.waiting
  | .queue w => (s.workers[w]?.map (·.queue)).getD []

/-- The system without the job at some position of a place. -/
def withoutJob (s : System κ ε) (place : Place) (position : Nat) : System κ ε :=
  match place with
  | .inbox => { s with inbox := ⟨s.inbox.waiting.eraseIdx position, s.inbox.taken + 1⟩ }
  | .queue w => s.updateWorker w fun worker =>
      { worker with queue := worker.queue.eraseIdx position }

/-- Takes the job at some position of a place. -/
def pick (s : System κ ε) (place : Place) (position : Nat) : Option (System κ ε × Job κ) :=
  (s.queuedAt place)[position]?.map fun job => (s.withoutJob place position, job)

/-- Begins to run a job on a worker, after splitting it if that is wanted and possible. -/
def beginWith (s : System κ ε) (w : Nat) (job : Job κ) (split : Bool) : System κ ε :=
  match if split then s.graph.splitJob job else none with
  | none => s.updateWorker w ({ · with running := some job })
  | some (graph, piece, rest) =>
    (({ s with graph } : System κ ε).updateWorker w fun worker =>
      { worker with queue := piece :: worker.queue, running := some rest }).count
        fun stats => { stats with splits := stats.splits + 1 }

/-- Whether a worker is alive and runs nothing. -/
def isFree (s : System κ ε) (w : Nat) : Bool :=
  (s.workers[w]?.map fun worker => worker.running.isNone && !worker.dead).getD false

/-- The entry at some position of those that a worker watches. -/
def watchedAt (s : System κ ε) (w position : Nat) : Option (Watched ε) :=
  s.workers[w]?.bind fun worker => worker.watcher.pending[position]?

/-- Sees an event complete that a worker watches, and finishes the part that waits for it. -/
def settle (s : System κ ε) (w position : Nat) : System κ ε :=
  match s.watchedAt w position with
  | none => s
  | some entry =>
    (s.updateWorker w fun worker =>
      { worker with
        watcher := { worker.watcher with
          pending := worker.watcher.pending.eraseIdx position } }).finishPart w entry.node

end System

/-- A system and the builders that feed it. -/
structure Site (κ ε : Type) where
  system : System κ ε
  /-- The builders not yet dropped. -/
  builders : Array (Option Builder) := #[]
  /-- What each node declared when it was added. -/
  declared : Array Access := #[]
  /-- The nodes of dropped builders. -/
  discarded : List NodeId := []
  /-- The batches answered by submissions, newest first. -/
  submitted : List BatchId := []

/-- What builders and workers may do. -/
inductive Action (κ ε : Type) where
  | newBuilder
  | add (builder : Nat) (work : Work κ) (access : Access) (profile : Option Profile)
  | execute (builder : Nat)
  | drop (builder : Nat)
  /-- Forgets all accesses. -/
  | reset
  /-- A free worker takes any queued job and begins to run it. -/
  | take (worker : Nat) (place : Place) (position : Nat) (split : Bool)
  /-- A free worker begins to run the job that it finds first. -/
  | begin (worker : Nat)
  /-- A worker's job ends in some way. -/
  | conclude (worker : Nat) (result : RunResult ε)
  /-- An event that a worker watches completes. -/
  | settle (worker position : Nat)
  /-- A worker polls its watcher, and `query` tells which events are complete. -/
  | poll (worker : Nat) (query : ε → Bool × ε)

/-- The worker that acts, unless a builder does. -/
def Action.worker? {κ ε : Type} : Action κ ε → Option Nat
  | .take w _ _ _ | .begin w | .conclude w _ | .settle w _ | .poll w _ => some w
  | _ => none

namespace Site

variable {κ ε : Type}

/-- A site at which nothing has happened yet. -/
def start (tracker : Tracker) (workers grain cap : Nat) : Site κ ε :=
  { system := System.start tracker workers grain cap }

/-- The graph. -/
def graph (s : Site κ ε) : Graph κ := s.system.graph

/-- A builder that was not dropped. -/
def builderAt (s : Site κ ε) (i : Nat) : Option Builder := s.builders[i]?.join

/-- What a node declared. -/
def accessOf (s : Site κ ε) (n : NodeId) : Access := s.declared.getD n {}

/-- Adds a node, whose explicit predecessors must exist. -/
def add (s : Site κ ε) (i : Nat) (b : Builder) (work : Work κ) (access : Access)
    (profile : Option Profile) : Site κ ε :=
  if access.deps.all fun d => d < s.graph.nodes.size then
    let added := (s.system.add b work access profile).state
    { s with
      system := added.1
      builders := s.builders.setIfInBounds i (some added.2)
      declared := s.declared.push access }
  else s

/-- Submits the nodes of a builder. A submission that stops with a fault answers no batch. -/
def execute (s : Site κ ε) (i : Nat) (b : Builder) : Site κ ε :=
  let outcome := s.system.execute b
  { s with
    system := outcome.state.1
    builders := s.builders.setIfInBounds i (some outcome.state.2)
    submitted := outcome.result.toOption.toList ++ s.submitted }

/-- Drops a builder. -/
def drop (s : Site κ ε) (i : Nat) (b : Builder) : Site κ ε :=
  { s with
    system := (s.system.dropBuilder b).state
    builders := s.builders.setIfInBounds i none
    discarded := b.nodes ++ s.discarded }

/-- Lets a free worker begin to run a queued job. -/
def take (s : Site κ ε) (w : Nat) (place : Place) (position : Nat) (split : Bool) : Site κ ε :=
  if s.system.isFree w then
    match s.system.pick place position with
    | some (system, job) => { s with system := system.beginWith w job split }
    | none => s
  else s

/-- Lets a free worker begin to run the job that it finds first. -/
def begin (s : Site κ ε) (w : Nat) : Site κ ε :=
  if s.system.isFree w then
    match s.system.takeJob w with
    | some (system, job) => { s with system := system.begin w job }
    | none => s
  else s

/-- Does one action. -/
def act (s : Site κ ε) : Action κ ε → Site κ ε
  | .newBuilder =>
    let (system, b) := s.system.newBuilder
    { s with system, builders := s.builders.push (some b) }
  | .add i work access profile =>
    (s.builderAt i).elim s fun b => s.add i b work access profile
  | .execute i => (s.builderAt i).elim s (s.execute i)
  | .drop i => (s.builderAt i).elim s (s.drop i)
  | .reset => { s with system := { s.system with tracker := s.system.tracker.reset } }
  | .take w place position split => s.take w place position split
  | .begin w => s.begin w
  | .conclude w result => { s with system := s.system.conclude w result }
  | .settle w position => { s with system := s.system.settle w position }
  | .poll w query => { s with system := s.system.poll query w }

/-- Does actions in turn. -/
def run (s : Site κ ε) (actions : List (Action κ ε)) : Site κ ε := actions.foldl act s

end Site

end HazardFlow
