import HazardFlow.Schedule.Launch
import HazardFlow.Schedule.Machine

/-!
# A running system

Commands on a system whose workers run between them: building and submitting batches, waiting,
firing signals, opening gates and stopping. The workers go on while a command waits.
-/

namespace HazardFlow

/-- A running system, its builders and its submitted batches. -/
structure ScheduleSession where
  machine : Machine
  /-- The builders not yet dropped. -/
  builders : Array (Option Builder) := #[]
  /-- The batches submitted, in order. -/
  batches : Array BatchId := #[]
  /-- Whether the system can still be used after it was stopped. -/
  reusable : Bool := false
  /-- Whether the system was stopped for good. -/
  gone : Bool := false
  /-- What had been reported when the last command ended. -/
  reported : Array LogRecord := #[]

namespace ScheduleSession

/-- One command. -/
inductive Command where
  | newBuilder
  | add (builder : Nat) (work : Work Effect) (access : Access) (profile : Option Profile)
  | length (builder : Nat)
  | execute (builder : Nat)
  | wait (batch : Nat)
  | isDone (batch : Nat)
  | drop (builder : Nat)
  | signal
  | fire (signal : Nat)
  | node (node : NodeId)
  | awaitExecuted (jobs : Nat)
  | awaitComplete (node : NodeId)
  | awaitReady (node : NodeId)
  | awaitReached (gate : Nat)
  | openGate (gate : Nat)
  | stats
  | reset
  | readers (address : Address)
  /-- Stops the system. Gates are opened and signals fired while it waits for its workers. -/
  | shutdown (gates signals : List Nat)
  deriving Repr

/-- What a command answers. -/
inductive Answer where
  | done
  | flag (b : Bool)
  | number (n : Nat)
  /-- The number of nodes of a builder. -/
  | length (n : Nat)
  /-- A new node and its in-degree. -/
  | added (n : NodeId) (inDegree : Nat)
  /-- A submitted batch and its number of nodes. -/
  | submitted (batch size : Nat)
  | node (inDegree : Nat) (complete : Bool) (profile : Option Profile)
  | stats (s : Stats)
  /-- The system cannot stop while it has builders. -/
  | buildersAlive
  /-- The system was stopped for good. -/
  | systemGone
  deriving Repr

/-- What a command needs and the session does not have. -/
inductive Unknown where
  | builder (number : Nat)
  | batch (number : Nat)
  | node (number : Nat)
  | signal (number : Nat)
  deriving DecidableEq, Repr

/-- Starts a system. With `reusable` the settings are not checked beforehand, and the system can
be used after it was stopped. -/
def start (settings : Settings) (workers : Nat) (reusable : Bool) (delay : Option Nat) :
    Except StartError ScheduleSession := do
  let tracker ←
    if reusable then (settings.start workers).mapError .fault else settings.launch workers
  return {
    machine :=
      { system := System.start tracker workers settings.grain settings.backoffCap
        world := { delay } }
    reusable }

/-- A builder that was not dropped. -/
def builderAt (s : ScheduleSession) (n : Nat) : Except Unknown Builder :=
  match s.builders[n]? with
  | some (some b) => .ok b
  | _ => .error (.builder n)

/-- A submitted batch. -/
def batchAt (s : ScheduleSession) (n : Nat) : Except Unknown BatchId :=
  match s.batches[n]? with
  | some b => .ok b
  | none => .error (.batch n)

/-- The graph. -/
def graph (s : ScheduleSession) : Graph Effect := s.machine.system.graph

/-- Requires a node. -/
def needNode (s : ScheduleSession) (n : NodeId) : Except Unknown Unit :=
  if n < s.graph.nodes.size then .ok () else .error (.node n)

/-- Requires a signal. -/
def needSignal (s : ScheduleSession) (i : Nat) : Except Unknown Unit :=
  if i < s.machine.world.signals.observed.size then .ok () else .error (.signal i)

/-- Replaces the system. -/
def withSystem (s : ScheduleSession) (system : System Effect Event) : ScheduleSession :=
  { s with machine := { s.machine with system } }

/-- Replaces the world. -/
def withWorld (s : ScheduleSession) (world : World) : ScheduleSession :=
  { s with machine := { s.machine with world } }

/-- Replaces the system and a builder. -/
def withBuilder (s : ScheduleSession) (n : Nat) (state : System Effect Event × Builder) :
    ScheduleSession :=
  { s.withSystem state.1 with builders := s.builders.setIfInBounds n (some state.2) }

/-- Lets the workers go on until a condition holds. -/
def await (s : ScheduleSession) (condition : Machine → Bool) : ScheduleSession :=
  { s with machine := s.machine.await condition }

/-- Whether a batch is done. -/
def isDone (m : Machine) (b : BatchId) : Bool := (m.system.graph.batch b).done

/-- Opens gates. -/
def openGates (s : ScheduleSession) (gates : List Nat) : ScheduleSession :=
  s.withWorld { s.machine.world with opened := gates ++ s.machine.world.opened }

/-- Fires signals that were not fired before. -/
def fireSignals (s : ScheduleSession) (ids : List Nat) : ScheduleSession :=
  s.withWorld { s.machine.world with signals := s.machine.world.signals.fireAll ids }

/-- Stops the workers. -/
def stop (s : ScheduleSession) : Outcome ScheduleSession Unit :=
  s.machine.shutdown.lift fun machine => { s with machine }

/-- Stops the system, unless it is gone or has builders. -/
def shutdown (s : ScheduleSession) (gates signals : List Nat) :
    Outcome ScheduleSession Answer :=
  if s.gone then .pure s .systemGone
  else if s.builders.any Option.isSome then .pure s .buildersAlive
  else
    let s := { s with gone := !s.reusable }
    (((s.openGates gates).fireSignals signals).stop).bind fun s _ =>
      .pure s (.stats s.machine.system.stats)

/-- Drops a builder. -/
def dropBuilder (s : ScheduleSession) (n : Nat) (b : Builder) : Outcome ScheduleSession Unit :=
  (s.machine.system.dropBuilder b).lift fun system =>
    { s.withSystem system with builders := s.builders.setIfInBounds n none }

/-- Submits the nodes of a builder and numbers their batch. -/
def execute (s : ScheduleSession) (n : Nat) (b : Builder) : Outcome ScheduleSession Answer :=
  ((s.machine.system.execute b).lift (s.withBuilder n)).bind fun s batch =>
    .pure { s with batches := s.batches.push batch }
      (.submitted s.batches.size (s.graph.batch batch).size)

/-- Does one command. -/
def perform (s : ScheduleSession) : Command → Except Unknown (Outcome ScheduleSession Answer)
  | .newBuilder =>
    if s.gone then pure (.pure s .systemGone)
    else
      let (system, b) := s.machine.system.newBuilder
      pure (.pure { s.withSystem system with builders := s.builders.push (some b) }
        (.number s.builders.size))
  | .add n work access profile => do
    let b ← s.builderAt n
    access.deps.forM s.needNode
    pure (((s.machine.system.add b work access profile).lift (s.withBuilder n)).bind fun s node =>
      .pure s (.added node (asWord (s.graph.node node).inDegree)))
  | .length n => do
    let b ← s.builderAt n
    pure (.pure s (.length b.nodes.length))
  | .execute n => do
    let b ← s.builderAt n
    pure (s.execute n b)
  | .wait n => do
    let batch ← s.batchAt n
    pure (.pure (s.await (isDone · batch)) (.flag true))
  | .isDone n => do
    let batch ← s.batchAt n
    pure (.pure s (.flag (isDone s.machine batch)))
  | .drop n => do
    let b ← s.builderAt n
    pure ((s.dropBuilder n b).map fun _ => .done)
  | .signal =>
    let (signals, i) := s.machine.world.signals.create false true
    pure (.pure (s.withWorld { s.machine.world with signals }) (.number i))
  | .fire i => do
    s.needSignal i
    pure (.pure (s.fireSignals [i]) (.flag (s.machine.world.signals.hasTrigger i)))
  | .node n => do
    s.needNode n
    let node := s.graph.node n
    pure (.pure s (.node (asWord node.inDegree) node.isComplete node.profile))
  | .awaitExecuted jobs =>
    pure (.pure (s.await fun m => jobs ≤ m.system.stats.executed) (.flag true))
  | .awaitComplete n => do
    s.needNode n
    pure (.pure (s.await fun m => m.system.graph.isComplete n) (.flag true))
  | .awaitReady n => do
    s.needNode n
    pure (.pure (s.await fun m => (m.system.graph.node n).inDegree == 0) (.flag true))
  | .awaitReached gate =>
    pure (.pure (s.await fun m => m.world.reached.contains gate) .done)
  | .openGate gate => pure (.pure (s.openGates [gate]) .done)
  | .stats =>
    pure (.pure s (if s.gone then .systemGone else .stats s.machine.system.stats))
  | .reset =>
    if s.gone then pure (.pure s .systemGone)
    else
      let system := s.machine.system
      pure (.pure (s.withSystem { system with tracker := system.tracker.reset }) .done)
  | .readers a =>
    pure (.pure s (if s.gone then .systemGone
      else .number (s.machine.system.tracker.readersOf a)))
  | .shutdown gates signals => pure (s.shutdown gates signals)

/-- Does commands in turn. A fault stops its own command only. -/
def performAll (s : ScheduleSession) :
    List Command → Except Unknown (ScheduleSession × List (Except Fault Answer))
  | [] => pure (s, [])
  | command :: rest => do
    let o ← s.perform command
    let s := { o.state with reported := o.state.machine.system.log }
    let (final, results) ← s.performAll rest
    pure (final, o.result :: results)

/-- Opens every gate that was reached, fires every signal, drops every builder and stops. -/
def close (s : ScheduleSession) : ScheduleSession :=
  let s := s.openGates s.machine.world.reached
  let s := s.fireSignals (List.range s.machine.world.signals.observed.size)
  let s := (List.range s.builders.size).foldl (fun s n =>
    match s.builderAt n with
    | .ok b => (s.dropBuilder n b).state
    | .error _ => s) s
  s.stop.state

end ScheduleSession

end HazardFlow
