import HazardFlow.Event
import HazardFlow.Graph.Job
import HazardFlow.Graph.Tracker
import HazardFlow.Graph.Watcher
import HazardFlow.Memory.Request

/-!
# A graph driven by hand

Commands on one graph and its tracker, one step of a node's life each: wiring, claiming, taking
jobs, splitting and running them, watching their events and finishing their parts. Batches, nodes,
jobs, events, signals and watchers are numbered in order of creation.
-/

namespace HazardFlow

/-- What a call does when a session runs it. -/
inductive Call where
  /-- The call finishes, or answers an event. -/
  | answer (event : Option Event)
  /-- The call stops with a message. -/
  | stop (message : String)
  deriving DecidableEq, Repr

/-- A note of work that ran: the node, the device unless the host called it, and the piece of a
range. -/
structure Trace where
  node : NodeId
  device : Option DeviceId := none
  piece : Option Span := none
  deriving DecidableEq, Repr

/-- A graph, its tracker, and what has been taken out of it. -/
structure GraphSession where
  graph : Graph Call := {}
  tracker : Tracker
  /-- The jobs neither run nor dropped. -/
  jobs : Array (Option (Job Call)) := #[]
  /-- The events answered by jobs and not yet watched. -/
  events : Array (Option Event) := #[]
  signals : Signals := {}
  watchers : Array (Watcher Event) := #[]
  /-- The queries after which the event of a device call is complete; none when it is so at
  once. -/
  delay : Option Nat := none

namespace GraphSession

/-- Where a watched event comes from. -/
inductive EventSource where
  /-- Answered by a job, and used once. -/
  | answered (number : Nat)
  | fresh (event : Event)
  deriving DecidableEq, Repr

/-- One command. -/
inductive Command where
  | startBatch
  | arm (batch : BatchId)
  | batchState (batch : BatchId)
  | finishOne (batch : BatchId)
  | addNode (batch : BatchId) (work : Work Call) (profile : Option Profile) (register : Bool)
  | resolve (node : NodeId) (address : Address) (write : Bool)
  | link (source target : NodeId)
  | reset
  | readers (address : Address)
  | shardOf (address : Address)
  | shards
  | claim (node : NodeId)
  | discard (node : NodeId)
  | finish (node : NodeId)
  | info (node : NodeId)
  | same (node other : NodeId)
  | describe (node : NodeId)
  | takeJob (node : NodeId) (grain : Nat)
  | split (job : Nat)
  | describeJob (job : Nat)
  | jobNode (job : Nat)
  | dropJob (job : Nat)
  | run (job : Nat)
  | signal
  | fire (signal : Nat)
  | watcher (cap : Nat)
  | track (watcher : Nat) (node : NodeId) (source : EventSource)
  | poll (watcher times : Nat)
  | drain (watcher : Nat) (fire : List Nat)
  | state
  deriving Repr

/-- The counters of a watcher. -/
structure WatcherState where
  pending : Nat
  skip : Nat
  backoff : Nat
  deriving DecidableEq, Repr

/-- One poll: the events found complete, the nodes made ready, and the counters afterwards. -/
structure PollResult where
  completed : Nat
  ready : List NodeId
  watcher : WatcherState
  deriving DecidableEq, Repr

/-- What a command answers. -/
inductive Answer where
  | done
  | nothing
  | flag (b : Bool)
  | number (n : Nat)
  | text (t : String)
  | nodes (ns : List NodeId)
  | batch (b : Batch)
  | node (id : NodeId) (splittable : Bool) (work : String)
  | shards (inUse : List (Nat × Bool × Nat))
  | info (inDegree : Nat) (complete armed : Bool) (profile : Option Profile)
  /-- The event that a job answered, and what ran. -/
  | ran (event : Option Nat) (trace : List Trace)
  | watcher (w : WatcherState)
  | polls (results : List PollResult)
  | poll (result : PollResult)
  /-- The signal has been fired before. -/
  | alreadyFired
  /-- Every node's in-degree and completeness, and every batch. -/
  | state (nodes : List (Nat × Bool)) (batches : List Batch)
  deriving Repr

/-- What a command needs and the session does not have. -/
inductive Unknown where
  | batch (number : Nat)
  | node (number : Nat)
  | job (number : Nat)
  | event (number : Nat)
  | signal (number : Nat)
  | watcher (number : Nat)
  deriving DecidableEq, Repr

/-- Requires a batch. -/
def needBatch (s : GraphSession) (b : BatchId) : Except Unknown Unit :=
  if b < s.graph.batches.size then .ok () else .error (.batch b)

/-- Requires a node. -/
def needNode (s : GraphSession) (n : NodeId) : Except Unknown Unit :=
  if n < s.graph.nodes.size then .ok () else .error (.node n)

/-- A job neither run nor dropped. -/
def jobAt (s : GraphSession) (j : Nat) : Except Unknown (Job Call) :=
  match s.jobs[j]? with
  | some (some job) => .ok job
  | _ => .error (.job j)

/-- A watcher. -/
def watcherAt (s : GraphSession) (w : Nat) : Except Unknown (Watcher Event) :=
  match s.watchers[w]? with
  | some watcher => .ok watcher
  | none => .error (.watcher w)

/-- Requires a signal. -/
def needSignal (s : GraphSession) (i : Nat) : Except Unknown Unit :=
  if i < s.signals.observed.size then .ok () else .error (.signal i)

/-- The event of a source; an answered one is used up. -/
def takeEvent (s : GraphSession) : EventSource → Except Unknown (GraphSession × Event)
  | .fresh (.signal i) => do
    s.needSignal i
    pure (s, .signal i)
  | .fresh event => pure (s, event)
  | .answered number =>
    match s.events[number]? with
    | some (some event) => pure ({ s with events := s.events.setIfInBounds number none }, event)
    | _ => .error (.event number)

/-- The counters of a watcher. -/
def stateOf (w : Watcher Event) : WatcherState := ⟨w.pending.length, w.skip, w.backoff⟩

/-- Every node's in-degree and completeness, and every batch. -/
def snapshot (s : GraphSession) : List (Nat × Bool) × List Batch :=
  (s.graph.nodes.toList.map fun n => (asWord n.inDegree, n.isComplete), s.graph.batches.toList)

/-- Places the graph and a watcher that were looked at, and answers the look. -/
def watched (s : GraphSession) (number : Nat) (w : Watch Call Event NodeId) :
    Outcome GraphSession PollResult :=
  let s := { s with
    graph := w.handed.graph, watchers := s.watchers.setIfInBounds number w.watcher }
  match w.handed.fault with
  | some fault => .fail s fault
  | none => .pure s ⟨w.completed, w.handed.items, stateOf w.watcher⟩

/-- Polls a watcher several times in turn. -/
def pollTimes (s : GraphSession) (number : Nat) :
    Nat → Outcome GraphSession (List PollResult)
  | 0 => .pure s []
  | times + 1 =>
    match s.watchers[number]? with
    | none => .pure s []
    | some watcher =>
      (s.watched number (watcher.poll (Event.query s.signals) Graph.handNode s.graph)).bind
        fun s result => (s.pollTimes number times).map (result :: ·)

/-- Numbers the event of a device call. -/
def deviceEvent (s : GraphSession) : GraphSession × Option Nat :=
  let event := match s.delay with
    | some queries => Event.countdown queries
    | none => .ready
  ({ s with events := s.events.push (some event) }, some s.events.size)

/-- Runs a job that has been taken out of the session. -/
def runJob (s : GraphSession) (j : Job Call) : Outcome GraphSession Answer :=
  match j.task with
  | .idle => .pure s (.ran none [])
  | .host (.stop message) => .fail s (.work message)
  | .host (.answer none) => .pure s (.ran none [{ node := j.node }])
  | .host (.answer (some event)) =>
    .pure { s with events := s.events.push (some event) }
      (.ran (some s.events.size) [{ node := j.node }])
  | .kernel _ =>
    let (s, event) := s.deviceEvent
    .pure s (.ran event [{ node := j.node, device := some .host }])
  | .range cursor _ =>
    let (s, event) := s.deviceEvent
    .pure s (.ran event
      [{ node := j.node, device := some .host, piece := some cursor.take.1 }])

/-- Finishes a part of a node and answers the nodes made ready. -/
def finish (s : GraphSession) (n : NodeId) : Outcome GraphSession Answer :=
  let handed := s.graph.finishPart Graph.handNode n
  let s := { s with graph := handed.graph }
  match handed.fault with
  | some fault => .fail s fault
  | none => .pure s (.nodes handed.items)

/-- Splits a job and numbers the detached piece. -/
def splitJob (s : GraphSession) (number : Nat) (j : Job Call) : GraphSession × Answer :=
  match s.graph.splitJob j with
  | none => (s, .nothing)
  | some (graph, piece, rest) =>
    ({ s with graph, jobs := (s.jobs.setIfInBounds number (some rest)).push (some piece) },
      .number s.jobs.size)

/-- Does one command. -/
def perform (s : GraphSession) : Command → Except Unknown (Outcome GraphSession Answer)
  | .startBatch =>
    let (graph, b) := s.graph.startBatch
    pure (.pure { s with graph } (.number b))
  | .arm b => do
    s.needBatch b
    pure (.pure { s with graph := s.graph.arm b } .done)
  | .batchState b => do
    s.needBatch b
    pure (.pure s (.batch (s.graph.batch b)))
  | .finishOne b => do
    s.needBatch b
    let graph := s.graph.finishOne b
    pure (.pure { s with graph } (.batch (graph.batch b)))
  | .addNode b work profile register => do
    s.needBatch b
    let (graph, n) := (if register then s.graph.register b else s.graph).addNode work b profile
    pure (.pure { s with graph } (.node n work.isSplittable work.describe))
  | .resolve n a write => do
    s.needNode n
    pure (((s.tracker.resolve s.graph n a write).lift fun (tracker, graph) =>
      { s with tracker, graph }).map .number)
  | .link source target => do
    s.needNode source
    s.needNode target
    pure (((s.graph.link source target).lift fun graph => { s with graph }).map .flag)
  | .reset => pure (.pure { s with tracker := s.tracker.reset } .done)
  | .readers a => pure (.pure s (.number (s.tracker.readersOf a)))
  | .shardOf a => pure (.pure s (.number (s.tracker.shardOf a)))
  | .shards => pure (.pure s (.shards s.tracker.inUse))
  | .claim n => do
    s.needNode n
    let (graph, won) := s.graph.claim n
    pure (.pure { s with graph } (.flag won))
  | .discard n => do
    s.needNode n
    pure (((s.graph.discard n).lift fun graph => { s with graph }).map fun _ => .done)
  | .finish n => do
    s.needNode n
    pure (s.finish n)
  | .info n => do
    s.needNode n
    let node := s.graph.node n
    pure (.pure s (.info (asWord node.inDegree) node.isComplete (s.graph.isArmed n) node.profile))
  | .same n other => do
    s.needNode n
    s.needNode other
    pure (.pure s (.flag (n == other)))
  | .describe n => do
    s.needNode n
    pure (.pure s (.text (s.graph.node n).describe))
  | .takeJob n grain => do
    s.needNode n
    pure (((s.graph.takeJob n grain).lift fun graph => { s with graph }).bind fun s job =>
      .pure { s with jobs := s.jobs.push (some job) } (.number s.jobs.size))
  | .split j => do
    let job ← s.jobAt j
    let (s, answer) := s.splitJob j job
    pure (.pure s answer)
  | .describeJob j => do
    let job ← s.jobAt j
    pure (.pure s (.text (job.describe s.graph)))
  | .jobNode j => do
    let job ← s.jobAt j
    pure (.pure s (.number job.node))
  | .dropJob j => do
    let _ ← s.jobAt j
    pure (.pure { s with jobs := s.jobs.setIfInBounds j none } .done)
  | .run j => do
    let job ← s.jobAt j
    pure (({ s with jobs := s.jobs.setIfInBounds j none } : GraphSession).runJob job)
  | .signal =>
    let (signals, i) := s.signals.create false true
    pure (.pure { s with signals } (.number i))
  | .fire i => do
    s.needSignal i
    if s.signals.hasTrigger i then
      pure (.pure { s with signals := s.signals.fire i } .done)
    else pure (.pure s .alreadyFired)
  | .watcher cap =>
    pure (.pure { s with watchers := s.watchers.push { cap } } (.number s.watchers.size))
  | .track w n source => do
    let watcher ← s.watcherAt w
    s.needNode n
    let (s, event) ← s.takeEvent source
    let watcher := watcher.track event n
    pure (.pure { s with watchers := s.watchers.setIfInBounds w watcher }
      (.watcher (stateOf watcher)))
  | .poll w times => do
    let _ ← s.watcherAt w
    pure ((s.pollTimes w times).map .polls)
  | .drain w fire => do
    let watcher ← s.watcherAt w
    fire.forM s.needSignal
    let s := { s with signals := s.signals.fireAll fire }
    pure ((s.watched w (watcher.drain Graph.handNode s.graph)).map .poll)
  | .state =>
    let (nodes, batches) := s.snapshot
    pure (.pure s (.state nodes batches))

/-- Does commands in turn. A fault stops its own command only. -/
def performAll (s : GraphSession) :
    List Command → Except Unknown (GraphSession × List (Except Fault Answer))
  | [] => pure (s, [])
  | command :: rest => do
    let o ← s.perform command
    let (final, results) ← o.state.performAll rest
    pure (final, o.result :: results)

end GraphSession

end HazardFlow
