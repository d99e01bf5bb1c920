import HazardFlow.Schedule.System

/-!
# Building and submitting

A builder collects the nodes of a batch. Nodes are wired as they are added, and dispatched once
the batch is submitted. A builder that goes away with nodes submits them too, but with their work
discarded: they may already stand between nodes of other batches.
-/

namespace HazardFlow

/-- The nodes added since the last submission, and their batch. -/
structure Builder where
  batch : BatchId
  nodes : List NodeId := []
  deriving DecidableEq, Repr

/-- What a node declares when it is added. -/
structure Access where
  reads : List Address := []
  writes : List Address := []
  /-- The nodes to wait for besides those found by hazards. -/
  deps : List NodeId := []
  deriving DecidableEq, Repr

namespace Access

/-- The addresses tracked as written, each once. -/
def written (a : Access) : List Address := a.writes.eraseDups

/-- The addresses tracked as read, each once: an address that is written too counts as written. -/
def onlyRead (a : Access) : List Address := a.reads.eraseDups.filter fun x => !a.writes.contains x

end Access

namespace Tracker

variable {κ : Type}

/-- Orders accesses of a node to several addresses in turn. -/
def resolveAll (t : Tracker) (g : Graph κ) (n : NodeId) (write : Bool) :
    List Address → Outcome (Tracker × Graph κ) Unit
  | [] => .pure (t, g) ()
  | a :: rest =>
    (t.resolve g n a write).bind fun (t, g) _ => t.resolveAll g n write rest

/-- Wires a node: its reads, then its writes, then its explicit predecessors. -/
def wire (t : Tracker) (g : Graph κ) (n : NodeId) (access : Access) :
    Outcome (Tracker × Graph κ) Unit :=
  ((t.resolveAll g n false access.onlyRead).bind fun (t, g) _ =>
    t.resolveAll g n true access.written).bind fun (t, g) _ =>
      ((g.linkAll access.deps n).lift (t, ·)).map fun _ => ()

end Tracker

namespace System

variable {κ ε : Type}

/-- Starts a builder. -/
def newBuilder (s : System κ ε) : System κ ε × Builder :=
  let (graph, batch) := s.graph.startBatch
  ({ s with graph }, { batch })

/-- Adds a node to a builder. -/
def add (s : System κ ε) (b : Builder) (work : Work κ) (access : Access)
    (profile : Option Profile) : Outcome (System κ ε × Builder) NodeId :=
  let (graph, n) := (s.graph.register b.batch).addNode work b.batch profile
  ((s.tracker.wire graph n access).lift fun (tracker, graph) =>
    ({ s with tracker, graph }, { b with nodes := b.nodes ++ [n] })).map fun _ => n

/-- Claims a node that waits for nothing and puts its first job into the inbox. Tells whether it
did. -/
def dispatch (s : System κ ε) (n : NodeId) : Outcome (System κ ε) Bool :=
  if (s.graph.node n).inDegree = 0 then
    match s.graph.claim n with
    | (graph, false) => .pure { s with graph } false
    | (graph, true) =>
      ((graph.takeJob n s.grain).lift fun graph => { s with graph }).bind fun s job =>
        .pure { s with inbox := s.inbox.put job } true
  else .pure s false

/-- Dispatches nodes in turn and answers how many were. -/
def dispatchAll (s : System κ ε) : List NodeId → Outcome (System κ ε) Nat
  | [] => .pure s 0
  | n :: rest =>
    (s.dispatch n).bind fun s dispatched => (s.dispatchAll rest).map (· + dispatched.toNat)

/-- Submits a batch: arms it, dispatches those of its nodes that wait for nothing, and counts the
submission as finished. A fault in making a job leaves the rest undispatched and the batch open.
Answers how many nodes were dispatched. -/
def submit (s : System κ ε) (b : Builder) : Outcome (System κ ε) Nat :=
  (({ s with graph := s.graph.arm b.batch } : System κ ε).dispatchAll b.nodes).bind fun s roots =>
    .pure { s with graph := s.graph.finishOne b.batch } roots

/-- Submits the nodes of a builder, which then starts a new batch. -/
def execute (s : System κ ε) (b : Builder) : Outcome (System κ ε × Builder) BatchId :=
  let (s, fresh) := s.newBuilder
  ((s.submit b).bind fun s roots =>
    .pure (s.report .debug "graph generation submitted"
      [("nodes", .number b.nodes.length), ("roots", .number roots)]) b.batch).lift fun s =>
        (s, fresh)

/-- Discards the work of nodes in turn. -/
def discardAll (s : System κ ε) : List NodeId → Outcome (System κ ε) Unit
  | [] => .pure s ()
  | n :: rest =>
    ((s.graph.discard n).lift fun graph => { s with graph }).bind fun s _ => s.discardAll rest

/-- Drops a builder. Its nodes, if any, are submitted with their work discarded. -/
def dropBuilder (s : System κ ε) (b : Builder) : Outcome (System κ ε) Unit :=
  if b.nodes.isEmpty then .pure s ()
  else
    let s := s.report .warn "task graph dropped with unexecuted nodes; discarding their work"
      [("nodes", .number b.nodes.length)]
    (s.discardAll b.nodes).bind fun s _ =>
      let s := s.newBuilder.1
      (s.submit b).bind fun s _ =>
        .pure (s.report .debug "graph generation submitted" [("nodes", .number b.nodes.length)])
          ()

end System

end HazardFlow
