import HazardFlow.Proofs.Graph.Releasing
import HazardFlow.Proofs.Interleaving
import HazardFlow.Proofs.Schedule.Run

/-!
# Runs in small steps

In a yard nothing that builders and workers do is left in one piece: a submission arms its batch,
looks at the nodes one by one and ends, and between any two of these moves other builders may make
theirs and parts may finish. Who runs a job does not matter, so that all jobs wait in one place and
any of them may be split, begun or dropped. A move that is not possible changes nothing, so that
every list of moves is a run. What happens is noted down.
-/

namespace HazardFlow

/-- A builder, and how far it has come. -/
inductive Crew where
  /-- It adds nodes. -/
  | adding (builder : Builder)
  /-- It goes away, and has yet to discard the work of the nodes in `left`. -/
  | leaving (builder : Builder) (left : List NodeId)
  | gone
  deriving DecidableEq, Repr

/-- The builder of a crew. -/
def Crew.builder : Crew → Option Builder
  | .adding b => some b
  | .leaving b _ => some b
  | .gone => none

/-- How far a submission has come. -/
inductive Phase where
  | underWay
  /-- A fault stopped it. -/
  | stopped
  | ended
  deriving DecidableEq, Repr

/-- A submission of a batch that has been armed. -/
structure Submission where
  batch : BatchId
  /-- The nodes still to be looked at. -/
  due : List NodeId
  phase : Phase := .underWay
  deriving DecidableEq, Repr

/-- Where a part of a node is. -/
inductive Stage where
  | queued
  | running
  /-- Its work goes on until an event completes. -/
  | watched
  deriving DecidableEq, Repr

/-- Something that happened. -/
inductive Note (κ : Type) where
  | opened (crew : Nat)
  | added (crew : Nat) (node : NodeId) (work : Work κ)
  | discarded (node : NodeId)
  /-- The submission of a batch began. -/
  | submitted (crew : Nat) (batch : BatchId)
  /-- A node was claimed and handed over: by the submission of its batch, or by the last part of the
  node that released it. -/
  | handed (node : NodeId) (releasedBy : Option NodeId)
  /-- A node was turned into its first job. -/
  | made (job : Job κ)
  | split (node : NodeId)
  | began (job : Job κ)
  /-- A job was dropped without being run. -/
  | retired (job : Job κ)
  | fault (fault : Fault)

/-- A system whose jobs are run by anyone, the builders that feed it, and what has happened. -/
structure Yard (κ ε : Type) where
  /-- The queued jobs wait in its inbox. -/
  system : System κ ε
  running : List (Job κ) := []
  /-- The jobs that have been run and answered an event. -/
  watched : List (Job κ) := []
  crews : Array Crew := #[]
  submissions : Array Submission := #[]
  /-- What has happened, newest first. -/
  notes : List (Note κ) := []

/-- What may happen in a yard. -/
inductive Move (κ : Type) where
  | newBuilder
  | add (crew : Nat) (work : Work κ) (profile : Option Profile)
  /-- Makes a call that wires a node of a batch not yet armed. -/
  | wire (node : NodeId) (call : WireCall)
  /-- Forgets all accesses. -/
  | reset
  /-- Begins to submit the nodes of a builder, which then adds nodes to a new batch. -/
  | execute (crew : Nat)
  /-- Drops a builder. -/
  | drop (crew : Nat)
  /-- Discards the work of the next node of a builder that goes away. -/
  | discard (crew : Nat)
  /-- Begins to submit the nodes of a builder that goes away. -/
  | abandon (crew : Nat)
  /-- Looks at the next node of a submission. -/
  | dispatch (submission : Nat)
  /-- Ends a submission that has looked at all its nodes. -/
  | close (submission : Nat)
  /-- Splits a queued job. -/
  | split (position : Nat)
  /-- Begins to run a queued job. -/
  | begin (position : Nat)
  /-- A job that was run answers an event. -/
  | watch (position : Nat)
  /-- Finishes a part: of a queued job that is dropped, of a job that was run, or of one whose event
  completes. -/
  | finish (stage : Stage) (position : Nat)

namespace Yard

variable {κ ε : Type}

/-- A yard in which nothing has happened yet. -/
def start (tracker : Tracker) (grain : Nat) : Yard κ ε :=
  { system := System.start tracker 0 grain 0 }

/-- The graph. -/
def graph (s : Yard κ ε) : Graph κ := s.system.graph

/-- The jobs at a stage. -/
def jobsAt (s : Yard κ ε) : Stage → List (Job κ)
  | .queued => s.system.inbox.waiting
  | .running => s.running
  | .watched => s.watched

/-- The jobs at all stages. -/
def jobs (s : Yard κ ε) : List (Job κ) := s.system.inbox.waiting ++ s.running ++ s.watched

/-- The number of jobs of a node that are queued, running or watched. -/
def load (s : Yard κ ε) (n : NodeId) : Nat := s.jobs.countP (·.node == n)

/-- The yard without the job at some position of a stage. -/
def without (s : Yard κ ε) (stage : Stage) (position : Nat) : Yard κ ε :=
  match stage with
  | .queued => { s with system := s.system.withoutJob .inbox position }
  | .running => { s with running := s.running.eraseIdx position }
  | .watched => { s with watched := s.watched.eraseIdx position }

/-- Notes down the fault that stopped an operation. -/
def noteFault {α : Type} (s : Yard κ ε) : Except Fault α → Yard κ ε
  | .ok _ => s
  | .error fault => { s with notes := .fault fault :: s.notes }

/-- Adds a node to a builder. -/
def add (s : Yard κ ε) (i : Nat) (b : Builder) (work : Work κ) (profile : Option Profile) :
    Yard κ ε :=
  let (graph, n) := (s.graph.register b.batch).addNode work b.batch profile
  { s with
    system := { s.system with graph }
    crews := s.crews.setIfInBounds i (.adding { b with nodes := b.nodes ++ [n] })
    notes := .added i n work :: s.notes }

/-- Whether a call may be made: its node is not armed yet, and its source exists. -/
def mayWire (s : Yard κ ε) (n : NodeId) (c : WireCall) : Bool :=
  n < s.graph.nodes.size && !s.graph.isArmed n && match c with
    | .access _ _ => true
    | .edge source => source < s.graph.nodes.size

/-- Makes a call that wires a node. -/
def wire (s : Yard κ ε) (n : NodeId) (c : WireCall) : Yard κ ε :=
  let made := s.system.tracker.make s.graph n c
  ({ s with system := { s.system with tracker := made.state.1, graph := made.state.2 } } :
    Yard κ ε).noteFault made.result

/-- Begins to submit the nodes of a builder: a new batch is started, and that of the builder is
armed. -/
def submit (s : Yard κ ε) (i : Nat) (b : Builder) (next : Builder → Crew) : Yard κ ε :=
  let (system, fresh) := s.system.newBuilder
  { s with
    system := { system with graph := system.graph.arm b.batch }
    crews := s.crews.setIfInBounds i (next fresh)
    submissions := s.submissions.push { batch := b.batch, due := b.nodes }
    notes := .submitted i b.batch :: s.notes }

/-- Discards the work of a node. -/
def discard (s : Yard κ ε) (n : NodeId) : Yard κ ε :=
  let discarded := s.graph.discard n
  ({ s with
    system := { s.system with graph := discarded.state }
    notes := .discarded n :: s.notes } : Yard κ ε).noteFault discarded.result

/-- Dispatches a node that a submission has come to. Its job is what the inbox has more. -/
def dispatch (s : Yard κ ε) (k : Nat) (b : BatchId) (n : NodeId) (due : List NodeId) :
    Yard κ ε :=
  let dispatched := s.system.dispatch n
  match dispatched.result with
  | .ok handed => { s with
      system := dispatched.state
      submissions := s.submissions.setIfInBounds k { batch := b, due }
      notes := (dispatched.state.inbox.waiting.drop s.system.inbox.waiting.length).map .made ++
        if handed then .handed n none :: s.notes else s.notes }
  | .error fault => { s with
      system := dispatched.state
      submissions := s.submissions.setIfInBounds k { batch := b, due, phase := .stopped }
      notes := .fault fault :: .handed n none :: s.notes }

/-- Ends a submission. -/
def close (s : Yard κ ε) (k : Nat) (b : BatchId) : Yard κ ε :=
  { s with
    system := { s.system with graph := s.graph.finishOne b }
    submissions := s.submissions.setIfInBounds k { batch := b, due := [], phase := .ended } }

/-- Puts the pieces of a split job in its place, the detached one behind all jobs. -/
def split (s : Yard κ ε) (position : Nat) (graph : Graph κ) (piece rest : Job κ) : Yard κ ε :=
  { s with
    system := { s.system with
      graph
      inbox := { s.system.inbox with
        waiting := s.system.inbox.waiting.set position rest ++ [piece] } }
    notes := .split piece.node :: s.notes }

/-- Finishes a part of a node. The nodes made ready by it are handed over. -/
def finish (s : Yard κ ε) (n : NodeId) : Yard κ ε :=
  let hand := Graph.handJob s.system.grain
  let handed := s.graph.finishPart hand n
  { s with
    system := { s.system with
      graph := handed.graph, inbox := s.system.inbox.putAll handed.items }
    notes := handed.fault.toList.map .fault ++ (handed.items.map .made).reverse ++
      ((s.graph.passedOnBy hand n).map (.handed · (some n))).reverse ++ s.notes }

/-- A job that is dropped while it is queued is noted down as retired. -/
def noteDrop (s : Yard κ ε) (stage : Stage) (job : Job κ) : Yard κ ε :=
  match stage with
  | .queued => { s with notes := .retired job :: s.notes }
  | _ => s

/-- Finishes the part of a job that lies at some position of a stage. -/
def finishAt (s : Yard κ ε) (stage : Stage) (position : Nat) (job : Job κ) : Yard κ ε :=
  ((s.without stage position).noteDrop stage job).finish job.node

/-- Makes one move. -/
def act (s : Yard κ ε) : Move κ → Yard κ ε
  | .newBuilder =>
    let (system, b) := s.system.newBuilder
    { s with
      system, crews := s.crews.push (.adding b), notes := .opened s.crews.size :: s.notes }
  | .add i work profile =>
    match s.crews[i]? with
    | some (.adding b) => s.add i b work profile
    | _ => s
  | .wire n c => if s.mayWire n c then s.wire n c else s
  | .reset => { s with system := { s.system with tracker := s.system.tracker.reset } }
  | .execute i =>
    match s.crews[i]? with
    | some (.adding b) => s.submit i b .adding
    | _ => s
  | .drop i =>
    match s.crews[i]? with
    | some (.adding b) =>
      let crew := if b.nodes.isEmpty then .gone else .leaving b b.nodes
      { s with crews := s.crews.setIfInBounds i crew }
    | _ => s
  | .discard i =>
    match s.crews[i]? with
    | some (.leaving b (n :: left)) =>
      ({ s with crews := s.crews.setIfInBounds i (.leaving b left) } : Yard κ ε).discard n
    | _ => s
  | .abandon i =>
    match s.crews[i]? with
    | some (.leaving b []) => s.submit i b fun _ => .gone
    | _ => s
  | .dispatch k =>
    match s.submissions[k]? with
    | some ⟨b, n :: due, .underWay⟩ => s.dispatch k b n due
    | _ => s
  | .close k =>
    match s.submissions[k]? with
    | some ⟨b, [], .underWay⟩ => s.close k b
    | _ => s
  | .split position =>
    match (s.jobsAt .queued)[position]?.bind s.graph.splitJob with
    | some (graph, piece, rest) => s.split position graph piece rest
    | none => s
  | .begin position =>
    match (s.jobsAt .queued)[position]? with
    | some job => { s.without .queued position with
        running := job :: s.running, notes := .began job :: s.notes }
    | none => s
  | .watch position =>
    match (s.jobsAt .running)[position]? with
    | some job => { s.without .running position with watched := job :: s.watched }
    | none => s
  | .finish stage position =>
    match (s.jobsAt stage)[position]? with
    | some job => s.finishAt stage position job
    | none => s

/-- Makes moves in turn. -/
def run (s : Yard κ ε) (moves : List (Move κ)) : Yard κ ε := moves.foldl act s

end Yard

end HazardFlow
