import HazardFlow.Graph.Work
import HazardFlow.Profile
import HazardFlow.SealableList

/-!
# The graph

Nodes are added in batches. A node counts the edges that lead to it from incomplete nodes, lists
the nodes that its own completion releases, and completes when its last part has finished. A batch
counts what has to finish before it is done as a whole.
-/

namespace HazardFlow

/-- A node, by its order of creation. -/
abbrev NodeId := Nat

/-- A batch, by its order of creation. -/
abbrev BatchId := Nat

/-- Nodes that are submitted together. -/
structure Batch where
  /-- Whether nodes of the batch may be dispatched. -/
  armed : Bool := false
  /-- The nodes not yet complete, and one more until the batch has been submitted. -/
  remaining : Int := 1
  /-- The number of nodes. -/
  size : Nat := 0
  /-- Whether everything has finished. -/
  done : Bool := false
  deriving DecidableEq, Repr, Inhabited

/-- A unit of the graph. -/
structure Node (κ : Type) where
  /-- The work, until it is taken. -/
  work : Option (Work κ)
  /-- The edges from nodes not yet complete. -/
  inDegree : Int := 0
  /-- The nodes to release on completion; closed once the node is complete. -/
  successors : SealableList NodeId := .growing []
  /-- Whether the node has been claimed for dispatch. -/
  claimed : Bool := false
  /-- The parts of the node's work not yet finished. -/
  parts : Int := 1
  batch : BatchId
  profile : Option Profile := none
  deriving Repr

namespace Node

variable {κ : Type}

instance : Inhabited (Node κ) := ⟨{ work := none, batch := 0 }⟩

/-- Whether the node's work, with every part split off, has finished. -/
def isComplete (n : Node κ) : Bool := n.successors.isClosed

/-- The text of a node. -/
def describe (n : Node κ) : String :=
  Text.openRecord "NodeHandle"
    [("in_degree", toString (asWord n.inDegree)), ("complete", Text.flag n.isComplete),
      ("metadata", Text.optional (n.profile.map Profile.describe))]

end Node

/-- Nodes and their batches. -/
structure Graph (κ : Type) where
  batches : Array Batch := #[]
  nodes : Array (Node κ) := #[]

namespace Graph

variable {κ : Type}

/-- A batch of the graph. -/
def batch (g : Graph κ) (b : BatchId) : Batch := g.batches.getD b default

/-- A node of the graph. -/
def node (g : Graph κ) (n : NodeId) : Node κ := g.nodes.getD n default

/-- Changes one batch. -/
def updateBatch (g : Graph κ) (b : BatchId) (f : Batch → Batch) : Graph κ :=
  { g with batches := g.batches.modify b f }

/-- Changes one node. -/
def updateNode (g : Graph κ) (n : NodeId) (f : Node κ → Node κ) : Graph κ :=
  { g with nodes := g.nodes.modify n f }

/-- Whether a node is complete. -/
def isComplete (g : Graph κ) (n : NodeId) : Bool := (g.node n).isComplete

/-- Whether nodes of the batch of a node may be dispatched. -/
def isArmed (g : Graph κ) (n : NodeId) : Bool := (g.batch (g.node n).batch).armed

/-- Starts a batch. -/
def startBatch (g : Graph κ) : Graph κ × BatchId :=
  ({ g with batches := g.batches.push {} }, g.batches.size)

/-- Counts one more node in a batch. -/
def register (g : Graph κ) (b : BatchId) : Graph κ :=
  g.updateBatch b fun batch =>
    { batch with remaining := batch.remaining + 1, size := batch.size + 1 }

/-- Lets nodes of a batch be dispatched. -/
def arm (g : Graph κ) (b : BatchId) : Graph κ := g.updateBatch b ({ · with armed := true })

/-- Counts one finished thing of a batch. The last one makes the batch done. -/
def finishOne (g : Graph κ) (b : BatchId) : Graph κ :=
  g.updateBatch b fun batch =>
    { batch with
      remaining := batch.remaining - 1
      done := batch.done || batch.remaining == 1 }

/-- Adds a node to a batch, without counting it there. -/
def addNode (g : Graph κ) (work : Work κ) (b : BatchId) (profile : Option Profile) :
    Graph κ × NodeId :=
  ({ g with nodes := g.nodes.push { work := some work, batch := b, profile } }, g.nodes.size)

/-- Wins the right to dispatch a node, once. -/
def claim (g : Graph κ) (n : NodeId) : Graph κ × Bool :=
  (g.updateNode n ({ · with claimed := true }), !(g.node n).claimed)

/-- Replaces the work of a node by an idle one, which is allowed until its batch is armed. -/
def discard (g : Graph κ) (n : NodeId) : Outcome (Graph κ) Unit :=
  if g.isArmed n then .fail g .discardSubmitted
  else .pure (g.updateNode n ({ · with work := some .idle })) ()

@[simp] theorem size_nodes_updateNode (g : Graph κ) (n : NodeId) (f : Node κ → Node κ) :
    (g.updateNode n f).nodes.size = g.nodes.size := by
  simp [updateNode]

@[simp] theorem batches_updateNode (g : Graph κ) (n : NodeId) (f : Node κ → Node κ) :
    (g.updateNode n f).batches = g.batches := rfl

@[simp] theorem nodes_updateBatch (g : Graph κ) (b : BatchId) (f : Batch → Batch) :
    (g.updateBatch b f).nodes = g.nodes := rfl

/-- An update changes the node that it names and no other. -/
theorem node_updateNode (g : Graph κ) {n m : NodeId} (f : Node κ → Node κ)
    (h : m < g.nodes.size) :
    (g.updateNode n f).node m = if n = m then f (g.node m) else g.node m := by
  simp only [node, updateNode, Array.getD_eq_getD_getElem?, Array.getElem?_modify]
  split <;> simp [h]

end Graph

end HazardFlow
