import HazardFlow.Graph.Basic

/-!
# Completion

A node completes with its last part. Its list of successors is then closed, every successor loses
an edge for each of its entries, and those that wait for nothing more are claimed and handed on.
-/

namespace HazardFlow

/-- How ready nodes are handed on, and what that makes of each. -/
abbrev Hand (κ β : Type) := Graph κ → NodeId → Outcome (Graph κ) β

/-- What handing on nodes leaves behind: what was handed on, in order, and the fault that stopped
it, if any. -/
structure Handed (κ β : Type) where
  graph : Graph κ
  items : List β
  fault : Option Fault

namespace Graph

variable {κ β : Type}

/-- Ready nodes handed on as they are. -/
def handNode : Hand κ NodeId := fun g n => .pure g n

/-- Takes one edge from a node, and claims the node when that was its last edge, its batch is
armed and it has not been claimed. Tells whether the node was claimed. -/
def release (g : Graph κ) (n : NodeId) : Graph κ × Bool :=
  let last := (g.node n).inDegree == 1
  let lowered := g.updateNode n fun m => { m with inDegree := m.inDegree - 1 }
  if last && lowered.isArmed n then lowered.claim n else (lowered, false)

/-- Releases nodes in turn and hands on those that become ready. A fault in handing one on stops
the walk. -/
def releaseAll (hand : Hand κ β) (g : Graph κ) : List NodeId → Handed κ β
  | [] => ⟨g, [], none⟩
  | n :: rest =>
    match g.release n with
    | (g, false) => releaseAll hand g rest
    | (g, true) =>
      match hand g n with
      | ⟨g, .error fault⟩ => ⟨g, [], some fault⟩
      | ⟨g, .ok item⟩ =>
        let later := releaseAll hand g rest
        { later with items := item :: later.items }

/-- Finishes one part of a node. The last part completes the node: its successors are released,
newest first, and its batch counts it as finished. When handing on a ready node stops with a
fault, the remaining successors are not released and the batch does not count the node. -/
def finishPart (hand : Hand κ β) (g : Graph κ) (n : NodeId) : Handed κ β :=
  let last := (g.node n).parts == 1
  let g := g.updateNode n fun m => { m with parts := m.parts - 1 }
  if last then
    let closing := (g.node n).successors.close
    let g := g.updateNode n ({ · with successors := closing.state })
    match closing.result with
    | .error fault => ⟨g, [], some fault⟩
    | .ok successors =>
      let released := releaseAll hand g successors
      match released.fault with
      | some _ => released
      | none => { released with graph := released.graph.finishOne (g.node n).batch }
  else ⟨g, [], none⟩

@[simp] theorem releaseAll_nil (hand : Hand κ β) (g : Graph κ) :
    releaseAll hand g [] = ⟨g, [], none⟩ := rfl

end Graph

end HazardFlow
