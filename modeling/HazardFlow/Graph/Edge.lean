import HazardFlow.Graph.Basic

/-!
# Edges

An edge makes its target wait for its source. It is recorded in the source's list of successors
and counted by the target; a source already complete has nothing left to wait for.
-/

namespace HazardFlow.Graph

variable {κ : Type}

/-- Wires an edge and tells whether it was recorded. An edge from a node to itself is ignored, and
an edge from a complete node is satisfied at once. When such a target has been submitted already,
the call stops and leaves the target's in-degree raised. -/
def link (g : Graph κ) (source target : NodeId) : Outcome (Graph κ) Bool :=
  if source = target then .pure g false
  else
    let raised := g.updateNode target fun n => { n with inDegree := n.inDegree + 1 }
    match (raised.node source).successors.push target with
    | some successors => .pure (raised.updateNode source ({ · with successors })) true
    | none =>
      if raised.isArmed target then .fail raised .successorSubmitted
      else .pure (raised.updateNode target fun n => { n with inDegree := n.inDegree - 1 }) false

/-- Wires edges from several sources in turn and answers how many were recorded. -/
def linkAll (g : Graph κ) (sources : List NodeId) (target : NodeId) : Outcome (Graph κ) Nat :=
  match sources with
  | [] => .pure g 0
  | source :: rest =>
    (g.link source target).bind fun g recorded =>
      (g.linkAll rest target).map (· + recorded.toNat)

@[simp] theorem link_self (g : Graph κ) (n : NodeId) : g.link n n = .pure g false := by
  simp [link]

@[simp] theorem linkAll_nil (g : Graph κ) (target : NodeId) : g.linkAll [] target = .pure g 0 :=
  rfl

end HazardFlow.Graph
