import HazardFlow.Graph.Basic
import HazardFlow.Span.Cursor

/-!
# Jobs

A job is what a worker runs: the work of a whole node, or one piece of a range. Taking the work
out of a node makes its first job; splitting a range job makes another part of the same node.
-/

namespace HazardFlow

/-- What a job does. -/
inductive Task (κ : Type) where
  | kernel (call : κ)
  | host (call : κ)
  | idle
  | range (cursor : Cursor) (call : κ)
  deriving Repr

/-- A whole node, or one piece of its range, to be run. -/
structure Job (κ : Type) where
  node : NodeId
  task : Task κ
  deriving Repr

variable {κ : Type}

/-- The text of a job on a node of the graph. -/
def Job.describe (g : Graph κ) (j : Job κ) : String :=
  let kind := match j.task with
    | .kernel _ => ("kind", Text.quote "kernel")
    | .host _ | .idle => ("kind", Text.quote "host")
    | .range cursor _ => ("range", cursor.remaining.describe)
  Text.record "Job" [kind, ("node", (g.node j.node).describe)]

namespace Graph

/-- Takes the work of a node as its first job. Work is taken once; a range that no cursor covers
is taken all the same. -/
def takeJob (g : Graph κ) (n : NodeId) (grain : Nat) : Outcome (Graph κ) (Job κ) :=
  match (g.node n).work with
  | none => .fail g .workTaken
  | some work =>
    let g := g.updateNode n ({ · with work := none })
    match work with
    | .kernel call => .pure g ⟨n, .kernel call⟩
    | .host call => .pure g ⟨n, .host call⟩
    | .idle => .pure g ⟨n, .idle⟩
    | .range span call =>
      match Cursor.ofSpan span grain with
      | .ok cursor => .pure g ⟨n, .range cursor call⟩
      | .error fault => .fail g fault

/-- Detaches the lower half of a range job as another part of its node: the piece and the rest.
Other jobs, and ranges at their grain, do not split. -/
def splitJob (g : Graph κ) (j : Job κ) : Option (Graph κ × Job κ × Job κ) :=
  match j.task with
  | .range cursor call =>
    cursor.split.map fun (piece, rest) =>
      (g.updateNode j.node fun n => { n with parts := n.parts + 1 },
        ⟨j.node, .range piece call⟩, ⟨j.node, .range rest call⟩)
  | _ => none

end Graph

end HazardFlow
