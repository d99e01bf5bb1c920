import HazardFlow.Schedule.Worker

/-!
# Stopping

Once its workers have left, a stopping system drops the jobs that nobody took from the inbox and
finishes their parts. A system without workers has nothing to stop.
-/

namespace HazardFlow.System

variable {κ ε : Type}

/-- Drops the jobs of the inbox, oldest first, and finishes their parts, at most so many of them.
Nodes made ready join the inbox. Answers how many jobs were dropped; a fault leaves the rest. -/
def retireInbox (s : System κ ε) : Nat → Outcome (System κ ε) Nat
  | 0 => .pure s 0
  | bound + 1 =>
    match s.inbox.take with
    | none => .pure s 0
    | some (job, inbox) =>
      let s := { s with inbox }.count fun stats => { stats with retired := stats.retired + 1 }
      let handed := s.graph.finishPart (Graph.handJob s.grain) job.node
      let s := { s with graph := handed.graph, inbox := s.inbox.putAll handed.items }
      match handed.fault with
      | some fault => .fail s fault
      | none => (s.retireInbox bound).map (· + 1)

/-- Reports the workers that a fault has ended, and lets go of all workers. -/
def dismiss (s : System κ ε) : System κ ε :=
  let dead := s.workers.toList.filter (·.dead)
  { dead.foldl (fun s _ => s.report .error "scheduler worker terminated abnormally" []) s with
    workers := #[] }

/-- Ends a system whose workers have left. -/
def close (s : System κ ε) : Outcome (System κ ε) Unit :=
  let s := s.dismiss
  (s.retireInbox (s.inbox.waiting.length + s.graph.nodes.size)).bind fun s retired =>
    let s :=
      if retired = 0 then s
      else s.report .warn "retired submitted jobs without running them"
        [("retired", .number retired)]
    .pure (s.report .debug "scheduler stopped" []) ()

end HazardFlow.System
