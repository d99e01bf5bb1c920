import HazardFlow.Proofs.Graph.FirstJobs
import HazardFlow.Proofs.Tiling
import HazardFlow.Proofs.Yard.Handing

/-!
# The pieces of a range

A range that is dispatched becomes one job, which covers all of it. Jobs that are queued may be
split, begun and dropped in any order, and what they cover always tiles the range. As long as one
of them is under way, the node counts its part and is not complete.
-/

namespace HazardFlow

variable {κ ε : Type}

/-- The piece of a node's range that a job covers. -/
def Job.pieceOf (n : NodeId) (job : Job κ) : Option Span :=
  match job.task with
  | .range cursor _ => if job.node = n then some cursor.take.1 else none
  | _ => none

namespace Note

/-- The piece of a node's range that was begun or dropped. -/
def pieceOf (n : NodeId) : Note κ → Option Span
  | .began job => job.pieceOf n
  | .retired job => job.pieceOf n
  | _ => none

/-- Whether a job was begun. -/
def isBegan : Note κ → Bool
  | .began _ => true
  | _ => false

/-- The node of a job that was split. -/
def splitNode : Note κ → Option NodeId
  | .split n => some n
  | _ => none

/-- The node that was added, and its work. -/
def addition : Note κ → Option (NodeId × Work κ)
  | .added _ n work => some (n, work)
  | _ => none

/-- The node whose work was discarded. -/
def discard : Note κ → Option NodeId
  | .discarded n => some n
  | _ => none

end Note

/-- A job covers a piece of no other node's range. -/
theorem Job.pieceOf_of_ne {n : NodeId} {job : Job κ} (h : job.node ≠ n) : job.pieceOf n = none := by
  unfold pieceOf
  split
  · exact if_neg h
  · rfl

namespace Yard

open HazardFlow.Graph (addLoad)

variable {s s' : Yard κ ε} {move : Move κ}

/-- The nodes added so far and their works, newest first. -/
def additions (s : Yard κ ε) : List (NodeId × Work κ) := s.notes.filterMap Note.addition

/-- The nodes whose works were discarded so far, newest first. -/
def discards (s : Yard κ ε) : List NodeId := s.notes.filterMap Note.discard

/-- How often a job of a node was split. -/
def splits (s : Yard κ ε) (n : NodeId) : Nat := (s.notes.filterMap Note.splitNode).count n

/-- The pieces of a node's range that were begun, newest first. -/
def begun (s : Yard κ ε) (n : NodeId) : List Span :=
  (s.notes.filter Note.isBegan).filterMap (Note.pieceOf n)

/-- The pieces of a node's range: those queued, and those begun or dropped. -/
def pieces (s : Yard κ ε) (n : NodeId) : List Span :=
  s.system.inbox.waiting.filterMap (Job.pieceOf n) ++ s.notes.filterMap (Note.pieceOf n)

section Pieces

variable {stage : Stage} {position : Nat} {job : Job κ} (n : NodeId)

/-- A job that leaves the queue leaves its piece behind in the notes. -/
theorem pieces_of_noted (hjob : (s.jobsAt .queued)[position]? = some job) {note : Note κ}
    (hnote : note.pieceOf n = job.pieceOf n) :
    ((s.system.inbox.waiting.eraseIdx position).filterMap (Job.pieceOf n) ++
      (note :: s.notes).filterMap (Note.pieceOf n)).Perm (s.pieces n) := by
  obtain ⟨hlt, hget⟩ := List.getElem?_eq_some_iff.mp hjob
  have hperm := (List.getElem_cons_eraseIdx_perm hlt).filterMap (Job.pieceOf n)
  rw [hget] at hperm
  have hall := hperm.append_right (s.notes.filterMap (Note.pieceOf n))
  rw [List.filterMap_cons] at hall ⊢
  rw [hnote]
  cases hpiece : job.pieceOf n with
  | none =>
    rw [hpiece] at hall
    exact hall
  | some piece =>
    rw [hpiece] at hall
    exact List.perm_middle.trans hall

/-- A job that is still queued was queued before. -/
theorem mem_waiting_without {other : Job κ}
    (h : other ∈ (s.without stage position).system.inbox.waiting) :
    other ∈ s.system.inbox.waiting := by
  cases stage with
  | queued => exact List.mem_of_mem_eraseIdx h
  | running | watched => exact h

/-- Dropping a queued job changes no pieces. -/
theorem pieces_dropped (hjob : (s.jobsAt stage)[position]? = some job) :
    (((s.without stage position).noteDrop stage job).pieces n).Perm (s.pieces n) := by
  cases stage with
  | queued => exact pieces_of_noted n hjob rfl
  | running | watched => exact List.Perm.refl _

/-- The jobs made when a part finishes are queued behind those that are left. -/
theorem waiting_finishAt (s : Yard κ ε) (stage : Stage) (position : Nat) (job : Job κ) :
    (s.finishAt stage position job).system.inbox.waiting =
      (s.without stage position).system.inbox.waiting ++
        (s.graph.finishPart (Graph.handJob s.system.grain) job.node).items := by
  cases stage <;> rfl

/-- Finishing a part adds the pieces of the first jobs that it makes. -/
theorem pieces_finishAt (hjob : (s.jobsAt stage)[position]? = some job) :
    ((s.finishAt stage position job).pieces n).Perm
      ((s.graph.finishPart (Graph.handJob s.system.grain) job.node).items.filterMap
        (Job.pieceOf n) ++ s.pieces n) := by
  have hnotes : (s.finishAt stage position job).notes.filterMap (Note.pieceOf n) =
      ((s.without stage position).noteDrop stage job).notes.filterMap (Note.pieceOf n) := by
    rw [filterMap_finishAt]
    cases stage <;> simp [Note.pieceOf, noteDrop, without]
  have hdropped := pieces_dropped n hjob
  have hleft : ((s.without stage position).noteDrop stage job).system.inbox.waiting =
      (s.without stage position).system.inbox.waiting := by cases stage <;> rfl
  unfold pieces at hdropped ⊢
  rw [hleft] at hdropped
  rw [waiting_finishAt, hnotes, List.filterMap_append, List.append_assoc]
  exact (List.perm_append_comm_assoc ..).trans (hdropped.append_left _)

/-- The halves of a split job replace it. -/
theorem pieces_split (hjob : (s.jobsAt .queued)[position]? = some job) (g : Graph κ)
    (piece rest : Job κ) :
    ∃ others, (s.pieces n).Perm ((job.pieceOf n).toList ++ others) ∧
      ((s.split position g piece rest).pieces n).Perm
        ((piece.pieceOf n).toList ++ ((rest.pieceOf n).toList ++ others)) := by
  obtain ⟨hlt, hget⟩ := List.getElem?_eq_some_iff.mp hjob
  have hcons (job : Job κ) (jobs : List (Job κ)) : (job :: jobs).filterMap (Job.pieceOf n) =
      (job.pieceOf n).toList ++ jobs.filterMap (Job.pieceOf n) := by
    rw [List.filterMap_cons]
    cases job.pieceOf n <;> rfl
  have hbefore := (List.getElem_cons_eraseIdx_perm hlt).filterMap (Job.pieceOf n)
  rw [hget, hcons] at hbefore
  have hafter := ((List.perm_append_singleton piece _).trans
    ((List.set_perm_cons_eraseIdx hlt rest).cons piece)).filterMap (Job.pieceOf n)
  rw [hcons, hcons, ← List.append_assoc] at hafter
  refine ⟨(s.system.inbox.waiting.eraseIdx position).filterMap (Job.pieceOf n) ++
    s.notes.filterMap (Note.pieceOf n), ?_, ?_⟩
  · rw [← List.append_assoc]
    exact hbefore.symm.append_right _
  · rw [← List.append_assoc, ← List.append_assoc]
    exact hafter.append_right _

end Pieces

end Yard

end HazardFlow
