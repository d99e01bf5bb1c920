import HazardFlow.Proofs.Schedule.Working
import HazardFlow.Proofs.Yard.Run

/-!
# The jobs of a yard

Jobs come when nodes are handed over and when others are split, and go when their parts finish.
In between they only move from one stage to the next, which does not change the load.
-/

namespace HazardFlow.Yard

open HazardFlow.Graph (addLoad)

variable {κ ε : Type} {s s' : Yard κ ε} {job piece rest : Job κ} {position : Nat}

/-- The job at a position of a stage is one that the yard without it lacks. -/
theorem jobs_without {stage : Stage} (h : (s.jobsAt stage)[position]? = some job) :
    s.jobs.Perm (job :: (s.without stage position).jobs) := by
  obtain ⟨hlt, hget⟩ := List.getElem?_eq_some_iff.mp h
  have hperm := (List.getElem_cons_eraseIdx_perm hlt).symm
  rw [hget] at hperm
  cases stage with
  | queued => exact (hperm.append_right s.running).append_right s.watched
  | running =>
    refine ((hperm.append_left s.system.inbox.waiting).append_right s.watched).trans ?_
    exact List.perm_middle.append_right s.watched
  | watched =>
    refine (hperm.append_left (s.system.inbox.waiting ++ s.running)).trans ?_
    exact List.perm_middle

/-- A job that begins to run stays where jobs are. -/
theorem jobs_begin (h : (s.jobsAt .queued)[position]? = some job) (notes : List (Note κ)) :
    ({ s.without .queued position with
      running := job :: s.running, notes } : Yard κ ε).jobs.Perm s.jobs :=
  (List.perm_middle.append_right s.watched).trans (jobs_without h).symm

/-- So does a job that answers an event. -/
theorem jobs_watch (h : (s.jobsAt .running)[position]? = some job) :
    ({ s.without .running position with watched := job :: s.watched } : Yard κ ε).jobs.Perm
      s.jobs :=
  List.perm_middle.trans (jobs_without h).symm

/-- Jobs put into the inbox join the others. -/
theorem jobs_of_put {jobs : List (Job κ)}
    (hwaiting : s'.system.inbox.waiting = s.system.inbox.waiting ++ jobs)
    (hrunning : s'.running = s.running) (hwatched : s'.watched = s.watched) :
    s'.jobs.Perm (jobs ++ s.jobs) := by
  unfold Yard.jobs
  rw [hwaiting, hrunning, hwatched, List.append_assoc, List.append_assoc, List.append_assoc]
  exact List.perm_append_comm_assoc ..

/-- The pieces of a split job replace it. -/
theorem jobs_split (h : (s.jobsAt .queued)[position]? = some job) (g : Graph κ)
    (piece rest : Job κ) :
    (s.split position g piece rest).jobs.Perm
      (piece :: rest :: (s.without .queued position).jobs) := by
  obtain ⟨hlt, _⟩ := List.getElem?_eq_some_iff.mp h
  have hset := List.set_perm_cons_eraseIdx hlt rest
  have hpieces := (List.perm_append_singleton piece _).trans (hset.cons piece)
  exact (hpieces.append_right s.running).append_right s.watched

/-- The load does not depend on the order of the jobs. -/
theorem load_congr (h : s'.jobs.Perm s.jobs) : s'.load = s.load := by
  funext n
  exact h.countP_eq _

/-- Jobs that come join the load. -/
theorem load_append {jobs : List (Job κ)} (h : s'.jobs.Perm (jobs ++ s.jobs)) (n : NodeId) :
    s'.load n = s.load n + (jobs.map Job.node).count n := by
  unfold load
  rw [h.countP_eq, List.countP_append, List.count, List.countP_map, Nat.add_comm]
  rfl

/-- One job that comes joins the load of its node. -/
theorem load_cons (h : s'.jobs.Perm (job :: s.jobs)) : s'.load = addLoad s.load job.node := by
  funext n
  have hload : s'.load n = s.load n + ([job].map Job.node).count n := load_append h n
  rw [List.map_singleton, List.count_singleton] at hload
  unfold addLoad
  rw [hload]
  simp only [beq_iff_eq, eq_comm (a := n)]

/-- In particular one that is put into the inbox does. -/
theorem load_put (hwaiting : s'.system.inbox.waiting = s.system.inbox.waiting ++ [job])
    (hrunning : s'.running = s.running) (hwatched : s'.watched = s.watched) :
    s'.load = addLoad s.load job.node :=
  load_cons (jobs_of_put hwaiting hrunning hwatched)

/-- Splitting a job adds to the load of its node. -/
theorem load_split (h : (s.jobsAt .queued)[position]? = some job) (g : Graph κ)
    (hpiece : piece.node = job.node) (hrest : rest.node = job.node) :
    (s.split position g piece rest).load = addLoad s.load job.node := by
  funext n
  have hpieces : (s.split position g piece rest).load n =
      (s.without .queued position).load n + ([piece, rest].map Job.node).count n :=
    load_append (jobs_split h g piece rest) n
  simp only [List.map_cons, List.map_nil, hpiece, hrest, List.count_cons, List.count_nil,
    beq_iff_eq] at hpieces
  rw [load_cons (jobs_without h), hpieces]
  unfold addLoad
  simp only [eq_comm (a := n)]
  omega

/-- The load of a node counts its jobs. -/
theorem load_pos_of_mem (h : job ∈ s.jobs) : 0 < s.load job.node :=
  List.countP_pos_iff.mpr ⟨job, h, beq_self_eq_true _⟩

/-- So a node with a job at some stage has a load. -/
theorem load_pos_of_jobsAt {stage : Stage} (h : (s.jobsAt stage)[position]? = some job) :
    0 < s.load job.node :=
  load_pos_of_mem ((jobs_without h).mem_iff.mpr List.mem_cons_self)

end HazardFlow.Yard
