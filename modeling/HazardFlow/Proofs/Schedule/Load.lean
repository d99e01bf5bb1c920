import HazardFlow.Proofs.Graph.Precedence
import HazardFlow.Proofs.Schedule.Run
import Mathlib.Algebra.Ring.Nat

/-!
# The load of a system

Every job that is queued or being run, and every event that is watched, holds a part of its node.
The load of a node is the number of these. Moving a job about does not change the load; what does
is said here for each part of a worker's turn.
-/

namespace HazardFlow

variable {κ ε : Type}

/-- The number of a worker's jobs and events that hold a part of a node. -/
def Worker.load (worker : Worker κ ε) (n : NodeId) : Nat :=
  worker.queue.countP (·.node == n) + worker.running.toList.countP (·.node == n) +
    worker.watcher.pending.countP (·.node == n)

namespace System

/-- The number of jobs and events that hold a part of a node. -/
def load (s : System κ ε) (n : NodeId) : Nat :=
  s.inbox.waiting.countP (·.node == n) + (s.workers.toList.map (·.load n)).sum

/-- Changing one entry of a list changes a sum over it by the share of that entry. -/
private theorem sum_map_modify {α : Type} {l : List α} {i : Nat} {a : α} (f : α → α)
    (φ : α → Nat) (h : l[i]? = some a) :
    ((l.modify i f).map φ).sum + φ a = (l.map φ).sum + φ (f a) := by
  induction l generalizing i with
  | nil => simp at h
  | cons x l ih =>
    cases i with
    | zero =>
      rw [List.getElem?_cons_zero, Option.some.injEq] at h
      subst h
      simp only [List.modify_zero_cons, List.map_cons, List.sum_cons]
      omega
    | succ i =>
      rw [List.getElem?_cons_succ] at h
      have hrest := ih h
      simp only [List.modify_succ_cons, List.map_cons, List.sum_cons]
      omega

/-- Changing one worker changes the load by the share of that worker. -/
theorem load_updateWorker {s : System κ ε} {w : Nat} {worker : Worker κ ε}
    (hw : s.workers[w]? = some worker) (f : Worker κ ε → Worker κ ε) (n : NodeId) :
    (s.updateWorker w f).load n + worker.load n = s.load n + (f worker).load n := by
  have hlist : s.workers.toList[w]? = some worker := by rwa [Array.getElem?_toList]
  have hsum := sum_map_modify f (fun worker : Worker κ ε => worker.load n) hlist
  unfold load updateWorker
  rw [Array.toList_modify]
  dsimp only
  omega

/-- A worker that loses jobs does not raise the load. -/
theorem load_updateWorker_le {s : System κ ε} {w : Nat} {worker : Worker κ ε}
    (hw : s.workers[w]? = some worker) {f : Worker κ ε → Worker κ ε} {n : NodeId}
    (h : (f worker).load n ≤ worker.load n) : (s.updateWorker w f).load n ≤ s.load n := by
  have hload := load_updateWorker hw f n
  omega

/-- An update changes the worker that it names. -/
theorem getElem?_updateWorker_self {s : System κ ε} {w : Nat} {worker : Worker κ ε}
    (hw : s.workers[w]? = some worker) (f : Worker κ ε → Worker κ ε) :
    (s.updateWorker w f).workers[w]? = some (f worker) := by
  unfold updateWorker
  rw [Array.getElem?_modify, if_pos rfl, hw]
  rfl

/-- The jobs that are queued anywhere. -/
def queued (s : System κ ε) : List (Job κ) :=
  s.inbox.waiting ++ s.workers.toList.flatMap (·.queue)

/-- The jobs that are being run. -/
def underWay (s : System κ ε) : List (Job κ) := s.workers.toList.flatMap (·.running.toList)

/-- The events that are watched. -/
def watched (s : System κ ε) : List (Watched ε) :=
  s.workers.toList.flatMap (·.watcher.pending)

/-- These make up the load. -/
theorem load_eq (s : System κ ε) (n : NodeId) :
    s.load n = s.queued.countP (·.node == n) + s.underWay.countP (·.node == n) +
      s.watched.countP (·.node == n) := by
  have hshares : (s.workers.toList.map (·.load n)).sum =
      (s.workers.toList.flatMap (·.queue)).countP (·.node == n) +
        s.underWay.countP (·.node == n) + s.watched.countP (·.node == n) := by
    unfold underWay watched
    induction s.workers.toList with
    | nil => rfl
    | cons worker rest ih =>
      simp only [List.map_cons, List.sum_cons, List.flatMap_cons, List.countP_append, ih]
      unfold Worker.load
      omega
  unfold load queued
  rw [hshares, List.countP_append]
  omega

/-- A system without load has no jobs. -/
theorem eq_nil_of_load {s : System κ ε} (h : ∀ n : Nat, s.load n = 0) :
    s.queued = [] ∧ s.underWay = [] := by
  have hnone {jobs : List (Job κ)} (hle : ∀ n : Nat, jobs.countP (·.node == n) ≤ s.load n) :
      jobs = [] := by
    refine List.eq_nil_iff_forall_not_mem.mpr fun job hjob => ?_
    have hpos : 0 < jobs.countP (·.node == job.node) :=
      List.countP_pos_iff.mpr ⟨job, hjob, beq_self_eq_true _⟩
    have hzero := hle job.node
    rw [h] at hzero
    omega
  constructor <;> refine hnone fun n => ?_ <;> rw [load_eq] <;> omega

/-- What all workers have is what one of them has and what the others have, whatever becomes of
that one. -/
theorem exists_others {α : Type} {s : System κ ε} {w : Nat} {worker : Worker κ ε}
    (hw : s.workers[w]? = some worker) (part : Worker κ ε → List α) :
    ∃ others : List α, (s.workers.toList.flatMap part).Perm (part worker ++ others) ∧
      ∀ f, ((s.updateWorker w f).workers.toList.flatMap part).Perm (part (f worker) ++ others) := by
  have hlist : s.workers.toList[w]? = some worker := by rwa [Array.getElem?_toList]
  unfold updateWorker
  simp only [Array.toList_modify]
  clear hw
  generalize s.workers.toList = workers at hlist ⊢
  induction workers generalizing w with
  | nil => simp at hlist
  | cons first rest ih =>
    cases w with
    | zero =>
      rw [List.getElem?_cons_zero, Option.some.injEq] at hlist
      subst hlist
      exact ⟨rest.flatMap part, .refl _, fun f => .refl _⟩
    | succ w =>
      rw [List.getElem?_cons_succ] at hlist
      obtain ⟨others, hbefore, hafter⟩ := ih hlist
      refine ⟨part first ++ others, ?_, fun f => ?_⟩
      · rw [List.flatMap_cons]
        exact (hbefore.append_left _).trans (List.perm_append_comm_assoc ..)
      · rw [List.modify_succ_cons, List.flatMap_cons]
        exact ((hafter f).append_left _).trans (List.perm_append_comm_assoc ..)

/-- What no worker changes, all of them keep. -/
theorem flatMap_updateWorker {α : Type} (s : System κ ε) (w : Nat) {f : Worker κ ε → Worker κ ε}
    (part : Worker κ ε → List α) (hf : ∀ worker, part (f worker) = part worker) :
    (s.updateWorker w f).workers.toList.flatMap part = s.workers.toList.flatMap part := by
  unfold updateWorker
  rw [Array.toList_modify]
  generalize s.workers.toList = workers
  induction workers generalizing w with
  | nil => cases w <;> rfl
  | cons first rest ih =>
    cases w with
    | zero => rw [List.modify_zero_cons, List.flatMap_cons, List.flatMap_cons, hf]
    | succ w => rw [List.modify_succ_cons, List.flatMap_cons, List.flatMap_cons, ih]

/-- Jobs stay queued, run and watched as long as a worker keeps them so. -/
theorem queued_updateWorker (s : System κ ε) (w : Nat) {f : Worker κ ε → Worker κ ε}
    (hf : ∀ worker, (f worker).queue = worker.queue := by intro _; rfl) :
    (s.updateWorker w f).queued = s.queued :=
  congrArg (s.inbox.waiting ++ ·) (flatMap_updateWorker s w (·.queue) hf)

theorem underWay_updateWorker (s : System κ ε) (w : Nat) {f : Worker κ ε → Worker κ ε}
    (hf : ∀ worker, (f worker).running = worker.running := by intro _; rfl) :
    (s.updateWorker w f).underWay = s.underWay :=
  flatMap_updateWorker s w (·.running.toList) fun worker => congrArg Option.toList (hf worker)

theorem watched_updateWorker (s : System κ ε) (w : Nat) {f : Worker κ ε → Worker κ ε}
    (hf : ∀ worker, (f worker).watcher.pending = worker.watcher.pending := by intro _; rfl) :
    (s.updateWorker w f).watched = s.watched :=
  flatMap_updateWorker s w (·.watcher.pending) hf

/-- A worker's queue, running job and events are part of the load. -/
theorem worker_load_le {s : System κ ε} {w : Nat} {worker : Worker κ ε}
    (hw : s.workers[w]? = some worker) (n : NodeId) : worker.load n ≤ s.load n := by
  have hmem : worker ∈ s.workers.toList := by
    rw [Array.mem_toList_iff]
    exact Array.mem_of_getElem? hw
  have hle := List.single_le_sum (fun _ _ => Nat.zero_le _) _
    (List.mem_map_of_mem (f := fun worker : Worker κ ε => worker.load n) hmem)
  unfold load
  omega

end System

end HazardFlow
