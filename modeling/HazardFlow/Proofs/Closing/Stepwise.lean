import HazardFlow.Proofs.Closing.Run
import HazardFlow.Proofs.Schedule.Beginning

/-!
# Leaving at once and step by step

A worker that leaves waits for one event after the other and then drops one job after the other, and
whoever empties the inbox drops one job after the other. What each of them does at once is what these
steps do in turn.
-/

namespace HazardFlow

variable {κ ε : Type}

/-- A worker that has jobs handed on to it, and dies of a fault met on the way. -/
def Worker.receive (worker : Worker κ ε) (handed : Handed κ (Job κ)) : Worker κ ε :=
  match handed.fault with
  | none => { worker with queue := handed.items.reverse ++ worker.queue }
  | some _ =>
    { worker with
      queue := handed.items.reverse ++ worker.queue
      running := none, watcher := { worker.watcher with pending := [] }, dead := true }

namespace System

variable {s : System κ ε} {w : Nat} {worker : Worker κ ε}

/-- Two updates of a worker are one. -/
theorem updateWorker_updateWorker (s : System κ ε) (w : Nat) (f f' : Worker κ ε → Worker κ ε) :
    (s.updateWorker w f).updateWorker w f' = s.updateWorker w fun worker => f' (f worker) := by
  have hworkers : (s.workers.modify w f).modify w f' =
      s.workers.modify w fun worker => f' (f worker) := by
    refine Array.ext_getElem? fun i => ?_
    rw [Array.getElem?_modify, Array.getElem?_modify, Array.getElem?_modify]
    split
    · rw [Option.map_map]
      rfl
    · rfl
  unfold updateWorker
  rw [hworkers]

/-- Receiving is an update of one worker, next to the graph. -/
theorem receive_eq_updateWorker (s : System κ ε) (w : Nat) (handed : Handed κ (Job κ)) :
    s.receive w handed =
      ({ s with graph := handed.graph } : System κ ε).updateWorker w (·.receive handed) := by
  unfold receive Worker.receive
  cases handed.fault with
  | none => rfl
  | some fault => exact updateWorker_updateWorker { s with graph := handed.graph } w _ _

/-- So it is for a worker that has been updated before. -/
theorem receive_updateWorker (s : System κ ε) (w : Nat) (f : Worker κ ε → Worker κ ε)
    (handed : Handed κ (Job κ)) : (s.updateWorker w f).receive w handed =
      ({ s with graph := handed.graph } : System κ ε).updateWorker w
        fun worker => (f worker).receive handed :=
  (receive_eq_updateWorker (s.updateWorker w f) w handed).trans
    (updateWorker_updateWorker { s with graph := handed.graph } w f (·.receive handed))

/-- Waiting for all events is an update of one worker, next to the graph. -/
theorem drain_eq_updateWorker (hw : s.workers[w]? = some worker)
    {watch : Watch κ ε (Job κ)}
    (hwatch : worker.watcher.drain (Graph.handJob s.grain) s.graph = watch) :
    s.drain w = ({ s with graph := watch.handed.graph } : System κ ε).updateWorker w fun worker =>
      ({ worker with watcher := watch.watcher } : Worker κ ε).receive watch.handed := by
  unfold drain
  rw [hw]
  dsimp only
  rw [hwatch]
  exact receive_updateWorker s w ({ · with watcher := watch.watcher }) watch.handed

/-- A worker whose job has finished runs nothing. -/
theorem exists_resting_conclude (hw : s.workers[w]? = some worker) {job : Job κ}
    (hjob : worker.running = some job) :
    ∃ worker', (s.conclude w .finished).workers[w]? = some worker' ∧ worker'.running = none := by
  have hrunning : s.runningOn w = some job := by
    unfold runningOn
    rw [hw, Option.map_some, hjob, Option.join_some]
  have hw' := getElem?_updateWorker_self hw ({ · with running := none })
  unfold conclude
  rw [hrunning]
  dsimp only
  unfold finishPart
  rw [receive_eq_updateWorker]
  refine ⟨_, getElem?_updateWorker_self hw' _, ?_⟩
  unfold Worker.receive
  dsimp only
  split <;> rfl

@[simp] theorem size_workers_updateWorker (s : System κ ε) (w : Nat)
    (f : Worker κ ε → Worker κ ε) : (s.updateWorker w f).workers.size = s.workers.size :=
  Array.size_modify ..

@[simp] theorem size_workers_receive (s : System κ ε) (w : Nat) (handed : Handed κ (Job κ)) :
    (s.receive w handed).workers.size = s.workers.size := by
  rw [receive_eq_updateWorker]
  exact Array.size_modify ..

@[simp] theorem size_workers_drain (s : System κ ε) (w : Nat) :
    (s.drain w).workers.size = s.workers.size := by
  unfold drain
  split
  · rfl
  · simp

@[simp] theorem size_workers_retireQueue (s : System κ ε) (w bound : Nat) :
    (s.retireQueue w bound).workers.size = s.workers.size := by
  induction bound generalizing s with
  | zero => rfl
  | succ bound ih =>
    unfold retireQueue takeOwn
    split
    · rfl
    · split
      · rfl
      · next htake =>
        split at htake
        · obtain ⟨rfl, rfl⟩ := Prod.mk.inj (Option.some.inj htake)
          rw [ih]
          simp [finishPart, count]
        · cases htake

/-- A worker that watches nothing only resets its watcher when it waits for all events. -/
theorem drain_of_idle (hw : s.workers[w]? = some worker) (hpending : worker.watcher.pending = []) :
    s.drain w = s.updateWorker w Worker.resetBackoff := by
  have hdrain : worker.watcher.drain (Graph.handJob s.grain) s.graph =
      ⟨⟨s.graph, [], none⟩, { worker.watcher with pending := [], skip := 0, backoff := 0 }, 0⟩ := by
    unfold Watcher.drain
    rw [hpending]
    rfl
  rw [drain_eq_updateWorker hw hdrain]
  apply updateWorker_congr
  intro other hother
  obtain rfl := Option.some.inj (hw.symm.trans hother)
  obtain ⟨queue, running, ⟨pending, skip, backoff, cap⟩, dead⟩ := worker
  subst hpending
  rfl

/-- The oldest event that a sound and exact system watches lets its part finish without a fault. -/
theorem fault_of_pending (hs : s.Sound) (he : s.Exact []) (hw : s.workers[w]? = some worker)
    {entry : Watched ε} {rest : List (Watched ε)}
    (hpending : worker.watcher.pending = entry :: rest) :
    (s.graph.finishPart (Graph.handJob s.grain) entry.node).fault = none := by
  have hentry : worker.watcher.pending[0]? = some entry := by
    rw [hpending, List.getElem?_cons_zero]
  have hn : 0 < s.load entry.node := by
    rw [load_unwatch hw hentry]
    exact Graph.addLoad_pos ..
  exact Graph.fault_finishPart he.grain hs.coherent he.graph.stocked hn

/-- Waiting for the oldest event is an update of one worker, next to the graph. -/
theorem settle_eq_updateWorker (hw : s.workers[w]? = some worker) {entry : Watched ε}
    {rest : List (Watched ε)} (hpending : worker.watcher.pending = entry :: rest)
    {finished : Handed κ (Job κ)}
    (hfinished : s.graph.finishPart (Graph.handJob s.grain) entry.node = finished) :
    s.settle w 0 = ({ s with graph := finished.graph } : System κ ε).updateWorker w
      fun worker => (worker.unwatch 0).receive finished := by
  have hwatched : s.watchedAt w 0 = some entry := by
    unfold watchedAt
    rw [hw, Option.bind_some, hpending, List.getElem?_cons_zero]
  rw [← hfinished]
  unfold settle
  rw [hwatched]
  exact receive_updateWorker s w (·.unwatch 0) _

/-- What the worker watches then. -/
theorem watcher_receive_unwatch {entry : Watched ε} {rest : List (Watched ε)}
    (hpending : worker.watcher.pending = entry :: rest) {finished : Handed κ (Job κ)}
    (hfault : finished.fault = none) :
    ((worker.unwatch 0).receive finished).watcher = { worker.watcher with pending := rest } := by
  unfold Worker.receive Worker.unwatch
  rw [hfault, hpending]
  rfl

/-- Otherwise it waits for the oldest event first, and then for the others. -/
theorem drain_of_pending (hw : s.workers[w]? = some worker) {entry : Watched ε}
    {rest : List (Watched ε)} (hpending : worker.watcher.pending = entry :: rest)
    (hfault : (s.graph.finishPart (Graph.handJob s.grain) entry.node).fault = none) :
    s.drain w = (s.settle w 0).drain w := by
  set finished := s.graph.finishPart (Graph.handJob s.grain) entry.node with hfinished
  have hw' := getElem?_updateWorker_self (s := { s with graph := finished.graph }) hw
    fun worker => (worker.unwatch 0).receive finished
  set later := ((worker.unwatch 0).receive finished).watcher.drain (Graph.handJob s.grain)
    finished.graph with hlater
  have hfirst : worker.watcher.drain (Graph.handJob s.grain) s.graph =
      ⟨{ later.handed with items := finished.items ++ later.handed.items }, later.watcher,
        later.completed + 1⟩ := by
    rw [hlater, watcher_receive_unwatch hpending hfault]
    unfold Watcher.drain
    rw [hpending]
    simp only [Watcher.finishAll, ← hfinished, hfault]
    cases hrest : (Watcher.finishAll (Graph.handJob s.grain) finished.graph rest).fault with
    | none => simp only [hrest, List.length_cons]
    | some fault => simp only [hrest, List.length_cons]
  rw [settle_eq_updateWorker hw hpending hfinished.symm, drain_eq_updateWorker hw hfirst,
    drain_eq_updateWorker hw' hlater.symm]
  refine Eq.trans ?_ (updateWorker_updateWorker { s with graph := later.handed.graph } w
    (fun worker => (worker.unwatch 0).receive finished)
    fun worker => ({ worker with watcher := later.watcher } : Worker κ ε).receive later.handed).symm
  apply updateWorker_congr
  intro other _
  unfold Worker.receive Worker.unwatch
  rw [hfault]
  dsimp only
  cases later.handed.fault with
  | none => simp only [List.reverse_append, List.append_assoc]
  | some fault => simp only [List.reverse_append, List.append_assoc]

/-- A worker that is dead, or has no jobs, drops none. -/
theorem retireQueue_of_none (h : (s.workers[w]?.map (·.dead)).getD true = true ∨ s.takeOwn w = none)
    (bound : Nat) : s.retireQueue w bound = s := by
  cases bound with
  | zero => rfl
  | succ bound =>
    unfold retireQueue
    rcases h with hdead | hnone
    · rw [if_pos hdead]
    · rw [hnone]
      exact ite_self s

/-- Otherwise it drops the newest one first. -/
theorem retireQueue_of_some {s' : System κ ε} {job : Job κ}
    (hdead : ¬ (s.workers[w]?.map (·.dead)).getD true = true) (htake : s.takeOwn w = some (s', job))
    (bound : Nat) : s.retireQueue w (bound + 1) = ((s'.count fun stats =>
      { stats with retired := stats.retired + 1 }).finishPart w job.node).retireQueue w bound := by
  rw [retireQueue, if_neg hdead, htake]

/-- Jobs are dropped one after the other. -/
theorem retireQueue_succ (s : System κ ε) (w bound : Nat) :
    s.retireQueue w (bound + 1) = (s.retireQueue w 1).retireQueue w bound := by
  by_cases hdead : (s.workers[w]?.map (·.dead)).getD true = true
  · rw [retireQueue_of_none (Or.inl hdead) (bound + 1), retireQueue_of_none (Or.inl hdead) 1,
      retireQueue_of_none (Or.inl hdead) bound]
  · cases htake : s.takeOwn w with
    | none =>
      rw [retireQueue_of_none (Or.inr htake) (bound + 1), retireQueue_of_none (Or.inr htake) 1,
        retireQueue_of_none (Or.inr htake) bound]
    | some taken =>
      rw [retireQueue_of_some hdead htake, retireQueue_of_some hdead htake]
      rfl

/-- A worker without jobs drops none. -/
theorem retireQueue_of_nil (hw : s.workers[w]? = some worker) (hqueue : worker.queue = [])
    (bound : Nat) : s.retireQueue w bound = s := by
  refine retireQueue_of_none (Or.inr ?_) bound
  obtain ⟨queue, running, watcher, dead⟩ := worker
  subst hqueue
  unfold takeOwn
  rw [hw]

/-- No job is dropped when the inbox is empty. -/
theorem retireInbox_of_nil (hwaiting : s.inbox.waiting = []) (bound : Nat) :
    s.retireInbox bound = .pure s 0 := by
  cases bound with
  | zero => rfl
  | succ bound =>
    have hnone : s.inbox.take = none := by
      unfold Inbox.take
      rw [hwaiting]
    unfold retireInbox
    rw [hnone]

/-- Otherwise the oldest job is dropped first, and then the others, unless a fault comes up. -/
theorem retireInbox_succ (hresult : (s.retireInbox 1).result = .ok 1) (bound : Nat) :
    s.retireInbox (bound + 1) = ((s.retireInbox 1).state.retireInbox bound).map (· + 1) := by
  unfold retireInbox at hresult
  rw [retireInbox, retireInbox]
  cases htake : s.inbox.take with
  | none =>
    rw [htake] at hresult
    exact absurd (Except.ok.inj hresult) Nat.zero_ne_one
  | some taken =>
    rw [htake] at hresult
    dsimp only at hresult ⊢
    split at hresult
    · cases hresult
    · rfl

/-- Reports that a system has stopped, and how many jobs were dropped from its inbox. -/
def reportStop (s : System κ ε) (retired : Nat) : System κ ε :=
  let s :=
    if retired = 0 then s
    else s.report .warn "retired submitted jobs without running them"
      [("retired", .number retired)]
  s.report .debug "scheduler stopped" []

/-- What is done at once when the workers have left, if no fault comes up. -/
theorem close_of_retireInbox {s' : System κ ε} {retired : Nat}
    (h : s.dismiss.retireInbox (s.dismiss.inbox.waiting.length + s.dismiss.graph.nodes.size) =
      .pure s' retired) : s.close = .pure (s'.reportStop retired) () := by
  unfold close
  dsimp only
  rw [h]
  rfl

end System

end HazardFlow
