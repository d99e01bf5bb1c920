import HazardFlow.Proofs.Schedule.Steps

/-!
# What workers do

Each thing that a worker does is one step: taking a job and beginning to run it, ending its run,
and seeing an event complete. Jobs only move between queues, runs and watchers, so that a job in
hand stays part of its node's load until the part is finished.
-/

namespace HazardFlow

variable {κ ε : Type}

namespace Graph

/-- Taking back the job just added. -/
theorem dropLoad_addLoad (load : NodeId → Nat) (n : NodeId) :
    dropLoad (addLoad load n) n = load := by
  funext m
  unfold dropLoad addLoad
  omega

/-- A node with a job more has a job. -/
theorem addLoad_pos (load : NodeId → Nat) (n : NodeId) : 0 < addLoad load n n := by
  unfold addLoad
  rw [if_pos rfl]
  omega

/-- Splitting a job makes two jobs of its node, which has a part more. -/
theorem splitJob_spec {g g' : Graph κ} {job piece rest : Job κ}
    (h : g.splitJob job = some (g', piece, rest)) :
    g' = (g.updateNode job.node fun n => { n with parts := n.parts + 1 }) ∧
      piece.node = job.node ∧ rest.node = job.node := by
  unfold splitJob at h
  split at h
  · rw [Option.map_eq_some_iff] at h
    obtain ⟨halves, _, heq⟩ := h
    simp only [Prod.mk.injEq] at heq
    obtain ⟨rfl, rfl, rfl⟩ := heq
    exact ⟨rfl, rfl, rfl⟩
  · cases h

end Graph

namespace System

open HazardFlow.Graph (addLoad dropLoad)

variable {s s' : System κ ε} {w : Nat} {worker : Worker κ ε}

/-- One system goes on to another by steps of its graph. -/
structure Goes (s s' : System κ ε) : Prop where
  tracker : s'.tracker = s.tracker
  grain : s'.grain = s.grain
  steps : Graph.Steps s.grain s.graph s.load s'.graph s'.load

/-- Moving jobs about takes no steps. -/
theorem Goes.of_load (htracker : s'.tracker = s.tracker) (hgrain : s'.grain = s.grain)
    (hgraph : s'.graph = s.graph) (hload : s'.load = s.load) : s.Goes s' where
  tracker := htracker
  grain := hgrain
  steps := by
    rw [hgraph, hload]
    exact .refl

theorem Goes.refl (s : System κ ε) : s.Goes s := .of_load rfl rfl rfl rfl

/-- The system after jobs were put on the queue of a worker. -/
def enqueue (s : System κ ε) (w : Nat) (jobs : List (Job κ)) : System κ ε :=
  s.updateWorker w fun worker => { worker with queue := jobs.reverse ++ worker.queue }

/-- Jobs put on a queue join the load. -/
theorem load_enqueue (hw : s.workers[w]? = some worker) (jobs : List (Job κ)) (n : NodeId) :
    (s.enqueue w jobs).load n = s.load n + (jobs.map Job.node).count n := by
  have hload := load_updateWorker hw
    (fun worker => { worker with queue := jobs.reverse ++ worker.queue }) n
  have hcount : (jobs.map Job.node).count n = jobs.countP (·.node == n) := by
    rw [List.count, List.countP_map]
    rfl
  unfold enqueue
  dsimp only [Worker.load] at hload
  rw [List.countP_append, List.countP_reverse] at hload
  omega

/-- What is received without a fault joins the load. -/
theorem load_receive (hw : s.workers[w]? = some worker) {handed : Handed κ (Job κ)}
    (hfault : handed.fault = none) (n : NodeId) :
    (s.receive w handed).load n = s.load n + (handed.items.map Job.node).count n := by
  rw [← load_enqueue hw]
  unfold receive
  rw [hfault]
  rfl

/-- Receiving with a fault may lose jobs and events. -/
theorem load_receive_le (hw : s.workers[w]? = some worker) (handed : Handed κ (Job κ))
    (n : NodeId) :
    (s.receive w handed).load n ≤ s.load n + (handed.items.map Job.node).count n := by
  cases hfault : handed.fault with
  | none => exact Nat.le_of_eq (load_receive hw hfault n)
  | some fault =>
    have hw' := getElem?_updateWorker_self hw
      fun worker => { worker with queue := handed.items.reverse ++ worker.queue }
    rw [← load_enqueue hw]
    unfold receive
    rw [hfault]
    refine load_updateWorker_le hw' ?_
    simp only [Worker.load, Option.toList_none, List.countP_nil]
    omega

/-- Receiving changes the graph, and workers at most. -/
theorem receive_eq (s : System κ ε) (w : Nat) (handed : Handed κ (Job κ)) :
    (s.receive w handed).tracker = s.tracker ∧ (s.receive w handed).grain = s.grain ∧
      (s.receive w handed).graph = handed.graph := by
  unfold receive
  dsimp only
  split <;> exact ⟨rfl, rfl, rfl⟩

/-- Finishing the part of a job or event just taken away is a step. -/
theorem goes_finishPart {n : NodeId} (htracker : s'.tracker = s.tracker)
    (hgrain : s'.grain = s.grain) (hgraph : s'.graph = s.graph)
    (hw : s'.workers[w]? = some worker) (hload : s.load = addLoad s'.load n) :
    s.Goes (s'.finishPart w n) := by
  have hpos : 0 < s.load n := by
    rw [hload]
    exact Graph.addLoad_pos ..
  have hdrop : dropLoad s.load n = s'.load := by
    rw [hload, Graph.dropLoad_addLoad]
  have hreceive := receive_eq s' w (s'.graph.finishPart (Graph.handJob s'.grain) n)
  have hfinished : (s'.finishPart w n).graph =
      (s.graph.finishPart (Graph.handJob s.grain) n).graph := by
    rw [← hgraph, ← hgrain]
    exact hreceive.2.2
  refine ⟨hreceive.1.trans htracker, hreceive.2.1.trans hgrain, ?_⟩
  rw [hfinished]
  by_cases hfault : (s.graph.finishPart (Graph.handJob s.grain) n).fault = none
  · have heq : (s'.finishPart w n).load = fun m => dropLoad s.load n m +
        ((s.graph.finishPart (Graph.handJob s.grain) n).items.map Job.node).count m := by
      funext m
      rw [hdrop, ← hgraph, ← hgrain]
      exact load_receive hw (by rw [hgraph, hgrain]; exact hfault) m
    rw [heq]
    exact .single (.finish hpos hfault)
  · refine .single (.die hpos hfault fun m => ?_)
    rw [hdrop, ← hgraph, ← hgrain]
    exact load_receive_le hw _ m

/-- An entry taken out of a list is one that the rest lacks. -/
theorem countP_eraseIdx {α : Type} {l : List α} {i : Nat} {a : α} (h : l[i]? = some a)
    (p : α → Bool) : l.countP p = (l.eraseIdx i).countP p + if p a then 1 else 0 := by
  obtain ⟨hi, hget⟩ := List.getElem?_eq_some_iff.mp h
  have hperm := List.getElem_cons_eraseIdx_perm hi
  rw [← hperm.countP_eq, List.countP_cons, hget]

/-- A job taken out of its queue is missing from the queued jobs. -/
theorem queued_withoutJob {place : Place} {position : Nat} {job : Job κ}
    (h : (s.queuedAt place)[position]? = some job) :
    s.queued.Perm (job :: (s.withoutJob place position).queued) := by
  cases place with
  | inbox =>
    obtain ⟨hlt, hget⟩ := List.getElem?_eq_some_iff.mp h
    have hperm := (List.getElem_cons_eraseIdx_perm hlt).symm
    rw [hget] at hperm
    exact hperm.append_right _
  | queue v =>
    unfold queuedAt at h
    cases hv : s.workers[v]? with
    | none => simp [hv] at h
    | some other =>
      simp only [hv, Option.map_some, Option.getD_some] at h
      obtain ⟨hlt, hget⟩ := List.getElem?_eq_some_iff.mp h
      have hperm := (List.getElem_cons_eraseIdx_perm hlt).symm
      rw [hget] at hperm
      obtain ⟨others, hbefore, hafter⟩ := exists_others hv (·.queue)
      have hleft := hafter fun worker => { worker with queue := worker.queue.eraseIdx position }
      have hqueues := hbefore.trans ((hperm.append_right others).trans (hleft.symm.cons job))
      exact (hqueues.append_left s.inbox.waiting).trans List.perm_middle

/-- Taking a job out of its queue changes nothing else. -/
theorem withoutJob_eq (s : System κ ε) (place : Place) (position : Nat) :
    (s.withoutJob place position).graph = s.graph ∧
      (s.withoutJob place position).tracker = s.tracker ∧
      (s.withoutJob place position).grain = s.grain ∧
      (s.withoutJob place position).underWay = s.underWay ∧
      (s.withoutJob place position).watched = s.watched := by
  cases place with
  | inbox => exact ⟨rfl, rfl, rfl, rfl, rfl⟩
  | queue v =>
    exact ⟨rfl, rfl, rfl, underWay_updateWorker s v, watched_updateWorker s v⟩

/-- Beginning to run a job in hand. Splitting it is a step, and otherwise nothing changes. -/
theorem steps_beginWith {load : NodeId → Nat} {job : Job κ} (split : Bool)
    (hw : s.workers[w]? = some worker) (hfree : worker.running = none)
    (hload : load = addLoad s.load job.node) :
    Graph.Steps s.grain s.graph load (s.beginWith w job split).graph
      (s.beginWith w job split).load := by
  have hpos : 0 < load job.node := by
    rw [hload]
    exact Graph.addLoad_pos ..
  unfold beginWith
  split
  · have heq : (s.updateWorker w ({ · with running := some job })).load = load := by
      funext n
      have hupdate := load_updateWorker hw ({ · with running := some job }) n
      rw [hload]
      simp only [Worker.load, hfree, Option.toList_some, Option.toList_none, List.countP_singleton,
        List.countP_nil, beq_iff_eq] at hupdate
      unfold addLoad
      simp only [eq_comm (a := n)]
      omega
    rw [heq]
    exact .refl
  · next g piece rest hsplit =>
    have hsome : s.graph.splitJob job = some (g, piece, rest) := by
      split at hsplit
      · exact hsplit
      · cases hsplit
    obtain ⟨rfl, hpiece, hrest⟩ := Graph.splitJob_spec hsome
    have heq : (s.updateWorker w fun worker =>
        { worker with queue := piece :: worker.queue, running := some rest }).load =
        addLoad load job.node := by
      funext n
      have hupdate := load_updateWorker hw (fun worker =>
        { worker with queue := piece :: worker.queue, running := some rest }) n
      rw [hload]
      simp only [Worker.load, hfree, Option.toList_some, Option.toList_none, List.countP_nil,
        List.countP_cons, hpiece, hrest, beq_iff_eq] at hupdate
      unfold addLoad
      simp only [eq_comm (a := n)]
      omega
    have hstep : Graph.Step s.grain s.graph load _ _ := .split hpos
    rw [← heq] at hstep
    exact .single hstep

/-- An event watched joins the load. -/
theorem load_track (hw : s.workers[w]? = some worker) (e : ε) (n : NodeId) :
    (s.updateWorker w fun worker => { worker with watcher := worker.watcher.track e n }).load =
      addLoad s.load n := by
  funext m
  have hshare : ({ worker with watcher := worker.watcher.track e n } : Worker κ ε).load m =
      worker.load m + if m = n then 1 else 0 := by
    simp only [Worker.load, Watcher.track, List.countP_append, List.countP_singleton, beq_iff_eq,
      eq_comm (a := m)]
    omega
  have hupdate := load_updateWorker hw
    (fun worker => { worker with watcher := worker.watcher.track e n }) m
  unfold addLoad
  omega

/-- A job no longer run is missing from the load. -/
theorem load_rest (hw : s.workers[w]? = some worker) {job : Job κ}
    (hjob : worker.running = some job) :
    s.load = addLoad (s.updateWorker w ({ · with running := none })).load job.node := by
  funext m
  have hupdate := load_updateWorker hw ({ · with running := none }) m
  simp only [Worker.load, hjob, Option.toList_some, Option.toList_none, List.countP_singleton,
    List.countP_nil, beq_iff_eq] at hupdate
  unfold addLoad
  simp only [eq_comm (a := m)]
  omega

/-- An event no longer watched is missing from the load. -/
theorem load_unwatch (hw : s.workers[w]? = some worker) {position : Nat} {entry : Watched ε}
    (hentry : worker.watcher.pending[position]? = some entry) :
    s.load = addLoad (s.updateWorker w fun worker =>
      { worker with
        watcher := { worker.watcher with
          pending := worker.watcher.pending.eraseIdx position } }).load entry.node := by
  funext m
  have hupdate := load_updateWorker hw (fun worker =>
    { worker with
      watcher := { worker.watcher with
        pending := worker.watcher.pending.eraseIdx position } }) m
  have hcount := countP_eraseIdx hentry (·.node == m)
  simp only [Worker.load, beq_iff_eq] at hupdate hcount
  unfold addLoad
  simp only [eq_comm (a := m)]
  omega

/-- A worker whose run ends makes a step, whatever the result. -/
theorem goes_conclude (s : System κ ε) (w : Nat) (result : RunResult ε) :
    s.Goes (s.conclude w result) := by
  unfold conclude
  cases hrunning : s.runningOn w with
  | none => exact .refl s
  | some job =>
    unfold runningOn at hrunning
    cases hw : s.workers[w]? with
    | none => simp [hw] at hrunning
    | some worker =>
      have hjob : worker.running = some job := by simpa [hw] using hrunning
      have hw' := getElem?_updateWorker_self hw ({ · with running := none })
      have hload := load_rest hw hjob
      cases result with
      | event e => exact .of_load rfl rfl rfl ((load_track hw' e job.node).trans hload.symm)
      | finished => exact goes_finishPart rfl rfl rfl hw' hload
      | stopped => exact goes_finishPart rfl rfl rfl hw' hload

/-- A worker that sees an event complete makes a step. -/
theorem goes_settle (s : System κ ε) (w position : Nat) : s.Goes (s.settle w position) := by
  unfold settle
  cases hwatched : s.watchedAt w position with
  | none => exact .refl s
  | some entry =>
    unfold watchedAt at hwatched
    cases hw : s.workers[w]? with
    | none => simp [hw] at hwatched
    | some worker =>
      have hentry : worker.watcher.pending[position]? = some entry := by
        simpa [hw] using hwatched
      exact goes_finishPart rfl rfl rfl (getElem?_updateWorker_self hw _) (load_unwatch hw hentry)

end System

end HazardFlow
