import HazardFlow.Proofs.Schedule.Beginning

/-!
# Workers conserve jobs

One job comes up for every node that is claimed, and one more whenever a job is split. Each of them is
queued, then run, and then counted as run, or it is dropped and counted as dropped. Whatever a worker
does, it adds as many jobs on the one side as on the other.
-/

namespace HazardFlow

variable {κ ε : Type}

/-- Whether the work stopped with a fault. -/
def RunResult.isStopped : RunResult ε → Bool
  | .stopped => true
  | _ => false

namespace System

variable {s s' s'' t : System κ ε} {w n : Nat} {worker : Worker κ ε} {job : Job κ}
  {jobs dropped dropped' : List (Job κ)} {ended ended' : List (Job κ × RunResult ε)}
  {due : List NodeId}

/-- The number of jobs that came up. -/
def made (s : System κ ε) : Nat := s.graph.claimedCount + s.stats.splits

/-- The number of jobs that are queued, being run, were run, or were dropped. -/
def placed (s : System κ ε) : Nat :=
  s.queued.length + s.underWay.length + s.stats.executed + s.stats.retired

/-- As many jobs came up as found a place. Some runs ended and some jobs were dropped, and all of them
were counted. -/
structure Conserves (s s' : System κ ε) (ended : List (Job κ × RunResult ε))
    (dropped : List (Job κ)) : Prop where
  balance : s'.made + s.placed = s.made + s'.placed
  executed : s'.stats.executed = s.stats.executed + ended.length
  faulted : s'.stats.faulted = s.stats.faulted + ended.countP (·.2.isStopped)
  retired : s'.stats.retired = s.stats.retired + dropped.length

namespace Conserves

/-- Nothing happens to jobs. -/
theorem of_same (hmade : s'.graph.claimedCount = s.graph.claimedCount)
    (hqueued : s'.queued = s.queued) (hunderWay : s'.underWay = s.underWay)
    (hstats : s'.stats = s.stats) : s.Conserves s' [] [] := by
  refine ⟨?_, by rw [hstats]; rfl, by rw [hstats]; rfl, by rw [hstats]; rfl⟩
  unfold System.made System.placed
  rw [hmade, hqueued, hunderWay, hstats]

theorem refl (s : System κ ε) : s.Conserves s [] [] := of_same rfl rfl rfl rfl

theorem trans (h : s.Conserves s' ended dropped) (h' : s'.Conserves s'' ended' dropped') :
    s.Conserves s'' (ended' ++ ended) (dropped' ++ dropped) where
  balance := by
    have hbefore := h.balance
    have hafter := h'.balance
    omega
  executed := by
    rw [h'.executed, h.executed, List.length_append]
    omega
  faulted := by
    rw [h'.faulted, h.faulted, List.countP_append]
    omega
  retired := by
    rw [h'.retired, h.retired, List.length_append]
    omega

/-- Jobs that come up are queued. -/
theorem of_supplies (h : s.Supplies s' jobs) (hunderWay : s'.underWay = s.underWay)
    (hstats : s'.stats = s.stats) : s.Conserves s' [] [] := by
  refine ⟨?_, by rw [hstats]; rfl, by rw [hstats]; rfl, by rw [hstats]; rfl⟩
  have hclaimed := h.claims.claimedCount
  have hqueued := h.queued.length_eq
  rw [List.length_map] at hclaimed
  rw [List.length_append] at hqueued
  unfold System.made System.placed
  rw [hunderWay, hstats]
  omega

/-- A job that was queued is dropped. -/
theorem retire (hqueued : s.queued.Perm (job :: s'.queued)) (hunderWay : s'.underWay = s.underWay)
    (hgraph : s'.graph = s.graph)
    (hstats : s'.stats = { s.stats with retired := s.stats.retired + 1 }) :
    s.Conserves s' [] [job] := by
  refine ⟨?_, by rw [hstats]; rfl, by rw [hstats]; rfl, by rw [hstats]; rfl⟩
  have hlength := hqueued.length_eq
  rw [List.length_cons] at hlength
  unfold System.made System.placed
  rw [hunderWay, hgraph, hstats]
  dsimp only
  omega

/-- A run ends. -/
theorem rest {result : RunResult ε} (hqueued : s'.queued = s.queued)
    (hunderWay : s.underWay.Perm (job :: s'.underWay)) (hgraph : s'.graph = s.graph)
    (hstats : s'.stats = { s.stats with
      executed := s.stats.executed + 1
      faulted := s.stats.faulted + if result.isStopped then 1 else 0 }) :
    s.Conserves s' [(job, result)] [] := by
  refine ⟨?_, by rw [hstats]; rfl, ?_, by rw [hstats]; rfl⟩
  · have hlength := hunderWay.length_eq
    rw [List.length_cons] at hlength
    unfold System.made System.placed
    rw [hqueued, hgraph, hstats]
    dsimp only
    omega
  · rw [hstats, List.countP_singleton]

end Conserves

/-- Jobs that come up and join the queue of a worker. -/
theorem conserves_enqueue {graph : Graph κ} (hw : s.workers[w]? = some worker)
    (hclaims : s.graph.Claims graph (jobs.map Job.node)) :
    s.Conserves (({ s with graph } : System κ ε).enqueue w jobs) [] [] :=
  .of_supplies (supplies_enqueue hw rfl hclaims) (underWay_updateWorker { s with graph } w) rfl

/-- A worker that finishes a part, after it took the job or event away. -/
theorem conserves_finishPart (t : System κ ε) (hs : s.graph.Coherent s.load) (he : s.Exact due)
    (hn : 0 < s.load n) (hgraph : t.graph = s.graph) (hgrain : t.grain = s.grain)
    (hw : t.workers[w]? = some worker) : t.Conserves (t.finishPart w n) [] [] := by
  obtain ⟨graph, jobs, heq, hclaims⟩ := exists_finishPart t hs he hn hgraph hgrain w
  rw [heq]
  rw [← hgraph] at hclaims
  exact conserves_enqueue hw hclaims

/-- Ending a run. -/
theorem conserves_conclude (hs : s.graph.Coherent s.load) (he : s.Exact due) (w : Nat)
    (result : RunResult ε) :
    s.Conserves (s.conclude w result) ((s.runningOn w).map (·, result)).toList [] := by
  unfold conclude
  cases hrunning : s.runningOn w with
  | none => exact .refl s
  | some job =>
    unfold runningOn at hrunning
    cases hw : s.workers[w]? with
    | none => simp [hw] at hrunning
    | some worker =>
      have hjob : worker.running = some job := by simpa [hw] using hrunning
      have hw' := getElem?_updateWorker_self hw ({ · with running := none })
      have hqueued := queued_updateWorker s w (f := ({ · with running := none }))
      have hn : 0 < s.load job.node := by
        rw [load_rest hw hjob]
        exact Graph.addLoad_pos ..
      have hunderWay : s.underWay.Perm
          (job :: (s.updateWorker w ({ · with running := none })).underWay) := by
        obtain ⟨others, hbefore, hafter⟩ := exists_others hw (·.running.toList)
        rw [hjob] at hbefore
        exact hbefore.trans ((hafter ({ · with running := none })).symm.cons job)
      cases result with
      | event e =>
        refine .rest ((queued_updateWorker _ w).trans hqueued) ?_ rfl rfl
        refine hunderWay.trans (.of_eq (congrArg (job :: ·) ?_))
        exact (underWay_updateWorker ((s.updateWorker w ({ · with running := none })).count _) w
          (f := fun worker => { worker with watcher := worker.watcher.track e job.node })).symm
      | finished =>
        set rested := (s.updateWorker w ({ · with running := none })).count fun stats =>
          { stats with executed := stats.executed + 1 }
        have hrest : s.Conserves rested [(job, .finished)] [] := .rest hqueued hunderWay rfl rfl
        exact hrest.trans (conserves_finishPart rested hs he hn rfl rfl hw')
      | stopped =>
        set rested := ((s.updateWorker w ({ · with running := none })).count fun stats =>
          { stats with executed := stats.executed + 1 }).count fun stats =>
            { stats with faulted := stats.faulted + 1 }
        have hrest : s.Conserves rested [(job, .stopped)] [] := .rest hqueued hunderWay rfl rfl
        exact hrest.trans (conserves_finishPart rested hs he hn rfl rfl hw')

/-- Seeing an event complete. -/
theorem conserves_settle (hs : s.graph.Coherent s.load) (he : s.Exact due) (w position : Nat) :
    s.Conserves (s.settle w position) [] [] := by
  unfold settle
  cases hwatched : s.watchedAt w position with
  | none => exact .refl s
  | some entry =>
    unfold watchedAt at hwatched
    cases hw : s.workers[w]? with
    | none => simp [hw] at hwatched
    | some worker =>
      have hentry : worker.watcher.pending[position]? = some entry := by
        simpa [hw] using hwatched
      have hn : 0 < s.load entry.node := by
        rw [load_unwatch hw hentry]
        exact Graph.addLoad_pos ..
      set looked := s.updateWorker w (·.unwatch position) with hlooked
      have hlook : s.Conserves looked [] [] :=
        .of_same rfl (queued_updateWorker s w) (underWay_updateWorker s w) rfl
      have hw' : looked.workers[w]? = some (worker.unwatch position) :=
        getElem?_updateWorker_self hw _
      exact hlook.trans (conserves_finishPart looked hs he hn rfl rfl hw')

/-- Polling. -/
theorem conserves_poll (hs : s.graph.Coherent s.load) (he : s.Exact due) (query : ε → Bool × ε)
    (w : Nat) : s.Conserves (s.poll query w) [] [] := by
  cases hw : s.workers[w]? with
  | none =>
    unfold poll
    rw [hw]
    exact .refl s
  | some worker =>
    obtain ⟨watcher, graph, jobs, heq, hclaims⟩ := exists_poll hs he query hw
    set looked := s.updateWorker w ({ · with watcher })
    have hlook : s.Conserves looked [] [] :=
      .of_same rfl (queued_updateWorker s w) (underWay_updateWorker s w) rfl
    have hw' : looked.workers[w]? = some { worker with watcher } := getElem?_updateWorker_self hw _
    rw [heq]
    exact hlook.trans (conserves_enqueue hw' hclaims)

/-- A worker that runs nothing and begins to runs one job more than before. -/
theorem length_underWay_begun (hw : s.workers[w]? = some worker) (hrest : worker.running = none)
    {f : Worker κ ε → Worker κ ε} (hf : (f worker).running = some job) :
    (s.updateWorker w f).underWay.length = s.underWay.length + 1 := by
  obtain ⟨others, hbefore, hafter⟩ := exists_others hw (·.running.toList)
  have hbegun := hafter f
  rw [hrest] at hbefore
  rw [hf] at hbegun
  have hfirst := hbefore.length_eq
  have hlast := hbegun.length_eq
  rw [List.length_append] at hfirst hlast
  unfold underWay
  rw [hfirst, hlast, Option.toList_some, Option.toList_none, List.length_singleton, List.length_nil]
  omega

/-- A worker that runs nothing begins to run the job that it took. -/
theorem Takes.conserves (h : s.Takes job s') (hw : s'.workers[w]? = some worker)
    (hrest : worker.running = none) (split : Bool) :
    s.Conserves (s'.beginWith w job split) [] [] := by
  have hcount : s.queued.length = s'.queued.length + 1 := by
    rw [h.queued.length_eq, List.length_cons]
  have hsplits : s'.stats.splits = s.stats.splits := by rw [h.stats]
  have hexecuted : s'.stats.executed = s.stats.executed := by rw [h.stats]
  have hfaulted : s'.stats.faulted = s.stats.faulted := by rw [h.stats]
  have hretired : s'.stats.retired = s.stats.retired := by rw [h.stats]
  unfold beginWith
  split
  · set begun := s'.updateWorker w ({ · with running := some job })
    have hqueued : begun.queued = s'.queued := queued_updateWorker s' w
    have hunderWay : begun.underWay.length = s'.underWay.length + 1 :=
      length_underWay_begun hw hrest rfl
    refine ⟨?_, hexecuted, hfaulted, hretired⟩
    change s'.graph.claimedCount + s'.stats.splits + s.placed =
      s.made + (begun.queued.length + begun.underWay.length + s'.stats.executed + s'.stats.retired)
    unfold System.made System.placed
    rw [hunderWay, h.underWay, hqueued, h.graph]
    omega
  · next graph piece rest hsplit =>
    have hsome : s'.graph.splitJob job = some (graph, piece, rest) := by
      split at hsplit
      · exact hsplit
      · cases hsplit
    set begun := ({ s' with graph } : System κ ε).updateWorker w fun worker =>
      { worker with queue := piece :: worker.queue, running := some rest } with hbegun
    have hqueued : begun.queued.length = s'.queued.length + 1 := by
      obtain ⟨others, hbefore, hafter⟩ := exists_others (s := { s' with graph }) hw (·.queue)
      have hjoined := hafter fun worker =>
        { worker with queue := piece :: worker.queue, running := some rest }
      have hqueues := (hjoined.trans (hbefore.symm.cons piece)).append_left s'.inbox.waiting
      have hlength := (hqueues.trans List.perm_middle).length_eq
      rwa [List.length_cons] at hlength
    have hunderWay : begun.underWay.length = s'.underWay.length + 1 :=
      length_underWay_begun (s := { s' with graph }) hw hrest rfl
    have hclaimed : graph.claimedCount = s.graph.claimedCount := by
      obtain ⟨rfl, _, _⟩ := Graph.splitJob_spec hsome
      rw [← h.graph]
      exact (Graph.Claims.of_same fun n => Graph.field_updateNode Node.claimed n).claimedCount
    refine ⟨?_, hexecuted, hfaulted, hretired⟩
    change graph.claimedCount + (s'.stats.splits + 1) + s.placed =
      s.made + (begun.queued.length + begun.underWay.length + s'.stats.executed + s'.stats.retired)
    unfold System.made System.placed
    rw [hunderWay, h.underWay]
    omega

/-- A worker that drops the newest job of its queue. -/
theorem conserves_retireQueue (hs : s.graph.Coherent s.load) (he : s.Exact due)
    (hw : s.workers[w]? = some worker) (halive : worker.dead = false) {rest : List (Job κ)}
    (hqueue : worker.queue = job :: rest) : s.Conserves (s.retireQueue w 1) [] [job] := by
  have htakes := takes_takeOwn (takeOwn_eq hw hqueue)
  have hn : 0 < s.load job.node := by
    rw [htakes.load]
    exact Graph.addLoad_pos ..
  set taken := (s.updateWorker w ({ · with queue := rest })).count fun stats =>
    { stats with retired := stats.retired + 1 }
  have htaken : s.Conserves taken [] [job] := .retire htakes.queued htakes.underWay rfl rfl
  rw [retireQueue_one hw halive hqueue]
  exact htaken.trans
    (conserves_finishPart taken hs he hn rfl rfl (getElem?_updateWorker_self hw _))

/-- Whoever empties the inbox drops its oldest job. -/
theorem conserves_retireInbox (hs : s.graph.Coherent s.load) (he : s.Exact due)
    {rest : List (Job κ)} (hwaiting : s.inbox.waiting = job :: rest) :
    s.Conserves (s.retireInbox 1).state [] [job] := by
  obtain ⟨graph, jobs, heq, _, hclaims⟩ := exists_retireInbox hs he hwaiting
  set taken := ({ s with inbox := ⟨rest, s.inbox.taken + 1⟩ } : System κ ε).count fun stats =>
    { stats with retired := stats.retired + 1 }
  have hqueued : s.queued = job :: taken.queued := by
    unfold queued
    rw [hwaiting]
    rfl
  have htaken : s.Conserves taken [] [job] := .retire (.of_eq hqueued) rfl rfl rfl
  have hmore : taken.Supplies { taken with graph, inbox := ⟨rest ++ jobs, s.inbox.taken + 1⟩ } jobs := by
    refine ⟨?_, hclaims⟩
    unfold queued
    rw [List.append_assoc]
    exact List.perm_append_comm_assoc ..
  rw [heq]
  exact htaken.trans (.of_supplies hmore rfl rfl)

end System

end HazardFlow
