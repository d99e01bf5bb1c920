import HazardFlow.Proofs.Schedule.Supplying
import HazardFlow.Schedule.Shutdown

/-!
# What workers begin and drop

A free worker begins to run a job that was queued, or one half of it while the other half is queued
instead. A worker that drops the newest job of its queue, and whoever empties the inbox, finish the
part of the job all the same.
-/

namespace HazardFlow

variable {κ ε : Type}

/-- A worker that no longer watches the event at some position. -/
def Worker.unwatch (worker : Worker κ ε) (position : Nat) : Worker κ ε :=
  { worker with
    watcher := { worker.watcher with pending := worker.watcher.pending.eraseIdx position } }

namespace System

open HazardFlow.Graph (addLoad dropLoad)

variable {s s' : System κ ε} {w v : Nat} {worker : Worker κ ε} {job : Job κ} {due : List NodeId}

/-- A worker began to run a job that was queued, whole or after it was split. -/
inductive Began (s : System κ ε) (w : Nat) (s' : System κ ε) : Prop where
  | whole {job : Job κ} (hrunning : s'.runningOn w = some job)
      (hqueued : s.queued.Perm (job :: s'.queued)) (hgraph : s'.graph = s.graph)
      (hsplits : s'.stats.splits = s.stats.splits)
  | half {job piece rest : Job κ} {others : List (Job κ)} (hrunning : s'.runningOn w = some rest)
      (hbefore : s.queued.Perm (job :: others)) (hafter : s'.queued.Perm (piece :: others))
      (hsplit : s.graph.splitJob job = some (s'.graph, piece, rest))
      (hsplits : s'.stats.splits = s.stats.splits + 1)

/-- What a worker runs after an update. -/
theorem runningOn_updateWorker_self (hw : s.workers[w]? = some worker)
    (f : Worker κ ε → Worker κ ε) : (s.updateWorker w f).runningOn w = (f worker).running := by
  unfold runningOn
  rw [getElem?_updateWorker_self hw]
  rfl

/-- A worker that has taken a job begins to run it. -/
theorem Takes.began (h : s.Takes job s') (hw : s'.workers[w]? = some worker) (split : Bool) :
    s.Began w (s'.beginWith w job split) := by
  have hstats : s'.stats.splits = s.stats.splits := by rw [h.stats]
  unfold beginWith
  split
  · refine .whole (runningOn_updateWorker_self hw _) ?_ h.graph hstats
    rw [queued_updateWorker s' w]
    exact h.queued
  · next graph piece rest hsplit =>
    have hsome : s'.graph.splitJob job = some (graph, piece, rest) := by
      split at hsplit
      · exact hsplit
      · cases hsplit
    rw [h.graph] at hsome
    refine .half (runningOn_updateWorker_self hw _) h.queued ?_ hsome
      (congrArg (· + 1) hstats)
    obtain ⟨others, hbefore, hafter⟩ := exists_others (s := { s' with graph }) hw (·.queue)
    have hjoined := hafter fun worker =>
      { worker with queue := piece :: worker.queue, running := some rest }
    have hqueues := (hjoined.trans (hbefore.symm.cons piece)).append_left s'.inbox.waiting
    exact hqueues.trans List.perm_middle

/-- Taking any queued job spares all workers. -/
theorem spares_pick {place : Place} {position : Nat} (h : s.pick place position = some (s', job))
    (w : Nat) : Spares s.workers s'.workers w := by
  unfold pick at h
  obtain ⟨job', _, heq⟩ := Option.map_eq_some_iff.mp h
  obtain ⟨rfl, rfl⟩ := Prod.mk.inj heq
  cases place with
  | inbox => exact .refl ..
  | queue v => exact .modifyQueue s.workers v w (f := (·.eraseIdx position)) rfl

/-- A worker takes the newest job of its queue. -/
theorem takeOwn_eq (hw : s.workers[w]? = some worker) {rest : List (Job κ)}
    (hqueue : worker.queue = job :: rest) :
    s.takeOwn w = some (s.updateWorker w ({ · with queue := rest }), job) := by
  obtain ⟨queue, running, watcher, dead⟩ := worker
  subst hqueue
  unfold takeOwn
  rw [hw]

/-- However a worker finds a job, it spares the others. -/
theorem spares_takeJob (h : s.takeJob w = some (s', job)) : Spares s.workers s'.workers w := by
  unfold takeJob at h
  rw [Option.or_eq_some_iff, Option.or_eq_some_iff] at h
  rcases h with (hown | ⟨_, hsubmitted⟩) | ⟨_, hstolen⟩
  · unfold takeOwn at hown
    split at hown
    · obtain ⟨rfl, rfl⟩ := Prod.mk.inj (Option.some.inj hown)
      exact spares_updateWorker (.refl ..)
    · cases hown
  · unfold takeSubmitted at hsubmitted
    obtain ⟨⟨first, others, inbox⟩, _, heq⟩ := Option.map_eq_some_iff.mp hsubmitted
    obtain ⟨rfl, rfl⟩ := Prod.mk.inj heq
    exact spares_updateWorker (.refl ..)
  · obtain ⟨peer, _, hsteal⟩ := List.exists_of_findSome?_eq_some hstolen
    unfold stealFrom at hsteal
    split at hsteal
    · cases hsteal
    · next victim hpeer =>
      obtain ⟨last, _, heq⟩ := Option.map_eq_some_iff.mp hsteal
      obtain ⟨rfl, rfl⟩ := Prod.mk.inj heq
      have hshort : s.updateWorker peer ({ · with queue := victim.queue.dropLast }) =
          s.updateWorker peer fun worker => { worker with queue := worker.queue.dropLast } :=
        updateWorker_congr fun other hother => by
          rw [Option.some.inj (hpeer.symm.trans hother)]
      rw [hshort]
      exact .modifyQueue s.workers peer w rfl

/-- Beginning to run a job spares the other workers. -/
theorem spares_beginWith {before : Array (Worker κ ε)} (h : Spares before s.workers w)
    (job : Job κ) (split : Bool) : Spares before (s.beginWith w job split).workers w := by
  unfold beginWith
  split
  · exact spares_updateWorker h
  · next graph piece rest _ =>
    have hbegun : Spares before (({ s with graph } : System κ ε).updateWorker w fun worker =>
        { worker with queue := piece :: worker.queue, running := some rest }).workers w :=
      spares_updateWorker h
    exact hbegun

/-- A worker that waits for the oldest event that it watches finishes its part. -/
theorem exists_settle (hs : s.graph.Coherent s.load) (he : s.Exact due) (hw : s.workers[w]? = some worker)
    {entry : Watched ε} {rest : List (Watched ε)}
    (hpending : worker.watcher.pending = entry :: rest) :
    ∃ graph jobs, s.settle w 0 = ({ s.updateWorker w (·.unwatch 0) with graph } :
        System κ ε).enqueue w jobs ∧ (s.settle w 0).workers[w]? =
          some { worker.unwatch 0 with queue := jobs.reverse ++ worker.queue } ∧
      s.graph.Claims graph (jobs.map Job.node) := by
  have hentry : worker.watcher.pending[0]? = some entry := by rw [hpending, List.getElem?_cons_zero]
  have hn : 0 < s.load entry.node := by
    rw [load_unwatch hw hentry]
    exact Graph.addLoad_pos ..
  have hwatched : s.watchedAt w 0 = some entry := by
    unfold watchedAt
    rw [hw, Option.bind_some, hentry]
  obtain ⟨graph, jobs, heq, hclaims⟩ :=
    exists_finishPart (s.updateWorker w (·.unwatch 0)) hs he hn rfl rfl w
  have hw' := getElem?_updateWorker_self hw (·.unwatch 0)
  unfold settle
  rw [hwatched]
  refine ⟨graph, jobs, heq, ?_, hclaims⟩
  refine (congrArg (fun s : System κ ε => s.workers[w]?) heq).trans ?_
  exact getElem?_updateWorker_self (s := { s.updateWorker w (·.unwatch 0) with graph }) hw' _

/-- A worker that drops the newest job of its queue. -/
theorem retireQueue_one (hw : s.workers[w]? = some worker) (halive : worker.dead = false)
    {rest : List (Job κ)} (hqueue : worker.queue = job :: rest) :
    s.retireQueue w 1 = ((s.updateWorker w ({ · with queue := rest })).count fun stats =>
      { stats with retired := stats.retired + 1 }).finishPart w job.node := by
  unfold retireQueue
  rw [takeOwn_eq hw hqueue, hw]
  simp [halive, retireQueue]

/-- It makes a step. -/
theorem goes_retire (hw : s.workers[w]? = some worker) (halive : worker.dead = false)
    {rest : List (Job κ)} (hqueue : worker.queue = job :: rest) : s.Goes (s.retireQueue w 1) := by
  have htakes := takes_takeOwn (takeOwn_eq hw hqueue)
  rw [retireQueue_one hw halive hqueue]
  exact goes_finishPart rfl rfl rfl (getElem?_updateWorker_self hw _) htakes.load

/-- The job is gone, and those that come up for it join the queue. -/
theorem exists_retire (hs : s.graph.Coherent s.load) (he : s.Exact due) (hw : s.workers[w]? = some worker)
    (halive : worker.dead = false) {rest : List (Job κ)} (hqueue : worker.queue = job :: rest) :
    ∃ graph jobs others, s.queued.Perm (job :: others) ∧
      (s.retireQueue w 1).queued.Perm (jobs ++ others) ∧
      s.retireQueue w 1 = (({ (s.updateWorker w ({ · with queue := rest })).count fun stats =>
        { stats with retired := stats.retired + 1 } with graph } : System κ ε)).enqueue w jobs ∧
      (s.retireQueue w 1).workers[w]? = some { worker with queue := jobs.reverse ++ rest } ∧
      s.graph.Claims graph (jobs.map Job.node) := by
  have htakes := takes_takeOwn (takeOwn_eq hw hqueue)
  have hn : 0 < s.load job.node := by
    rw [htakes.load]
    exact Graph.addLoad_pos ..
  set taken := (s.updateWorker w ({ · with queue := rest })).count fun stats =>
    { stats with retired := stats.retired + 1 } with htaken
  obtain ⟨graph, jobs, heq, hclaims⟩ :=
    exists_finishPart taken hs he hn rfl rfl w
  rw [← retireQueue_one hw halive hqueue] at heq
  have hw' : taken.workers[w]? = some { worker with queue := rest } :=
    getElem?_updateWorker_self hw _
  refine ⟨graph, jobs, taken.queued, htakes.queued, ?_, heq, ?_, hclaims⟩
  · rw [heq]
    exact (queued_enqueue (t := { taken with graph }) hw' jobs).trans List.perm_append_comm
  · rw [heq]
    exact getElem?_updateWorker_self (s := { taken with graph }) hw' _

/-- Whoever empties the inbox finishes the part of its oldest job without a fault. -/
theorem exists_retireInbox (hs : s.graph.Coherent s.load) (he : s.Exact due) {rest : List (Job κ)}
    (hwaiting : s.inbox.waiting = job :: rest) :
    ∃ graph jobs, s.retireInbox 1 = .pure
        (({ s with graph, inbox := ⟨rest ++ jobs, s.inbox.taken + 1⟩ } : System κ ε).count
          fun stats => { stats with retired := stats.retired + 1 }) 1 ∧
      s.Goes (s.retireInbox 1).state ∧ s.graph.Claims graph (jobs.map Job.node) := by
  set taken := (({ s with inbox := ⟨rest, s.inbox.taken + 1⟩ } : System κ ε)).count fun stats =>
    { stats with retired := stats.retired + 1 } with htaken
  have hload : s.load = addLoad taken.load job.node := by
    funext n
    unfold addLoad load
    rw [hwaiting, List.countP_cons]
    simp only [beq_iff_eq, eq_comm (a := n)]
    rw [htaken]
    unfold count
    dsimp only
    omega
  have hn : 0 < s.load job.node := by
    rw [hload]
    exact Graph.addLoad_pos ..
  have hfault : (s.graph.finishPart (Graph.handJob s.grain) job.node).fault = none :=
    Graph.fault_finishPart he.grain hs he.graph.stocked hn
  have hclaims := Graph.Claims.finishPart (Graph.faithful_handJob s.grain) hs hn hfault
  set handed := s.graph.finishPart (Graph.handJob s.grain) job.node with hhanded
  have htake : s.inbox.take = some (job, ⟨rest, s.inbox.taken + 1⟩) := by
    unfold Inbox.take
    rw [hwaiting]
  have hretire : s.retireInbox 1 = .pure
      (({ s with graph := handed.graph, inbox := ⟨rest ++ handed.items, s.inbox.taken + 1⟩ } :
        System κ ε).count fun stats => { stats with retired := stats.retired + 1 }) 1 := by
    unfold retireInbox
    rw [htake]
    dsimp only [count]
    rw [← hhanded, hfault]
    rfl
  refine ⟨handed.graph, handed.items, hretire, ?_, hclaims⟩
  rw [hretire]
  have hstep : Graph.Step s.grain s.graph s.load handed.graph _ := .finish hn hfault
  refine ⟨rfl, rfl, ?_⟩
  have hdrop : dropLoad s.load job.node = taken.load := by
    rw [hload, Graph.dropLoad_addLoad]
  rw [hdrop] at hstep
  have hjoined : (({ s with
      graph := handed.graph
      inbox := ⟨rest ++ handed.items, s.inbox.taken + 1⟩ } : System κ ε).count fun stats =>
        { stats with retired := stats.retired + 1 }).load =
      fun m => taken.load m + (handed.items.map Job.node).count m := by
    funext m
    have hcount : (handed.items.map Job.node).count m = handed.items.countP (·.node == m) := by
      rw [List.count, List.countP_map]
      rfl
    rw [hcount, htaken]
    unfold load count
    dsimp only
    rw [List.countP_append]
    omega
  rw [← hjoined] at hstep
  exact .single hstep

end System

end HazardFlow
