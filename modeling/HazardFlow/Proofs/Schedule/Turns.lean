import HazardFlow.Proofs.Schedule.Working

/-!
# The turn of a worker

A worker does not take just any job, and it sees events complete when it polls. What it does in a
turn is still made of steps: the jobs that it takes from its own queue, from the inbox or from a
peer were queued there, and a poll finishes one part for every event that it finds complete.
-/

namespace HazardFlow

variable {κ ε : Type}

namespace System

open HazardFlow.Graph (addLoad dropLoad)

variable {s s' : System κ ε} {w : Nat} {worker : Worker κ ε}

/-- What an update does to a worker depends on that worker only. -/
theorem updateWorker_congr {f f' : Worker κ ε → Worker κ ε}
    (h : ∀ worker, s.workers[w]? = some worker → f worker = f' worker) :
    s.updateWorker w f = s.updateWorker w f' := by
  have hworkers : s.workers.modify w f = s.workers.modify w f' := by
    refine Array.ext_getElem? fun i => ?_
    rw [Array.getElem?_modify, Array.getElem?_modify]
    split
    · next heq =>
      subst heq
      cases hw : s.workers[w]? with
      | none => rfl
      | some worker => rw [Option.map_some, Option.map_some, h worker hw]
    · rfl
  unfold updateWorker
  rw [hworkers]

/-- A job is in hand: it was taken out of where it was queued, and workers run what they ran. At most
this counts as a steal. -/
structure Takes (s : System κ ε) (job : Job κ) (s' : System κ ε) : Prop where
  graph : s'.graph = s.graph
  tracker : s'.tracker = s.tracker
  grain : s'.grain = s.grain
  queued : s.queued.Perm (job :: s'.queued)
  underWay : s'.underWay = s.underWay
  watched : s'.watched = s.watched
  running : ∀ (w : Nat) (worker : Worker κ ε), s.workers[w]? = some worker →
    ∃ worker', s'.workers[w]? = some worker' ∧ worker'.running = worker.running
  stats : s'.stats = { s.stats with steals := s'.stats.steals }

/-- A job in hand is missing from the load. -/
theorem Takes.load {job : Job κ} (h : s.Takes job s') : s.load = addLoad s'.load job.node := by
  funext n
  have hqueued := h.queued.countP_eq (·.node == n)
  rw [List.countP_cons] at hqueued
  unfold addLoad
  rw [load_eq, load_eq, h.underWay, h.watched, hqueued]
  simp only [beq_iff_eq, eq_comm (a := n)]
  omega

/-- An update of a worker's queue leaves all workers with what they run. -/
theorem exists_running_updateWorker (s : System κ ε) (v : Nat) {f : Worker κ ε → Worker κ ε}
    (hf : ∀ worker, (f worker).running = worker.running) {w : Nat} {worker : Worker κ ε}
    (hw : s.workers[w]? = some worker) :
    ∃ worker', (s.updateWorker v f).workers[w]? = some worker' ∧
      worker'.running = worker.running := by
  unfold updateWorker
  simp only [Array.getElem?_modify, hw, Option.map_some]
  split
  · exact ⟨_, rfl, hf worker⟩
  · exact ⟨_, rfl, rfl⟩

/-- Any queued job may be taken. -/
theorem takes_pick {place : Place} {position : Nat} {job : Job κ}
    (h : s.pick place position = some (s', job)) : s.Takes job s' := by
  unfold pick at h
  rw [Option.map_eq_some_iff] at h
  obtain ⟨job', hjob, heq⟩ := h
  rw [Prod.mk.injEq] at heq
  obtain ⟨rfl, rfl⟩ := heq
  obtain ⟨hgraph, htracker, hgrain, hrun, hwatched⟩ := withoutJob_eq s place position
  refine ⟨hgraph, htracker, hgrain, queued_withoutJob hjob, hrun, hwatched, fun w worker hw => ?_, ?_⟩
  · cases place with
    | inbox => exact ⟨worker, hw, rfl⟩
    | queue v => exact exists_running_updateWorker s v (by intro worker; rfl) hw
  · cases place <;> rfl

/-- Taking a job out of the queue of a worker. -/
theorem pick_queue (hw : s.workers[w]? = some worker) {position : Nat} {job : Job κ}
    (hjob : worker.queue[position]? = some job) :
    s.pick (.queue w) position =
      some (s.updateWorker w ({ · with queue := worker.queue.eraseIdx position }), job) := by
  have hqueued : s.queuedAt (.queue w) = worker.queue := by
    unfold queuedAt
    simp [hw]
  have hwithout : s.withoutJob (.queue w) position =
      s.updateWorker w ({ · with queue := worker.queue.eraseIdx position }) := by
    refine updateWorker_congr fun other hother => ?_
    rw [hw, Option.some.injEq] at hother
    rw [hother]
  unfold pick
  rw [hqueued, hjob, Option.map_some, hwithout]

/-- A worker takes the newest job of its own queue. -/
theorem takes_takeOwn {job : Job κ} (h : s.takeOwn w = some (s', job)) : s.Takes job s' := by
  unfold takeOwn at h
  split at h
  · next first rest running watcher dead hw =>
    rw [Option.some.injEq, Prod.mk.injEq] at h
    obtain ⟨rfl, rfl⟩ := h
    exact takes_pick (pick_queue hw List.getElem?_cons_zero)
  · cases h

/-- A worker takes the oldest job of the queue of a peer. -/
theorem takes_stealFrom {peer : Nat} {job : Job κ} (h : s.stealFrom peer = some (s', job)) :
    s.Takes job s' := by
  unfold stealFrom at h
  split at h
  · cases h
  · next worker hw =>
    rw [Option.map_eq_some_iff] at h
    obtain ⟨last, hlast, heq⟩ := h
    rw [Prod.mk.injEq] at heq
    obtain ⟨rfl, rfl⟩ := heq
    rw [List.getLast?_eq_getElem?] at hlast
    have htakes := takes_pick (pick_queue hw hlast)
    rw [List.eraseIdx_length_sub_one] at htakes
    exact { htakes with stats := rfl }

/-- A worker takes the oldest job of the inbox, and others join its queue. -/
theorem takes_takeSubmitted (hw : s.workers[w]? = some worker) {job : Job κ}
    (h : s.takeSubmitted w = some (s', job)) : s.Takes job s' := by
  unfold takeSubmitted at h
  rw [Option.map_eq_some_iff] at h
  obtain ⟨⟨first, others, inbox⟩, hshare, heq⟩ := h
  rw [Prod.mk.injEq] at heq
  obtain ⟨rfl, rfl⟩ := heq
  have hwaiting := Inbox.waiting_of_takeShare hshare
  refine ⟨rfl, rfl, rfl, ?_, ?_, ?_, fun v other hv => ?_, rfl⟩
  · obtain ⟨rest, hbefore, hafter⟩ := exists_others (s := { s with inbox }) hw (·.queue)
    have hjoined := hafter fun worker => { worker with queue := others ++ worker.queue }
    rw [List.append_assoc] at hjoined
    have hqueues := (hbefore.append_left others).trans hjoined.symm
    unfold queued
    rw [hwaiting, List.cons_append, List.append_assoc]
    exact ((List.perm_append_comm_assoc ..).trans (hqueues.append_left inbox.waiting)).cons first
  · exact underWay_updateWorker { s with inbox } w
  · exact watched_updateWorker { s with inbox } w
  · exact exists_running_updateWorker { s with inbox } w (by intro worker; rfl) hv

/-- However a worker finds a job, it takes it. -/
theorem takes_takeJob (hw : s.workers[w]? = some worker) {job : Job κ}
    (h : s.takeJob w = some (s', job)) : s.Takes job s' := by
  unfold takeJob at h
  rw [Option.or_eq_some_iff, Option.or_eq_some_iff] at h
  rcases h with (hown | ⟨_, hsubmitted⟩) | ⟨_, hstolen⟩
  · exact takes_takeOwn hown
  · exact takes_takeSubmitted hw hsubmitted
  · obtain ⟨peer, _, hsteal⟩ := List.exists_of_findSome?_eq_some hstolen
    exact takes_stealFrom hsteal

/-- A worker splits a job that it begins when its queue is empty. -/
theorem begin_eq_beginWith (s : System κ ε) (w : Nat) (job : Job κ) :
    s.begin w job =
      s.beginWith w job ((s.workers[w]?.map fun worker => worker.queue.isEmpty).getD false) := by
  unfold begin beginWith
  dsimp only
  generalize halone : (s.workers[w]?.map fun worker => worker.queue.isEmpty).getD false = alone
  cases hsplit : (if alone then s.graph.splitJob job else none) with
  | none => rfl
  | some parts =>
    obtain ⟨g, piece, rest⟩ := parts
    have hempty : ∀ worker, s.workers[w]? = some worker → worker.queue = [] := fun worker hw => by
      rw [hw, Option.map_some, Option.getD_some] at halone
      cases alone with
      | false => cases hsplit
      | true => exact List.isEmpty_iff.mp halone
    have hqueue : ({ s with graph := g } : System κ ε).updateWorker w (fun worker =>
        { worker with queue := [piece], running := some rest }) =
        ({ s with graph := g } : System κ ε).updateWorker w fun worker =>
          { worker with queue := piece :: worker.queue, running := some rest } :=
      updateWorker_congr fun worker hw => by rw [hempty worker hw]
    dsimp only
    rw [hqueue]

/-- A free worker runs nothing. -/
theorem exists_free (hfree : s.isFree w = true) :
    ∃ worker, s.workers[w]? = some worker ∧ worker.running = none := by
  unfold isFree at hfree
  cases hw : s.workers[w]? with
  | none => simp [hw] at hfree
  | some worker =>
    simp only [hw, Option.map_some, Option.getD_some, Bool.and_eq_true,
      Option.isNone_iff_eq_none] at hfree
    exact ⟨worker, rfl, hfree.1⟩

/-- Nor does it when it has taken a job. -/
theorem Takes.exists_free {job : Job κ} (h : s.Takes job s') (hfree : s.isFree w = true) :
    ∃ worker, s'.workers[w]? = some worker ∧ worker.running = none := by
  obtain ⟨worker, hw, hnone⟩ := System.exists_free hfree
  obtain ⟨worker', hw', hrunning⟩ := h.running w worker hw
  exact ⟨worker', hw', hrunning.trans hnone⟩

/-- A free worker that takes a job and begins to run it makes steps. -/
theorem Takes.goes_beginWith {job : Job κ} (h : s.Takes job s') (split : Bool)
    (hfree : s.isFree w = true) : s.Goes (s'.beginWith w job split) := by
  obtain ⟨worker, hw, hnone⟩ := h.exists_free hfree
  have hsteps := steps_beginWith split hw hnone h.load
  rw [h.graph, h.grain] at hsteps
  refine ⟨?_, ?_, hsteps⟩
  · unfold beginWith
    split <;> exact h.tracker
  · unfold beginWith
    split <;> exact h.grain

/-- A free worker that begins the job which it finds makes steps. -/
theorem goes_begin (hfree : s.isFree w = true) {job : Job κ}
    (h : s.takeJob w = some (s', job)) : s.Goes (s'.begin w job) := by
  obtain ⟨worker, hw, _⟩ := exists_free hfree
  rw [begin_eq_beginWith]
  exact (takes_takeJob hw h).goes_beginWith _ hfree

/-- The entries that wait for a node. -/
def waiting (entries : List (Watched ε)) (n : NodeId) : Nat := entries.countP (·.node == n)

theorem waiting_lastFirst (entries : List (Watched ε)) :
    waiting (Watcher.lastFirst entries) = waiting entries := by
  funext n
  exact (Watcher.perm_lastFirst entries).countP_eq _

/-- The load after events were looked at, with `base` from elsewhere: what is watched still and what
was handed on, or less after a fault. -/
structure Leaves (base : NodeId → Nat) (handed : Handed κ (Job κ)) (pending : List (Watched ε))
    (load : NodeId → Nat) : Prop where
  le : ∀ n, load n ≤ base n + waiting pending n + (handed.items.map Job.node).count n
  eq : handed.fault = none →
    ∀ n, load n = base n + waiting pending n + (handed.items.map Job.node).count n

/-- When nothing is found complete, nothing changes. -/
theorem Leaves.steps {grain : Nat} {g : Graph κ} {pending : List (Watched ε)}
    {base load : NodeId → Nat} (h : Leaves base (⟨g, [], none⟩ : Handed κ (Job κ)) pending load) :
    Graph.Steps grain g (fun n => base n + waiting pending n) g load := by
  have hsame : load = fun n => base n + waiting pending n := funext (h.eq rfl)
  rw [hsame]
  exact .refl

/-- The share of an entry in what is watched. -/
theorem waiting_cons (entry : Watched ε) (rest : List (Watched ε)) (n : NodeId) :
    waiting (entry :: rest) n = waiting rest n + if n = entry.node then 1 else 0 := by
  unfold waiting
  rw [List.countP_cons]
  simp only [beq_iff_eq, eq_comm (a := n)]

theorem waiting_append (entries more : List (Watched ε)) (n : NodeId) :
    waiting (entries ++ more) n = waiting entries n + waiting more n :=
  List.countP_append

/-- An entry taken out is missing from the load. -/
theorem dropLoad_waiting (base : NodeId → Nat) (kept rest : List (Watched ε)) (entry : Watched ε) :
    dropLoad (fun n => base n + waiting kept n + waiting (entry :: rest) n) entry.node =
      fun n => base n + waiting kept n + waiting rest n := by
  funext n
  unfold dropLoad
  dsimp only
  rw [waiting_cons]
  omega

/-- An event that is watched holds a part of its node. -/
theorem waiting_pos (base : NodeId → Nat) (kept rest : List (Watched ε)) (entry : Watched ε) :
    0 < (fun n => base n + waiting kept n + waiting (entry :: rest) n) entry.node := by
  dsimp only
  rw [waiting_cons, if_pos rfl]
  omega

/-- A scan finishes a part for every event that it finds complete. -/
theorem steps_scan {grain : Nat} (query : ε → Bool × ε) (g : Graph κ)
    (kept rest : List (Watched ε)) (base load' : NodeId → Nat)
    (h : Leaves base (Watcher.scan query (Graph.handJob grain) g kept rest).handed
      (Watcher.scan query (Graph.handJob grain) g kept rest).pending load') :
    Graph.Steps grain g (fun n => base n + waiting kept n + waiting rest n)
      (Watcher.scan query (Graph.handJob grain) g kept rest).handed.graph load' := by
  fun_induction Watcher.scan generalizing base with
  | case1 g kept => exact h.steps
  | case2 g kept entry rest event hquery ih =>
    have hsame : (fun n => base n + waiting (kept ++ [⟨event, entry.node⟩]) n + waiting rest n) =
        fun n => base n + waiting kept n + waiting (entry :: rest) n := by
      funext n
      rw [waiting_append, waiting_cons, waiting_cons]
      unfold waiting
      simp only [List.countP_nil]
      omega
    have hsteps := ih base h
    rwa [hsame] at hsteps
  | case3 g kept entry rest event hquery finished fault hfault =>
    refine .single (.die (waiting_pos base kept rest entry)
      (by rw [hfault]; exact Option.some_ne_none fault) fun n => ?_)
    have hle := h.le n
    rw [waiting_append, waiting_lastFirst] at hle
    rw [dropLoad_waiting]
    change load' n ≤ base n + waiting kept n + waiting rest n +
      (finished.items.map Job.node).count n
    dsimp only at hle
    omega
  | case4 g kept entry rest event hquery finished hfault later ih =>
    have hstep : Graph.Step grain g
        (fun n => base n + waiting kept n + waiting (entry :: rest) n) finished.graph _ :=
      .finish (waiting_pos base kept rest entry) hfault
    have hsame : (fun n => base n + waiting kept n + waiting rest n +
        (finished.items.map Job.node).count n) = fun n =>
          base n + (finished.items.map Job.node).count n + waiting kept n +
            waiting (Watcher.lastFirst rest) n := by
      funext n
      rw [waiting_lastFirst]
      omega
    rw [dropLoad_waiting] at hstep
    rw [hsame] at hstep
    have hlater : Leaves (fun n => base n + (finished.items.map Job.node).count n) later.handed
        later.pending load' := by
      refine ⟨fun n => ?_, fun hfault n => ?_⟩
      · have hle := h.le n
        rw [List.map_append, List.count_append] at hle
        dsimp only at hle ⊢
        omega
      · have heq := h.eq hfault n
        rw [List.map_append, List.count_append] at heq
        dsimp only at heq ⊢
        omega
    exact (Graph.Steps.single hstep).trans (ih _ hlater)

/-- A poll finishes a part for every event that it finds complete. -/
theorem steps_poll {grain : Nat} (query : ε → Bool × ε) (g : Graph κ) (watcher : Watcher ε)
    (base load' : NodeId → Nat)
    (h : Leaves base (watcher.poll query (Graph.handJob grain) g).handed
      (watcher.poll query (Graph.handJob grain) g).watcher.pending load') :
    Graph.Steps grain g (fun n => base n + waiting watcher.pending n)
      (watcher.poll query (Graph.handJob grain) g).handed.graph load' := by
  unfold Watcher.poll at h ⊢
  split
  · next hempty =>
    rw [if_pos hempty] at h
    exact h.steps
  · next hpending =>
    rw [if_neg hpending] at h
    split
    · next hskip =>
      rw [if_pos hskip] at h
      exact h.steps
    · next hscan =>
      rw [if_neg hscan] at h
      have hsteps : Leaves base _ _ load' → Graph.Steps grain g
          (fun n => base n + waiting watcher.pending n) _ load' :=
        steps_scan query g [] watcher.pending base load'
      dsimp only at h ⊢
      split
      · next hfault =>
        rw [hfault] at h
        exact hsteps h
      · next hfault =>
        rw [hfault] at h
        exact hsteps h

/-- A worker that looks at its events makes steps when the look does. -/
theorem goes_receive (hw : s.workers[w]? = some worker) {watch : Watch κ ε (Job κ)}
    (hsteps : ∀ base load', Leaves base watch.handed watch.watcher.pending load' →
      Graph.Steps s.grain s.graph (fun n => base n + waiting worker.watcher.pending n)
        watch.handed.graph load') :
    s.Goes ((s.updateWorker w ({ · with watcher := watch.watcher })).receive w watch.handed) := by
  set looked := s.updateWorker w ({ · with watcher := watch.watcher }) with hlooked
  have hw' : looked.workers[w]? = some { worker with watcher := watch.watcher } :=
    getElem?_updateWorker_self hw _
  have hload (n : NodeId) : looked.load n =
      s.load n - waiting worker.watcher.pending n + waiting watch.watcher.pending n := by
    have hupdate : looked.load n + _ = _ := load_updateWorker hw _ n
    have hle := worker_load_le hw n
    simp only [Worker.load] at hupdate hle
    unfold waiting
    omega
  have hbefore : s.load = fun n =>
      s.load n - waiting worker.watcher.pending n + waiting worker.watcher.pending n := by
    funext n
    have hle := worker_load_le hw n
    unfold Worker.load at hle
    unfold waiting
    omega
  obtain ⟨htracker, hgrain, hgraph⟩ := receive_eq looked w watch.handed
  refine ⟨htracker, hgrain, ?_⟩
  rw [hgraph, hbefore]
  refine hsteps _ _ ⟨fun n => ?_, fun hfault n => ?_⟩
  · rw [← hload]
    exact load_receive_le hw' watch.handed n
  · rw [← hload]
    exact load_receive hw' hfault n

/-- A worker that polls makes steps. -/
theorem goes_poll (query : ε → Bool × ε) (s : System κ ε) (w : Nat) : s.Goes (s.poll query w) := by
  unfold poll
  split
  · exact .refl s
  · next worker hw =>
    exact goes_receive hw fun base load' h => steps_poll query s.graph worker.watcher base load' h

end System

end HazardFlow
