import HazardFlow.Proofs.Graph.Claims
import HazardFlow.Proofs.Progress
import HazardFlow.Proofs.Yard.Workers

/-!
# Where jobs come from

Jobs join those that are queued when nodes are claimed, one for each node, and when others are
split. They leave when a worker begins to run them. While one worker acts, the others keep what they
run and watch, and lose at most jobs from their queues.
-/

namespace HazardFlow

variable {κ ε : Type}

/-- All workers are as alive as before, and all but one keep what they run and watch. Jobs may be
taken from their queues. -/
structure Spares (before after : Array (Worker κ ε)) (w : Nat) : Prop where
  size : after.size = before.size
  worker : ∀ (v : Nat) (worker' : Worker κ ε), after[v]? = some worker' →
    ∃ worker, before[v]? = some worker ∧ worker'.dead = worker.dead ∧
      (v ≠ w → worker'.running = worker.running ∧ worker'.watcher = worker.watcher ∧
        (worker.queue = [] → worker'.queue = []))

namespace Spares

variable {first middle last : Array (Worker κ ε)} {w : Nat}

theorem refl (workers : Array (Worker κ ε)) (w : Nat) : Spares workers workers w where
  size := rfl
  worker _ worker hv := ⟨worker, hv, rfl, fun _ => ⟨rfl, rfl, id⟩⟩

theorem trans (h : Spares first middle w) (h' : Spares middle last w) : Spares first last w where
  size := h'.size.trans h.size
  worker v worker'' hv := by
    obtain ⟨worker', hmiddle, hdead', hothers'⟩ := h'.worker v worker'' hv
    obtain ⟨worker, hfirst, hdead, hothers⟩ := h.worker v worker' hmiddle
    refine ⟨worker, hfirst, hdead'.trans hdead, fun hne => ?_⟩
    obtain ⟨hrunning', hwatcher', hqueue'⟩ := hothers' hne
    obtain ⟨hrunning, hwatcher, hqueue⟩ := hothers hne
    exact ⟨hrunning'.trans hrunning, hwatcher'.trans hwatcher, fun hnone => hqueue' (hqueue hnone)⟩

/-- Changing a worker spares the others. -/
theorem modify (workers : Array (Worker κ ε)) (w : Nat) (f : Worker κ ε → Worker κ ε)
    (hf : ∀ worker, (f worker).dead = worker.dead) : Spares workers (workers.modify w f) w where
  size := Array.size_modify ..
  worker v worker' hv := by
    rw [Array.getElem?_modify] at hv
    by_cases hne : w = v
    · rw [if_pos hne] at hv
      obtain ⟨worker, hworker, rfl⟩ := Option.map_eq_some_iff.mp hv
      exact ⟨worker, hworker, hf worker, fun hnot => absurd hne.symm hnot⟩
    · rw [if_neg hne] at hv
      exact ⟨worker', hv, rfl, fun _ => ⟨rfl, rfl, id⟩⟩

/-- Changing any queue spares all workers, as long as it does not fill an empty one. -/
theorem modifyQueue (workers : Array (Worker κ ε)) (v w : Nat)
    {f : List (Job κ) → List (Job κ)} (hf : f [] = []) :
    Spares workers (workers.modify v fun worker => { worker with queue := f worker.queue }) w where
  size := Array.size_modify ..
  worker u worker' hu := by
    rw [Array.getElem?_modify] at hu
    split at hu
    · obtain ⟨worker, hworker, rfl⟩ := Option.map_eq_some_iff.mp hu
      refine ⟨worker, hworker, rfl, fun _ => ⟨rfl, rfl, fun hnone => ?_⟩⟩
      dsimp only
      rw [hnone, hf]
    · exact ⟨worker', hu, rfl, fun _ => ⟨rfl, rfl, id⟩⟩

end Spares

namespace System

variable {s s' s'' : System κ ε} {w n : Nat} {worker : Worker κ ε} {jobs more : List (Job κ)}
  {due : List NodeId}

/-- The jobs of nodes claimed on the way joined those that are queued. -/
structure Supplies (s s' : System κ ε) (jobs : List (Job κ)) : Prop where
  queued : s'.queued.Perm (jobs ++ s.queued)
  claims : s.graph.Claims s'.graph (jobs.map Job.node)

namespace Supplies

/-- Nothing comes up. -/
theorem of_same (hqueued : s'.queued = s.queued)
    (hclaimed : ∀ n : Nat, (s'.graph.node n).claimed = (s.graph.node n).claimed) :
    s.Supplies s' [] :=
  ⟨.of_eq hqueued, .of_same hclaimed⟩

theorem refl (s : System κ ε) : s.Supplies s [] := of_same rfl fun _ => rfl

theorem trans (h : s.Supplies s' jobs) (h' : s'.Supplies s'' more) :
    s.Supplies s'' (jobs ++ more) where
  queued := by
    refine h'.queued.trans ((h.queued.append_left more).trans ?_)
    rw [List.append_assoc]
    exact List.perm_append_comm_assoc ..
  claims := by
    rw [List.map_append]
    exact h.claims.trans h'.claims

end Supplies

/-- Jobs put on the queue of a worker come up. -/
theorem supplies_enqueue {graph : Graph κ} (hw : s'.workers[w]? = some worker)
    (hqueued : s'.queued = s.queued) (hclaims : s.graph.Claims graph (jobs.map Job.node)) :
    s.Supplies (({ s' with graph } : System κ ε).enqueue w jobs) jobs where
  queued := by
    rw [← hqueued]
    exact (queued_enqueue (t := { s' with graph }) hw jobs).trans List.perm_append_comm
  claims := hclaims

/-- Changing a worker of a system spares the others. -/
theorem spares_updateWorker {before : Array (Worker κ ε)} (h : Spares before s.workers w)
    {f : Worker κ ε → Worker κ ε}
    (hf : ∀ worker, (f worker).dead = worker.dead := by intro _; rfl) :
    Spares before (s.updateWorker w f).workers w :=
  h.trans (.modify s.workers w f hf)

/-- In particular putting jobs on its queue does. -/
theorem spares_enqueue {before : Array (Worker κ ε)} (h : Spares before s.workers w)
    (jobs : List (Job κ)) : Spares before (s.enqueue w jobs).workers w := by
  unfold enqueue
  exact spares_updateWorker h

/-- In an exact system a part finishes without a fault, and the nodes that it makes ready join the
queue of the worker. -/
theorem exists_finishPart (s' : System κ ε) (hs : s.graph.Coherent s.load) (he : s.Exact due) (hn : 0 < s.load n)
    (hgraph : s'.graph = s.graph) (hgrain : s'.grain = s.grain) (w : Nat) :
    ∃ graph jobs, s'.finishPart w n = ({ s' with graph } : System κ ε).enqueue w jobs ∧
      s.graph.Claims graph (jobs.map Job.node) := by
  have hfault := Graph.fault_finishPart he.grain hs he.graph.stocked hn
  have hclaims := Graph.Claims.finishPart (Graph.faithful_handJob s.grain) hs hn hfault
  refine ⟨_, _, ?_, hclaims⟩
  unfold System.finishPart receive
  rw [hgraph, hgrain]
  have hnone : (s.graph.finishPart (Graph.handJob s.grain) n).fault = none := hfault
  rw [hnone]
  rfl

/-- What a worker does when a part finishes on it, just after it took the job or event away. -/
theorem supplies_finishPart (s' : System κ ε) (hs : s.graph.Coherent s.load) (he : s.Exact due) (hn : 0 < s.load n)
    (hgraph : s'.graph = s.graph) (hgrain : s'.grain = s.grain)
    (hw : s'.workers[w]? = some worker) (hqueued : s'.queued = s.queued)
    (hspares : Spares s.workers s'.workers w) :
    (∃ jobs, s.Supplies (s'.finishPart w n) jobs) ∧
      Spares s.workers (s'.finishPart w n).workers w := by
  obtain ⟨graph, jobs, heq, hclaims⟩ := exists_finishPart s' hs he hn hgraph hgrain w
  rw [heq]
  exact ⟨⟨jobs, supplies_enqueue hw hqueued hclaims⟩, spares_enqueue hspares jobs⟩

/-- Ending a run. -/
theorem supplies_conclude (hs : s.graph.Coherent s.load) (he : s.Exact due) (w : Nat) (result : RunResult ε) :
    (∃ jobs, s.Supplies (s.conclude w result) jobs) ∧
      Spares s.workers (s.conclude w result).workers w := by
  unfold conclude
  cases hrunning : s.runningOn w with
  | none => exact ⟨⟨[], .refl s⟩, .refl ..⟩
  | some job =>
    unfold runningOn at hrunning
    cases hw : s.workers[w]? with
    | none => simp [hw] at hrunning
    | some worker =>
      have hjob : worker.running = some job := by simpa [hw] using hrunning
      have hw' := getElem?_updateWorker_self hw ({ · with running := none })
      have hqueued := queued_updateWorker s w (f := ({ · with running := none }))
      have hspares : Spares s.workers (s.updateWorker w ({ · with running := none })).workers w :=
        spares_updateWorker (.refl ..)
      have hn : 0 < s.load job.node := by
        rw [load_rest hw hjob]
        exact Graph.addLoad_pos ..
      cases result with
      | event e =>
        refine ⟨⟨[], .of_same ?_ fun _ => rfl⟩, spares_updateWorker hspares⟩
        exact (queued_updateWorker _ w).trans hqueued
      | finished =>
        exact supplies_finishPart ((s.updateWorker w ({ · with running := none })).count _)
          hs he hn rfl rfl hw' hqueued hspares
      | stopped =>
        exact supplies_finishPart
          (((s.updateWorker w ({ · with running := none })).count _).count _)
          hs he hn rfl rfl hw' hqueued hspares

/-- Seeing an event complete. -/
theorem supplies_settle (hs : s.graph.Coherent s.load) (he : s.Exact due) (w position : Nat) :
    (∃ jobs, s.Supplies (s.settle w position) jobs) ∧
      Spares s.workers (s.settle w position).workers w := by
  unfold settle
  cases hwatched : s.watchedAt w position with
  | none => exact ⟨⟨[], .refl s⟩, .refl ..⟩
  | some entry =>
    unfold watchedAt at hwatched
    cases hw : s.workers[w]? with
    | none => simp [hw] at hwatched
    | some worker =>
      have hentry : worker.watcher.pending[position]? = some entry := by
        simpa [hw] using hwatched
      have hn : 0 < s.load entry.node := by
        rw [load_unwatch hw hentry]
        exact Graph.addLoad_pos ..
      exact supplies_finishPart _ hs he hn rfl rfl (getElem?_updateWorker_self hw _)
        (queued_updateWorker s w) (spares_updateWorker (.refl ..))

/-- In an exact graph a scan meets no fault, and claims the nodes that it hands on. -/
theorem claims_scan {grain : Nat} (hgrain : 0 < grain) (query : ε → Bool × ε) (g : Graph κ)
    (kept rest : List (Watched ε)) (base : NodeId → Nat)
    (hs : g.Coherent fun n => base n + waiting kept n + waiting rest n)
    (he : g.Exact (fun n => base n + waiting kept n + waiting rest n) due) :
    (Watcher.scan query (Graph.handJob grain) g kept rest).handed.fault = none ∧
      g.Claims (Watcher.scan query (Graph.handJob grain) g kept rest).handed.graph
        ((Watcher.scan query (Graph.handJob grain) g kept rest).handed.items.map Job.node) := by
  fun_induction Watcher.scan generalizing base with
  | case1 g kept => exact ⟨rfl, .refl g⟩
  | case2 g kept entry rest event hquery ih =>
    have hsame : (fun n => base n + waiting (kept ++ [⟨event, entry.node⟩]) n + waiting rest n) =
        fun n => base n + waiting kept n + waiting (entry :: rest) n := by
      funext n
      rw [waiting_append, waiting_cons, waiting_cons]
      unfold waiting
      simp only [List.countP_nil]
      omega
    rw [← hsame] at hs he
    exact ih base hs he
  | case3 g kept entry rest event hquery finished fault hfault =>
    have hnone : finished.fault = none :=
      Graph.fault_finishPart hgrain hs he.stocked (waiting_pos base kept rest entry)
    rw [hfault] at hnone
    cases hnone
  | case4 g kept entry rest event hquery finished hfault later ih =>
    have hpos := waiting_pos base kept rest entry
    have hstep : Graph.Step grain g
        (fun n => base n + waiting kept n + waiting (entry :: rest) n) finished.graph _ :=
      .finish hpos hfault
    have hclaims : g.Claims finished.graph (finished.items.map Job.node) :=
      .finishPart (Graph.faithful_handJob grain) hs hpos hfault
    have hs' := hstep.coherent hs
    have he' := hstep.exact hgrain hs he
    have hsame : (fun n => base n + waiting kept n + waiting rest n +
        (finished.items.map Job.node).count n) = fun n =>
          base n + (finished.items.map Job.node).count n + waiting kept n +
            waiting (Watcher.lastFirst rest) n := by
      funext n
      rw [waiting_lastFirst]
      omega
    rw [dropLoad_waiting] at hs' he'
    rw [hsame] at hs' he'
    obtain ⟨hnone, hmore⟩ := ih _ hs' he'
    refine ⟨hnone, ?_⟩
    dsimp only
    rw [List.map_append]
    exact hclaims.trans hmore

/-- In an exact system a poll meets no fault, and the nodes that it makes ready join the queue of the
worker. -/
theorem exists_poll (hs : s.graph.Coherent s.load) (he : s.Exact due) (query : ε → Bool × ε)
    (hw : s.workers[w]? = some worker) : ∃ (watcher : Watcher ε) (graph : Graph κ) (jobs : List (Job κ)),
      s.poll query w =
        ({ s.updateWorker w ({ · with watcher }) with graph } : System κ ε).enqueue w jobs ∧
      s.graph.Claims graph (jobs.map Job.node) := by
  set watch := worker.watcher.poll query (Graph.handJob s.grain) s.graph with hwatch
  obtain ⟨hfault, hclaims⟩ : watch.handed.fault = none ∧
      s.graph.Claims watch.handed.graph (watch.handed.items.map Job.node) := by
    have hsame : s.load = fun n => s.load n - waiting worker.watcher.pending n +
        waiting ([] : List (Watched ε)) n + waiting worker.watcher.pending n := by
      funext n
      have hle := worker_load_le hw n
      unfold Worker.load at hle
      unfold waiting
      simp only [List.countP_nil]
      omega
    have he' := he.graph
    rw [hsame] at hs he'
    have hscan := claims_scan he.grain query s.graph [] worker.watcher.pending _ hs he'
    rw [hwatch]
    unfold Watcher.poll
    split
    · exact ⟨rfl, .refl _⟩
    · split
      · exact ⟨rfl, .refl _⟩
      · dsimp only
        rw [hscan.1]
        exact hscan
  refine ⟨watch.watcher, watch.handed.graph, watch.handed.items, ?_, hclaims⟩
  unfold poll
  rw [hw]
  dsimp only
  rw [← hwatch]
  unfold receive
  rw [hfault]
  rfl

/-- Polling. -/
theorem supplies_poll (hs : s.graph.Coherent s.load) (he : s.Exact due) (query : ε → Bool × ε)
    (w : Nat) : (∃ jobs, s.Supplies (s.poll query w) jobs) ∧
      Spares s.workers (s.poll query w).workers w := by
  cases hw : s.workers[w]? with
  | none =>
    unfold poll
    rw [hw]
    exact ⟨⟨[], .refl s⟩, .refl ..⟩
  | some worker =>
    obtain ⟨watcher, graph, jobs, heq, hclaims⟩ := exists_poll hs he query hw
    rw [heq]
    refine ⟨⟨_, supplies_enqueue (getElem?_updateWorker_self hw _) (queued_updateWorker s w)
      hclaims⟩, ?_⟩
    exact spares_enqueue (spares_updateWorker (.refl ..)) _

end System

end HazardFlow
