import HazardFlow.Proofs.Plant.Keeping
import HazardFlow.Proofs.Schedule.Conserving

/-!
# No job is lost or made up

Whatever builders and workers do, and however often the system is stopped, there are as many jobs that
are queued, being run, counted as run, or counted as dropped as nodes were claimed and jobs were split.
The statistics count the runs that ended and those of them that stopped with a fault. In a system that
was not stopped and has done all that was submitted, there was one run for each node and for each split.
-/

namespace HazardFlow

variable {κ ε : Type}

/-- The number of nodes that were submitted. -/
def Graph.armedCount (g : Graph κ) : Nat := ((List.range g.nodes.size).filter g.isArmed).length

/-- Builders and submissions conserve jobs. -/
theorem Yard.Supplies.conserves {s s' : Yard κ ε} {made : List (Job κ)} (h : s.Supplies s' made) :
    s.system.Conserves s'.system [] [] := by
  have hsupplies : s.system.Supplies s'.system made := by
    refine ⟨?_, h.claims⟩
    unfold System.queued
    rw [h.waiting, h.workers, List.append_assoc]
    exact List.perm_append_comm_assoc ..
  have hunderWay : s'.system.underWay = s.system.underWay := by
    unfold System.underWay
    rw [h.workers]
  exact .of_supplies hsupplies hunderWay h.stats

/-- So do workers. The runs that they end are counted. -/
theorem Site.conserves_of_worker {s : Site κ ε} {due : List NodeId}
    (hs : s.graph.Coherent s.system.load) (he : s.system.Exact due) {a : Action κ ε} {w : Nat}
    (ha : a.worker? = some w) :
    s.system.Conserves (s.act a).system (a.concluded s.system).toList [] := by
  cases a with
  | take v place position split =>
    simp only [act, take]
    cases hfree : s.system.isFree v with
    | false => exact .refl _
    | true =>
      cases hpick : s.system.pick place position with
      | none => exact .refl _
      | some picked =>
        have htakes := System.takes_pick hpick
        obtain ⟨worker, hw, hrest⟩ := htakes.exists_free hfree
        exact htakes.conserves hw hrest split
  | begin v =>
    simp only [act, begin]
    cases hfree : s.system.isFree v with
    | false => exact .refl _
    | true =>
      cases htake : s.system.takeJob v with
      | none => exact .refl _
      | some taken =>
        obtain ⟨_, hfirst, _⟩ := System.exists_free hfree
        have htakes := System.takes_takeJob hfirst htake
        obtain ⟨worker, hw, hrest⟩ := htakes.exists_free hfree
        have hbegun := htakes.conserves hw hrest
        simp only [if_true, System.begin_eq_beginWith]
        exact hbegun _
  | conclude v result => exact System.conserves_conclude hs he v result
  | settle v position => exact System.conserves_settle hs he v position
  | poll v query => exact System.conserves_poll hs he query v
  | _ => cases ha

namespace Closing

variable {c c' : Closing κ ε} {due : List NodeId}

/-- Workers on their way out conserve jobs. Those that they drop are counted. -/
theorem Does.exists_conserves_leave {w : Nat} (hdoes : Does c (.leave w) c')
    (hs : c.graph.Coherent c.system.load) (he : c.system.Exact due) :
    ∃ dropped, c'.dropped = dropped ++ c.dropped ∧ c.system.Conserves c'.system [] dropped := by
  cases hdoes with
  | keep | notice | left => exact ⟨[], rfl, .refl _⟩
  | settle => exact ⟨[], rfl, System.conserves_settle hs he w 0⟩
  | drained =>
    exact ⟨[], rfl, .of_same rfl (System.queued_updateWorker c.system w)
      (System.underWay_updateWorker c.system w) rfl⟩
  | @drop _ _ job _ _ hw halive _ hqueue =>
    exact ⟨[job], rfl, System.conserves_retireQueue hs he hw halive hqueue⟩

/-- So does whoever stops the system. -/
theorem Does.exists_conserves_close (hdoes : Does c .close c') (h : c.system.Manned c.stand)
    (hs : c.graph.Coherent c.system.load) (he : c.system.Exact due) :
    ∃ dropped, c'.dropped = dropped ++ c.dropped ∧ c.system.Conserves c'.system [] dropped := by
  cases hdoes with
  | keep => exact ⟨[], rfl, .refl _⟩
  | dismiss _ hleft =>
    have heq := h.dismiss_eq
    have hnone : c.system.underWay = [] :=
      List.flatMap_eq_nil_iff.mpr fun worker hmem => by
        rw [(empty_of_isLeft h hleft hmem).1, Option.toList_none]
    have hunderWay : c.system.dismiss.underWay = c.system.underWay := by
      rw [hnone, heq]
      rfl
    have hgraph : c.system.dismiss.graph = c.system.graph := by rw [heq]
    have hstats : c.system.dismiss.stats = c.system.stats := by rw [heq]
    exact ⟨[], rfl, .of_same (congrArg Graph.claimedCount hgraph) (queued_dismiss h hleft) hunderWay
      hstats⟩
  | @retire _ job _ _ hwaiting =>
    exact ⟨[job], rfl, System.conserves_retireInbox hs he hwaiting⟩
  | finish _ _ hsystem =>
    rcases hsystem with rfl | rfl <;> exact ⟨[], rfl, .of_same rfl rfl rfl rfl⟩

end Closing

namespace Plant

variable {p p' : Plant κ ε}

/-- As many jobs found a place as came up, and those that were run or dropped were counted. -/
structure Balanced (p : Plant κ ε) : Prop where
  balance : p.system.made = p.system.placed
  executed : p.system.stats.executed = p.ended.length
  faulted : p.system.stats.faulted = p.ended.countP (·.2.isStopped)
  retired : p.system.stats.retired = p.dropped.length

namespace Balanced

/-- Jobs are conserved. -/
theorem of_conserves (h : p.Balanced) {ended : List (Job κ × RunResult ε)} {dropped : List (Job κ)}
    (hconserves : p.system.Conserves p'.system ended dropped) (hended : p'.ended = ended ++ p.ended)
    (hdropped : p'.dropped = dropped ++ p.dropped) : p'.Balanced where
  balance := by
    have hbefore := h.balance
    have hmove := hconserves.balance
    omega
  executed := by
    rw [hconserves.executed, h.executed, hended, List.length_append, Nat.add_comm]
  faulted := by
    rw [hconserves.faulted, h.faulted, hended, List.countP_append, Nat.add_comm]
  retired := by
    rw [hconserves.retired, h.retired, hdropped, List.length_append, Nat.add_comm]

/-- Whatever move is made. -/
theorem does (h : p.Balanced) (hkept : p.Kept) {move : Move κ ε} (hdoes : Does p move p') :
    p'.Balanced := by
  cases hdoes with
  | keep => exact h
  | @build move _ hmove =>
    obtain ⟨_, hsupplies⟩ :=
      hkept.exact.exists_supplies hkept.orderly (hkept.orderly.does_act move) hmove
    exact h.of_conserves hsupplies.conserves rfl rfl
  | work ha _ _ =>
    exact h.of_conserves (Site.conserves_of_worker (s := { system := p.system }) hkept.coherent
      hkept.system ha) rfl rfl
  | skip | stop => exact ⟨h.balance, h.executed, h.faulted, h.retired⟩
  | leave _ hdoes =>
    obtain ⟨dropped, hdropped, hconserves⟩ :=
      hdoes.exists_conserves_leave hkept.coherent hkept.system
    exact h.of_conserves hconserves rfl hdropped
  | close hdoes =>
    obtain ⟨dropped, hdropped, hconserves⟩ :=
      hdoes.exists_conserves_close hkept.manned hkept.coherent hkept.system
    exact h.of_conserves hconserves rfl hdropped

/-- There are no jobs at the start. -/
theorem start (tracker : Tracker) (workers grain cap : Nat) :
    (start tracker workers grain cap : Plant κ ε).Balanced := by
  refine ⟨?_, rfl, rfl, rfl⟩
  simp [Plant.start, System.start, System.made, System.placed, System.queued, System.underWay,
    Graph.claimedCount]

end Balanced

/-- When all that was submitted is done, exactly the nodes that were submitted were claimed, and no job
is left. -/
theorem Kept.drained (h : p.Kept)
    (hdone : ∀ b : Nat, b < p.graph.batches.size → (p.graph.batch b).armed = true →
      (p.graph.batch b).done = true) :
    p.graph.claimedCount = p.graph.armedCount ∧ p.system.queued = [] ∧ p.system.underWay = [] := by
  have hcomplete (n : Nat) (hn : n < p.graph.nodes.size) (harmed : p.graph.isArmed n = true) :
      (p.graph.node n).claimed = true ∧ p.system.load n = 0 := by
    rw [← load_yard]
    refine (h.exact.isComplete_iff h.orderly n).mp ?_
    have hb := h.coherent.batch_lt n hn
    exact ((h.exact.done_iff hb).mp (hdone _ hb harmed)).2 n hn rfl
  have hload (n : NodeId) : p.system.load n = 0 := by
    cases hclaimed : (p.graph.node n).claimed with
    | true => exact (hcomplete n (Graph.lt_size_of_claimed hclaimed) (h.coherent.armed n hclaimed)).2
    | false => exact (h.coherent.of_not_claimed hclaimed).1
  refine ⟨?_, System.eq_nil_of_load hload⟩
  unfold Graph.claimedCount Graph.armedCount
  rw [List.filter_congr fun n hn => ?_]
  rw [Bool.eq_iff_iff]
  exact ⟨h.coherent.armed n, fun harmed => (hcomplete n (List.mem_range.mp hn) harmed).1⟩

/-- What becomes of jobs. -/
structure ConservesJobs (p : Plant κ ε) : Prop where
  /-- There is one job for each node that was claimed, and one for each time that a job was split. -/
  jobs : p.graph.claimedCount + p.system.stats.splits =
    p.system.queued.length + p.system.underWay.length + p.system.stats.executed +
      p.system.stats.retired
  /-- Every run is counted. -/
  executed : p.system.stats.executed = p.ended.length
  /-- Every run that stopped with a fault is counted once more. -/
  faulted : p.system.stats.faulted = p.ended.countP (·.2.isStopped)
  faulted_le : p.system.stats.faulted ≤ p.system.stats.executed
  /-- Every job that is dropped is counted. -/
  retired : p.system.stats.retired = p.dropped.length
  /-- Unless the system was told to stop, all of the jobs were run when all that was submitted is
  done. -/
  drained : p.course = .serving →
    (∀ b : Nat, b < p.graph.batches.size → (p.graph.batch b).armed = true →
      (p.graph.batch b).done = true) →
      p.system.stats.executed = p.graph.armedCount + p.system.stats.splits

/-- However builders, submissions and workers take turns, and however often the system is stopped, jobs
are conserved. No system is set up with a grain of zero (`Settings.validate`). -/
theorem conservesJobs_run {tracker : Tracker} {count grain : Nat}
    (htracker : Tracker.create count = .ok tracker) (hgrain : 0 < grain) (workers cap : Nat)
    {moves : List (Move κ ε)} (hordered : ∀ move ∈ moves, move.Ordered) :
    ((start tracker workers grain cap : Plant κ ε).run moves).ConservesJobs := by
  obtain ⟨hkept, hbalanced⟩ := (Kept.start htracker hgrain workers cap).run
    (fun p : Plant κ ε => p.Balanced) hordered (.start tracker workers grain cap)
    fun _ _ _ hkept hbalanced _ hdoes => hbalanced.does hkept hdoes
  set p := (start tracker workers grain cap : Plant κ ε).run moves
  refine ⟨hbalanced.balance, hbalanced.executed, hbalanced.faulted, ?_, hbalanced.retired,
    fun hserving hdone => ?_⟩
  · rw [hbalanced.faulted, hbalanced.executed]
    exact List.countP_le_length
  · obtain ⟨hclaimed, hqueued, hunderWay⟩ := hkept.drained hdone
    have hbalance := hbalanced.balance
    have hretired := hbalanced.retired
    have hdropped := hkept.course
    rw [hserving] at hdropped
    rw [show _ = [] from hdropped, List.length_nil] at hretired
    unfold System.made System.placed at hbalance
    rw [hqueued, hunderWay, hretired, List.length_nil] at hbalance
    have hclaims : p.system.graph.claimedCount = p.graph.armedCount := hclaimed
    omega

/-- A range of eight is split in two and one half of it once more, by a worker that stole it. Another
node stops with a fault, and a third one waits for both. -/
def allRun : List (Move Unit Unit) :=
  [.build .newBuilder, .build (.add 0 (.range ⟨0, 8⟩ ()) none), .build (.add 0 (.host ()) none),
    .build (.add 0 (.host ()) none), .build (.wire 2 (.edge 0)), .build (.wire 2 (.edge 1)),
    .build (.execute 0), .build (.dispatch 0), .work (.take 0 .inbox 0 true), .build (.dispatch 0),
    .build (.dispatch 0), .build (.close 0), .work (.take 1 .inbox 0 false),
    .work (.conclude 1 .stopped), .work (.begin 1), .work (.conclude 1 (.event ())),
    .work (.poll 1 fun e => (true, e)), .work (.begin 1), .work (.conclude 1 .finished),
    .work (.conclude 0 .finished), .work (.begin 0), .work (.conclude 0 .finished)]

/-- The system is stopped while a node is queued, and another one is submitted afterwards. Then it is
stopped once more. -/
def usedAgain : List (Move Unit Unit) :=
  allRun ++ [.build (.add 0 (.host ()) none), .build (.execute 0), .build (.dispatch 1),
    .build (.close 1), .build (.drop 0), .stop, .leave 0, .leave 0, .leave 0, .leave 1, .leave 1,
    .leave 1, .close, .close, .close, .build .newBuilder, .build (.add 1 (.host ()) none),
    .build (.execute 1), .build (.dispatch 2), .build (.close 2), .build (.drop 1), .stop]

/-- All five jobs of these nodes were run before the system was stopped. Of the jobs submitted later,
one was dropped, and one is queued. -/
theorem conservesJobs_usedAgain :
    ((start { shards := #[{}] } 2 2 0).run allRun).system.stats.executed =
      ((start { shards := #[{}] } 2 2 0).run allRun).graph.armedCount +
        ((start { shards := #[{}] } 2 2 0).run allRun).system.stats.splits ∧
    ConservesJobs ((start { shards := #[{}] } 2 2 0).run usedAgain) ∧
    ((start { shards := #[{}] } 2 2 0).run usedAgain).system.stats =
      { executed := 5, steals := 1, splits := 2, faulted := 1, retired := 1 } ∧
    ((start { shards := #[{}] } 2 2 0).run usedAgain).graph.claimedCount = 5 ∧
    ((start { shards := #[{}] } 2 2 0).run usedAgain).system.queued.length = 1 := by
  have htracker : Tracker.create 1 = .ok { shards := #[{}] } := rfl
  have hall : ∀ move ∈ allRun, move.Ordered := by
    simp [allRun, Move.Ordered, HazardFlow.Move.Ordered, Work.Ordered]
  have hagain : ∀ move ∈ usedAgain, move.Ordered := by
    simp [usedAgain, allRun, Move.Ordered, HazardFlow.Move.Ordered, Work.Ordered]
  refine ⟨?_, conservesJobs_run htracker Nat.two_pos 2 0 hagain, by decide +kernel,
    by decide +kernel, by decide +kernel⟩
  exact (conservesJobs_run htracker Nat.two_pos 2 0 hall).drained (by decide +kernel)
    (by decide +kernel)

end Plant

end HazardFlow
