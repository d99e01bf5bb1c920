import HazardFlow.Proofs.Closing.Keeping
import HazardFlow.Proofs.Closing.Stepwise

/-!
# Everybody leaves in the end

Every step of a worker on its way out uses up an event that it watches, or a job, where the jobs that
come up stand for nodes that nobody had claimed. So each worker leaves after finitely many steps, and
these make of the system what leaving at once makes of it. The same goes for the inbox. Whatever a
system has come to since it was told to stop, it can therefore go on to the end.
-/

namespace HazardFlow.Closing

variable {κ ε : Type} {c c' : Closing κ ε} {w : Nat} {worker : Worker κ ε}

/-- Two runs, one after the other. -/
theorem run_append (c : Closing κ ε) (moves more : List (Move κ ε)) :
    c.run (moves ++ more) = (c.run moves).run more := List.foldl_append ..

/-- A move made so many times, and then so many times more. -/
theorem run_replicate_add {move : Move κ ε} {k l : Nat} {c'' : Closing κ ε}
    (h : c.run (List.replicate k move) = c') (h' : c'.run (List.replicate l move) = c'') :
    c.run (List.replicate (k + l) move) = c'' := by
  rw [List.replicate_add, run_append, h, h']

/-- Making a move once. -/
theorem run_replicate_one {move : Move κ ε} (h : c.step move = c') :
    c.run (List.replicate 1 move) = c' := h

/-- How far a worker has come last is what counts. -/
theorem setStand_setStand (c : Closing κ ε) (w : Nat) (stand stand' : Stand) :
    (c.setStand w stand).setStand w stand' = c.setStand w stand' := by
  have hstand : ((c.setStand w stand).setStand w stand').stand = (c.setStand w stand').stand := by
    funext v
    by_cases hv : v = w
    · exact (if_pos hv).trans (if_pos hv).symm
    · exact (if_neg hv).trans ((if_neg hv).trans (if_neg hv).symm)
  exact congrArg (fun stand => ({ c with stand } : Closing κ ε)) hstand

namespace Kept

/-- What a worker does next on its way out, as none has died. -/
theorem leave_eq (h : c.Kept) (hcourse : c.course = .stopping)
    (hw : c.system.workers[w]? = some worker) : c.step (.leave w) =
      match c.stand w with
      | .working => if worker.running.isNone then c.setStand w .draining else c
      | .draining =>
        if worker.watcher.pending.isEmpty then
          (c.setSystem (c.system.updateWorker w Worker.resetBackoff)).setStand w .dropping
        else c.setSystem (c.system.settle w 0)
      | .dropping =>
        match worker.queue with
        | [] => c.setStand w .left
        | job :: _ =>
          { c.setSystem (c.system.retireQueue w 1) with dropped := job :: c.dropped }
      | .left => c := by
  have hstep : c.step (.leave w) = c.leave w := if_pos hcourse
  have halive : ¬ worker.dead = true := by
    rw [h.manned.alive w worker hw]
    exact Bool.false_ne_true
  rw [hstep]
  unfold leave
  rw [hw]
  exact if_neg halive

/-- A worker without jobs has dropped all of them. -/
theorem exists_dropped_of_nil (h : c.Kept) (hcourse : c.course = .stopping)
    (hw : c.system.workers[w]? = some worker) (hstand : c.stand w = .dropping)
    (hqueue : worker.queue = []) (bound : Nat) :
    ∃ k dropped, c.run (List.replicate k (.leave w)) =
      { (c.setSystem (c.system.retireQueue w bound)).setStand w .left with dropped } := by
  have hleave := h.leave_eq hcourse hw
  simp only [hstand, hqueue] at hleave
  refine ⟨1, c.dropped, ?_⟩
  rw [run_replicate_one hleave, System.retireQueue_of_nil hw hqueue]
  rfl

/-- A worker that drops its jobs one by one makes of the system what dropping them at once makes of
it, if there is room for all of its jobs and for all nodes that nobody has claimed. -/
theorem exists_dropped (h : c.Kept) (hcourse : c.course = .stopping)
    (hw : c.system.workers[w]? = some worker) (hstand : c.stand w = .dropping) {bound : Nat}
    (hbound : worker.queue.length + c.graph.unclaimed ≤ bound) :
    ∃ k dropped, c.run (List.replicate k (.leave w)) =
      { (c.setSystem (c.system.retireQueue w bound)).setStand w .left with dropped } := by
  induction bound generalizing c worker with
  | zero =>
    exact h.exists_dropped_of_nil hcourse hw hstand (List.eq_nil_of_length_eq_zero (by omega)) 0
  | succ bound ih =>
    cases hqueue : worker.queue with
    | nil => exact h.exists_dropped_of_nil hcourse hw hstand hqueue (bound + 1)
    | cons job rest =>
      have halive := h.manned.alive w worker hw
      have hleave := h.leave_eq hcourse hw
      simp only [hstand, hqueue] at hleave
      obtain ⟨graph, jobs, _, _, _, hretire, hw', hclaims⟩ :=
        System.exists_retire h.sound.system.coherent h.exact.system hw halive hqueue
      set retired : Closing κ ε :=
        { c.setSystem (c.system.retireQueue w 1) with dropped := job :: c.dropped } with hretired
      have hgraph : retired.graph = graph := congrArg System.graph hretire
      have hsteady := ((System.goes_retire hw halive hqueue).steps.coherent_steady
        h.sound.system.coherent).2
      have hcount : graph.unclaimed + (jobs.map Job.node).length = c.graph.unclaimed :=
        hclaims.unclaimed (hgraph ▸ hsteady.size)
      have hbound' : (jobs.reverse ++ rest).length + retired.graph.unclaimed ≤ bound := by
        rw [hqueue, List.length_cons] at hbound
        rw [List.length_map] at hcount
        rw [hgraph, List.length_append, List.length_reverse]
        omega
      obtain ⟨k, dropped, hrun⟩ :=
        ih (h.drop hcourse hw halive hstand hqueue) hcourse hw' hstand hbound'
      refine ⟨1 + k, dropped, ?_⟩
      rw [run_replicate_add (run_replicate_one hleave) hrun,
        System.retireQueue_succ c.system w bound]
      rfl

/-- A worker that waits for its events one by one makes of the system what waiting for them at once
makes of it. -/
theorem exists_drained (h : c.Kept) (hcourse : c.course = .stopping)
    (hw : c.system.workers[w]? = some worker) (hstand : c.stand w = .draining) :
    ∃ k, c.run (List.replicate k (.leave w)) =
      (c.setSystem (c.system.drain w)).setStand w .dropping := by
  induction hpending : worker.watcher.pending generalizing c worker with
  | nil =>
    have hleave := h.leave_eq hcourse hw
    simp only [hstand, hpending, List.isEmpty_nil, if_true] at hleave
    refine ⟨1, ?_⟩
    rw [run_replicate_one hleave, System.drain_of_idle hw hpending]
  | cons entry rest ih =>
    have hleave := h.leave_eq hcourse hw
    simp only [hstand, hpending, List.isEmpty_cons, Bool.false_eq_true, if_false] at hleave
    obtain ⟨_, jobs, _, hw', _⟩ := System.exists_settle h.sound.system.coherent h.exact.system hw hpending
    have hrest : (worker.unwatch 0).watcher.pending = rest := by
      unfold Worker.unwatch
      rw [hpending]
      rfl
    obtain ⟨k, hrun⟩ := ih (h.settle hcourse hw hstand hpending) hcourse hw' hstand hrest
    refine ⟨1 + k, ?_⟩
    rw [run_replicate_add (run_replicate_one hleave) hrun, System.drain_of_pending hw hpending
      (System.fault_of_pending h.sound.system h.exact.system hw hpending)]
    rfl

/-- A worker that has noticed makes of the system what leaving at once makes of it. -/
theorem exists_left_of_draining (h : c.Kept) (hcourse : c.course = .stopping)
    (hw : c.system.workers[w]? = some worker) (hstand : c.stand w = .draining) :
    ∃ k dropped, c.run (List.replicate k (.leave w)) =
      { (c.setSystem (c.system.leave w)).setStand w .left with dropped } := by
  obtain ⟨k, hdrained⟩ := h.exists_drained hcourse hw hstand
  have hmoves : ∀ move ∈ List.replicate k (Move.leave w : Move κ ε), move.Ordered :=
    fun move hmove => by
      rw [List.eq_of_mem_replicate hmove]
      trivial
  have hkept := h.run hmoves
  rw [hdrained] at hkept
  set drained := (c.setSystem (c.system.drain w)).setStand w .dropping with hdef
  have hlt : w < drained.system.workers.size := by
    change w < (c.system.drain w).workers.size
    rw [System.size_workers_drain]
    exact (Array.getElem?_eq_some_iff.mp hw).1
  have hw' : drained.system.workers[w]? = some drained.system.workers[w] :=
    Array.getElem?_eq_getElem hlt
  have hbound : drained.system.workers[w].queue.length + drained.graph.unclaimed ≤
      drained.system.jobBound w := by
    unfold System.jobBound
    rw [hw']
    exact Nat.add_le_add_left drained.graph.unclaimed_le _
  obtain ⟨l, dropped, hdropped⟩ :=
    hkept.exists_dropped hcourse hw' (setStand_self .dropping) hbound
  refine ⟨k + l, dropped, ?_⟩
  have hsame : drained.setSystem (drained.system.retireQueue w (drained.system.jobBound w)) =
      (c.setSystem (c.system.leave w)).setStand w .dropping := rfl
  rw [run_replicate_add hdrained hdropped, hsame, setStand_setStand]

end Kept

/-- Some moves let a worker leave, whatever the others have come to. -/
def CanLeave (c : Closing κ ε) (w : Nat) : Prop :=
  ∃ moves, (∀ move ∈ moves, move.Ordered) ∧ (c.run moves).course = .stopping ∧
    (c.run moves).system.workers.size = c.system.workers.size ∧ (c.run moves).stand w = .left ∧
      ∀ v : Nat, v ≠ w → (c.run moves).stand v = c.stand v

/-- A worker can leave if it can do so after some moves. -/
theorem CanLeave.of_run (moves : List (Move κ ε)) (hmoves : ∀ move ∈ moves, move.Ordered)
    (h : (c.run moves).CanLeave w)
    (hsize : (c.run moves).system.workers.size = c.system.workers.size)
    (hothers : ∀ v : Nat, v ≠ w → (c.run moves).stand v = c.stand v) : c.CanLeave w := by
  obtain ⟨more, hmore, hcourse, hsize', hleft, hothers'⟩ := h
  refine ⟨moves ++ more, fun move hmove => ?_, ?_⟩
  · rcases List.mem_append.mp hmove with hfirst | hlater
    · exact hmoves move hfirst
    · exact hmore move hlater
  · rw [run_append]
    exact ⟨hcourse, hsize'.trans hsize, hleft,
      fun v hv => (hothers' v hv).trans (hothers v hv)⟩

/-- Steps of a worker on its way out may be made at any time. -/
theorem ordered_leaves (k w : Nat) :
    ∀ move ∈ List.replicate k (Move.leave w : Move κ ε), move.Ordered := fun move hmove => by
  rw [List.eq_of_mem_replicate hmove]
  trivial

namespace Kept

/-- A worker can leave wherever it is on its way out. -/
theorem canLeave_of_noticed (h : c.Kept) (hcourse : c.course = .stopping)
    (hw : c.system.workers[w]? = some worker) (hnoticed : c.stand w ≠ .working) :
    c.CanLeave w := by
  cases hstand : c.stand w with
  | working => exact absurd hstand hnoticed
  | draining =>
    obtain ⟨k, dropped, hrun⟩ := h.exists_left_of_draining hcourse hw hstand
    refine ⟨_, ordered_leaves k w, ?_⟩
    rw [hrun]
    refine ⟨hcourse, ?_, setStand_self _, fun v hv => setStand_of_ne hv⟩
    exact (System.size_workers_retireQueue ..).trans (System.size_workers_drain ..)
  | dropping =>
    obtain ⟨k, dropped, hrun⟩ := h.exists_dropped hcourse hw hstand (Nat.le_refl _)
    refine ⟨_, ordered_leaves k w, ?_⟩
    rw [hrun]
    exact ⟨hcourse, System.size_workers_retireQueue .., setStand_self _,
      fun v hv => setStand_of_ne hv⟩
  | left => exact ⟨[], fun _ hmove => absurd hmove List.not_mem_nil, hcourse, rfl, hstand,
      fun _ _ => rfl⟩

/-- So can one that runs nothing. -/
theorem canLeave_of_resting (h : c.Kept) (hcourse : c.course = .stopping)
    (hw : c.system.workers[w]? = some worker) (hrest : worker.running = none) : c.CanLeave w := by
  by_cases hstand : c.stand w = .working
  · have hleave := h.leave_eq hcourse hw
    simp only [hstand, hrest, Option.isNone_none, if_true] at hleave
    have hnoticed : c.run [.leave w] = c.setStand w .draining := hleave
    have hkept : (c.setStand w .draining).Kept :=
      h.of_leave (.notice hcourse hw hstand hrest) hcourse hcourse rfl h.accounts
    refine .of_run _ (ordered_leaves 1 w) ?_ ?_ ?_
    · change (c.run [.leave w]).CanLeave w
      rw [hnoticed]
      refine hkept.canLeave_of_noticed hcourse hw ?_
      rw [setStand_self]
      exact Stand.noConfusion
    · change (c.run [.leave w]).system.workers.size = _
      rw [hnoticed]
      rfl
    · intro v hv
      change (c.run [.leave w]).stand v = _
      rw [hnoticed]
      exact setStand_of_ne hv
  · exact h.canLeave_of_noticed hcourse hw hstand

/-- So can one that runs a job, once it has ended it. -/
theorem canLeave (h : c.Kept) (hcourse : c.course = .stopping)
    (hw : c.system.workers[w]? = some worker) : c.CanLeave w := by
  cases hrunning : worker.running with
  | none => exact h.canLeave_of_resting hcourse hw hrunning
  | some job =>
    by_cases hstand : c.stand w = .working
    · have hmay : c.mayAct (.conclude w .finished) = true := by
        simp [mayAct, Action.worker?, hcourse, hstand]
      have hrun : c.run [.act (.conclude w .finished)] = c.act (.conclude w .finished) := if_pos hmay
      have hact : c.act (.conclude w .finished) = c.setSystem (c.system.conclude w .finished) :=
        act_of_none rfl
      have hkept := h.act (a := .conclude w .finished) trivial hmay
      obtain ⟨worker', hw', hrest⟩ := System.exists_resting_conclude hw hrunning
      refine .of_run [.act (.conclude w .finished)]
        (fun move hmove => by rw [List.mem_singleton.mp hmove]; trivial) ?_ ?_ ?_
      · rw [hrun]
        rw [hact] at hkept ⊢
        exact hkept.canLeave_of_resting hcourse hw' hrest
      · rw [hrun, hact]
        exact (System.supplies_conclude h.sound.system.coherent h.exact.system w .finished).2.size
      · intro v _
        rw [hrun, hact]
        rfl
    · exact h.canLeave_of_noticed hcourse hw hstand

/-- All workers can leave, one after the other. -/
theorem exists_allLeft (h : c.Kept) (hcourse : c.course = .stopping) {count : Nat}
    (hcount : count ≤ c.system.workers.size) :
    ∃ moves, (∀ move ∈ moves, move.Ordered) ∧ (c.run moves).course = .stopping ∧
      (c.run moves).system.workers.size = c.system.workers.size ∧
      ∀ v : Nat, v < count → (c.run moves).stand v = .left := by
  induction count with
  | zero =>
    exact ⟨[], fun _ hmove => absurd hmove List.not_mem_nil, hcourse, rfl,
      fun v hv => absurd hv (Nat.not_lt_zero v)⟩
  | succ count ih =>
    obtain ⟨moves, hmoves, hcourse', hsize, hleft⟩ := ih (Nat.le_of_succ_le hcount)
    have hlt : count < (c.run moves).system.workers.size := by omega
    obtain ⟨more, hmore, hstopping, hsame, hself, hothers⟩ :=
      (h.run hmoves).canLeave hcourse' (Array.getElem?_eq_getElem hlt)
    refine ⟨moves ++ more, fun move hmove => ?_, ?_⟩
    · rcases List.mem_append.mp hmove with hfirst | hlater
      · exact hmoves move hfirst
      · exact hmore move hlater
    · rw [run_append]
      refine ⟨hstopping, hsame.trans hsize, fun v hv => ?_⟩
      by_cases hlast : v = count
      · rw [hlast, hself]
      · rw [hothers v hlast, hleft v (by omega)]

/-- An empty inbox has been emptied. -/
theorem exists_emptied_of_nil {retired : Nat} (hcourse : c.course = .emptying retired)
    (hwaiting : c.system.inbox.waiting = []) (bound : Nat) :
    ∃ k dropped system more, c.system.retireInbox bound = .pure system more ∧
      c.run (List.replicate k .close) =
        { c.setSystem (system.reportStop (retired + more)) with course := .stopped, dropped } := by
  refine ⟨1, c.dropped, c.system, 0, System.retireInbox_of_nil hwaiting bound, ?_⟩
  have hclose : c.step .close = c.close := rfl
  rw [close, hcourse] at hclose
  simp only [hwaiting] at hclose
  exact run_replicate_one hclose

/-- Whoever empties the inbox job by job makes of the system what emptying it at once makes of it, if
there is room for all of its jobs and for all nodes that nobody has claimed. -/
theorem exists_emptied (h : c.Kept) {retired : Nat} (hcourse : c.course = .emptying retired)
    {bound : Nat} (hbound : c.system.inbox.waiting.length + c.graph.unclaimed ≤ bound) :
    ∃ k dropped system more, c.system.retireInbox bound = .pure system more ∧
      c.run (List.replicate k .close) =
        { c.setSystem (system.reportStop (retired + more)) with course := .stopped, dropped } := by
  induction bound generalizing c retired with
  | zero =>
    exact exists_emptied_of_nil hcourse (List.eq_nil_of_length_eq_zero (by omega)) 0
  | succ bound ih =>
    cases hwaiting : c.system.inbox.waiting with
    | nil => exact exists_emptied_of_nil hcourse hwaiting (bound + 1)
    | cons job rest =>
      obtain ⟨graph, jobs, hretire, hgoes, hclaims⟩ :=
        System.exists_retireInbox h.sound.system.coherent h.exact.system hwaiting
      have hresult : (c.system.retireInbox 1).result = .ok 1 := congrArg Outcome.result hretire
      have hkept := h.retire hcourse hwaiting
      have hclose : c.step .close = c.close := rfl
      rw [close, hcourse] at hclose
      simp only [hwaiting, hresult] at hclose hkept
      set next : Closing κ ε :=
        { c.setSystem (c.system.retireInbox 1).state with
          course := .emptying (retired + 1), dropped := job :: c.dropped } with hnext
      have hgraph : next.graph = graph := congrArg (fun o => System.graph (Outcome.state o)) hretire
      have hleft : next.system.inbox.waiting = rest ++ jobs :=
        congrArg (fun o => (System.inbox (Outcome.state o)).waiting) hretire
      have hsteady := (hgoes.steps.coherent_steady h.sound.system.coherent).2
      have hcount : graph.unclaimed + (jobs.map Job.node).length = c.graph.unclaimed :=
        hclaims.unclaimed (hgraph ▸ hsteady.size)
      have hbound' : next.system.inbox.waiting.length + next.graph.unclaimed ≤ bound := by
        rw [hwaiting, List.length_cons] at hbound
        rw [List.length_map] at hcount
        rw [hleft, hgraph, List.length_append]
        omega
      obtain ⟨k, dropped, system, more, hmore, hrun⟩ := ih hkept rfl hbound'
      refine ⟨1 + k, dropped, system, more + 1, ?_, ?_⟩
      · rw [System.retireInbox_succ hresult]
        change (next.system.retireInbox bound).map (· + 1) = _
        rw [hmore, Outcome.map_pure]
      · rw [run_replicate_add (run_replicate_one hclose) hrun, Nat.add_assoc, Nat.add_comm 1 more]
        rfl

/-- When all workers have left, the system can stop, and makes of itself what stopping at once makes
of it. -/
theorem exists_closed (h : c.Kept) (hcourse : c.course = .stopping) (hleft : c.isLeft = true) :
    ∃ k dropped system, c.system.close = .pure system () ∧
      c.run (List.replicate k .close) =
        { c.setSystem system with course := .stopped, dropped } := by
  have hclose : c.step .close = c.close := rfl
  rw [close, hcourse] at hclose
  simp only [hleft, if_true] at hclose
  have hkept := h.dismiss hcourse hleft
  set empty : Closing κ ε := { c.setSystem c.system.dismiss with course := .emptying 0 } with hempty
  obtain ⟨k, dropped, system, retired, hretired, hrun⟩ := hkept.exists_emptied rfl
    (Nat.add_le_add_left empty.graph.unclaimed_le empty.system.inbox.waiting.length)
  refine ⟨1 + k, dropped, system.reportStop retired, System.close_of_retireInbox hretired, ?_⟩
  rw [run_replicate_add (run_replicate_one hclose) hrun, Nat.zero_add]
  rfl

/-- A system that is to stop can go on to the end, whatever it has come to. -/
theorem exists_stopped (h : c.Kept) (hcourse : c.course ≠ .serving) :
    ∃ moves, (∀ move ∈ moves, move.Ordered) ∧ (c.run moves).course = .stopped := by
  have hordered (k : Nat) : ∀ move ∈ List.replicate k (Move.close : Move κ ε), move.Ordered :=
    fun move hmove => by
      rw [List.eq_of_mem_replicate hmove]
      trivial
  cases hcase : c.course with
  | serving => exact absurd hcase hcourse
  | stopping =>
    obtain ⟨moves, hmoves, hstopping, hsize, hleft⟩ := h.exists_allLeft hcase (Nat.le_refl _)
    have hall : (c.run moves).isLeft = true := by
      apply List.all_eq_true.mpr
      intro w hw
      rw [List.mem_range, hsize] at hw
      simp [hleft w hw]
    obtain ⟨k, dropped, system, _, hrun⟩ := (h.run hmoves).exists_closed hstopping hall
    refine ⟨moves ++ List.replicate k .close, fun move hmove => ?_, ?_⟩
    · rcases List.mem_append.mp hmove with hfirst | hlater
      · exact hmoves move hfirst
      · exact hordered k move hlater
    · rw [run_append, hrun]
  | emptying retired =>
    obtain ⟨k, dropped, system, more, _, hrun⟩ := h.exists_emptied hcase (Nat.le_refl _)
    exact ⟨List.replicate k .close, hordered k, by rw [hrun]⟩
  | stopped => exact ⟨[], fun _ hmove => absurd hmove List.not_mem_nil, hcase⟩
  | failed =>
    have hfits := h.course
    rw [hcase] at hfits
    exact hfits.elim

end Kept

end HazardFlow.Closing
