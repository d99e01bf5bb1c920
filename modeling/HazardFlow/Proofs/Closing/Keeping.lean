import HazardFlow.Proofs.Closing.Accounts
import HazardFlow.Proofs.Closing.Acting
import HazardFlow.Proofs.Closing.Manning

/-!
# What every run of a stopping system keeps

The graph stays exact and all jobs accounted for, and workers and system are as far as they are said to
have come. Jobs that come up late join the queues of workers that have yet to drop theirs, or the inbox
when all of them have left, so that none is left behind.
-/

namespace HazardFlow

variable {κ ε : Type}

/-- The builders hold no nodes. -/
def Site.Built (s : Site κ ε) : Prop :=
  ∀ (i : Nat) (b : Builder), s.builderAt i = some b → b.nodes = []

namespace Closing

variable {c c' : Closing κ ε} {w : Nat} {worker : Worker κ ε}

/-- A move by which only works are added that can be taken. -/
def Move.Ordered : Move κ ε → Prop
  | .act a => a.Ordered
  | _ => True

/-- What holds of a system that has come so far. -/
def Fits (c : Closing κ ε) : Course → Prop
  | .serving => ∀ w : Nat, c.stand w = .working
  | .stopping => c.site.Built
  | .emptying _ => c.site.Built ∧ c.system.workers = #[]
  | .stopped => c.site.Built ∧ c.system.workers = #[] ∧ c.system.inbox.waiting = []
  | .failed => False

/-- The graph is exact, all jobs are accounted for, and workers and system are as far as they have
come. -/
structure Kept (c : Closing κ ε) : Prop where
  sound : c.site.Sound
  exact : c.site.Exact
  accounts : Accounts (c.system.queued ++ c.ended) c.graph c.splits
  manned : c.system.Manned c.stand
  course : c.Fits c.course

namespace Kept

/-- Nothing has happened at the start. -/
theorem start {tracker : Tracker} {count grain : Nat} (htracker : Tracker.create count = .ok tracker)
    (hgrain : 0 < grain) (workers cap : Nat) :
    (start tracker workers grain cap : Closing κ ε).Kept where
  sound := Site.sound_start htracker workers grain cap
  exact := Site.exact_start tracker workers cap hgrain
  accounts := by
    have hqueued : (Closing.start tracker workers grain cap : Closing κ ε).system.queued = [] := by
      simp [Closing.start, system, Site.start, System.start, System.queued]
    rw [hqueued]
    refine ⟨fun job hjob => absurd hjob List.not_mem_nil, List.Pairwise.nil, fun n => ?_⟩
    have hnode : (Closing.start tracker workers grain cap : Closing κ ε).graph.node n = default :=
      Graph.node_of_size_le (Nat.zero_le n)
    rw [hnode]
    rfl
  manned := .start tracker workers grain cap
  course _ := rfl

/-- An action that begins no job. -/
theorem act_of_none {a : Action κ ε} (h : a.begun c.system (c.site.act a).system = none) :
    c.act a = { c with site := c.site.act a } := by
  unfold Closing.act
  dsimp only
  rw [h]

/-- An action that begins a job. -/
theorem act_of_some {a : Action κ ε} {job : Job κ}
    (h : a.begun c.system (c.site.act a).system = some job) : c.act a = { c with
      site := c.site.act a
      begun := job :: c.begun
      splits := if (c.site.act a).system.stats.splits != c.system.stats.splits
        then job.node :: c.splits else c.splits } := by
  unfold Closing.act
  dsimp only
  rw [h]

/-- The jobs of a system that acts stay accounted for. -/
theorem accounts_act (h : c.Kept) {a : Action κ ε} (ha : a.Ordered) :
    Accounts ((c.act a).system.queued ++ (c.act a).ended) (c.act a).graph (c.act a).splits := by
  have hhands := Site.hands_act h.sound h.exact ha
  cases hbegun : a.begun c.system (c.site.act a).system with
  | none =>
    obtain ⟨jobs, hqueued, hclaims⟩ := hhands.supplies hbegun
    rw [act_of_none hbegun]
    refine h.accounts.supplies _ ?_ hclaims
    rw [← List.append_assoc]
    exact hqueued.append_right c.ended
  | some job =>
    obtain ⟨w, hrunning, hbegan⟩ := hhands.began job hbegun
    cases hbegan with
    | whole hrunning' hqueued hgraph hsplits =>
      obtain rfl := Option.some.inj (hrunning.symm.trans hrunning')
      have hnone : ((c.site.act a).system.stats.splits != c.system.stats.splits) = false := by
        rw [hsplits]
        exact bne_self_eq_false _
      rw [act_of_some hbegun, hnone, if_neg Bool.false_ne_true]
      refine h.accounts.move (List.perm_middle.trans (hqueued.append_right c.ended).symm)
        fun n => ?_
      exact congrArg (fun g => (Graph.node g n).claimed) hgraph
    | @half whole piece rest others hrunning' hbefore hafter hsplit hsplits =>
      obtain rfl := Option.some.inj (hrunning.symm.trans hrunning')
      have hsome : ((c.site.act a).system.stats.splits != c.system.stats.splits) = true := by
        rw [hsplits]
        exact bne_iff_ne.mpr (Nat.succ_ne_self _)
      rw [act_of_some hbegun, hsome, if_pos rfl, (Graph.splitJob_spec hsplit).2.2]
      refine h.accounts.split (hbefore.append_right c.ended) ?_ hsplit
      exact (hafter.append_right _).trans (List.perm_middle.cons piece)

/-- Workers do not touch builders. -/
theorem builders_act {a : Action κ ε} (ha : a.worker? = some w) :
    (c.site.act a).builders = c.site.builders := by
  rw [(Site.goes_of_worker ha).2]

/-- The course of a system and the stands of its workers do not depend on what they do. -/
theorem act_eq (c : Closing κ ε) (a : Action κ ε) : (c.act a).site = c.site.act a ∧
    (c.act a).course = c.course ∧ (c.act a).stand = c.stand := by
  unfold Closing.act
  dsimp only
  split <;> exact ⟨rfl, rfl, rfl⟩

/-- What a worker that has not noticed, or a builder, does. -/
theorem act (h : c.Kept) {a : Action κ ε} (ha : a.Ordered) (hmay : c.mayAct a = true) :
    (c.act a).Kept := by
  have hhands := Site.hands_act h.sound h.exact ha
  have hdoes := Site.does_act h.sound a
  have haccounts := h.accounts_act ha
  obtain ⟨hsite, hcourse, hstand⟩ := act_eq c a
  have hsystem : (c.act a).system = (c.site.act a).system := congrArg Site.system hsite
  unfold mayAct at hmay
  cases hworker : a.worker? with
  | none =>
    simp only [hworker, beq_iff_eq] at hmay
    have hworkers : (c.act a).system.workers = c.system.workers :=
      (congrArg System.workers hsystem).trans (hhands.workers hworker)
    have hserving := h.course
    rw [hmay] at hserving
    refine ⟨?_, ?_, haccounts, ?_, ?_⟩
    · rw [hsite]
      exact h.sound.does hdoes
    · rw [hsite]
      exact h.exact.does h.sound hdoes ha
    · rw [hstand]
      exact h.manned.of_same hworkers
    · rw [hcourse, hmay]
      intro w
      rw [hstand]
      exact hserving w
  | some w =>
    simp only [hworker, Bool.and_eq_true, Bool.or_eq_true, beq_iff_eq] at hmay
    obtain ⟨hopen, hstands⟩ := hmay
    have hspares := hhands.spares w hworker
    rw [← hsystem] at hspares
    refine ⟨?_, ?_, haccounts, ?_, ?_⟩
    · rw [hsite]
      exact h.sound.does hdoes
    · rw [hsite]
      exact h.exact.does h.sound hdoes ha
    · rw [hstand]
      exact h.manned.work hspares hstands
    · have hbefore := h.course
      rw [hcourse]
      rcases hopen with hserving | hstopping
      · rw [hserving] at hbefore ⊢
        intro v
        rw [hstand]
        exact hbefore v
      · rw [hstopping] at hbefore ⊢
        intro i b hi
        unfold Site.builderAt at hi
        rw [hsite, builders_act hworker] at hi
        exact hbefore i b hi

/-- A worker that does something on its way out, as long as the jobs stay accounted for. -/
theorem of_leave (h : c.Kept) (hdoes : Does c (.leave w) c') (hcourse : c.course = .stopping)
    (hcourse' : c'.course = .stopping) (hsite : c'.site = { c.site with system := c'.system })
    (haccounts : Accounts (c'.system.queued ++ c'.ended) c'.graph c'.splits) : c'.Kept := by
  obtain ⟨hgoes, hmanned⟩ := hdoes.leaves h.manned h.sound.system.coherent h.exact.system
  refine ⟨?_, ?_, haccounts, hmanned, ?_⟩
  · rw [hsite]
    exact h.sound.of_ran (.of_goes h.sound.system hgoes)
  · rw [hsite]
    exact h.exact.go h.sound hgoes
  · have hbefore := h.course
    rw [hcourse] at hbefore
    rw [hcourse']
    intro i b hi
    rw [hsite] at hi
    exact hbefore i b hi

/-- A worker waits for an event. -/
theorem settle (h : c.Kept) (hcourse : c.course = .stopping)
    (hw : c.system.workers[w]? = some worker) (hstand : c.stand w = .draining)
    {entry : Watched ε} {rest : List (Watched ε)}
    (hpending : worker.watcher.pending = entry :: rest) :
    (c.setSystem (c.system.settle w 0)).Kept := by
  obtain ⟨⟨jobs, hsupplies⟩, _⟩ :=
    System.supplies_settle h.sound.system.coherent h.exact.system w 0
  refine h.of_leave (.settle hcourse hw hstand hpending) hcourse hcourse rfl
    (h.accounts.supplies _ ?_ hsupplies.claims)
  rw [← List.append_assoc]
  exact hsupplies.queued.append_right c.ended

/-- A worker no longer waits. -/
theorem drained (h : c.Kept) (hcourse : c.course = .stopping)
    (hw : c.system.workers[w]? = some worker) (hstand : c.stand w = .draining)
    (hpending : worker.watcher.pending = []) :
    ((c.setSystem (c.system.updateWorker w Worker.resetBackoff)).setStand w .dropping).Kept := by
  have hqueued : (c.system.updateWorker w Worker.resetBackoff).queued = c.system.queued :=
    System.queued_updateWorker c.system w
  exact h.of_leave (.drained hcourse hw hstand hpending) hcourse hcourse rfl
    (h.accounts.move (.append_right _ (.of_eq hqueued)) fun _ => rfl)

/-- A worker drops a job. -/
theorem drop (h : c.Kept) (hcourse : c.course = .stopping)
    (hw : c.system.workers[w]? = some worker) (halive : worker.dead = false)
    (hstand : c.stand w = .dropping) {job : Job κ} {rest : List (Job κ)}
    (hqueue : worker.queue = job :: rest) :
    Kept { c.setSystem (c.system.retireQueue w 1) with dropped := job :: c.dropped } := by
  obtain ⟨graph, jobs, others, hbefore, hafter, hretire, _, hclaims⟩ :=
    System.exists_retire h.sound.system.coherent h.exact.system hw halive hqueue
  have hgraph : (c.system.retireQueue w 1).graph = graph := congrArg System.graph hretire
  refine h.of_leave (.drop hcourse hw halive hstand hqueue) hcourse hcourse rfl
    (h.accounts.supplies jobs ?_ ?_)
  · change ((c.system.retireQueue w 1).queued ++ (c.begun ++ job :: c.dropped)).Perm
      (jobs ++ (c.system.queued ++ (c.begun ++ c.dropped)))
    have hdropped : (c.begun ++ job :: c.dropped).Perm (job :: (c.begun ++ c.dropped)) :=
      List.perm_middle
    refine (hafter.append hdropped).trans ?_
    rw [List.append_assoc]
    refine List.Perm.append_left jobs ?_
    exact List.perm_middle.trans (hbefore.append_right _).symm
  · change c.graph.Claims (c.system.retireQueue w 1).graph (jobs.map Job.node)
    rw [hgraph]
    exact hclaims

/-- What happens without any workers. -/
theorem of_gone (h : c.Kept) (hbuilt : c.site.Built)
    (hsite : c'.site = { c.site with system := c'.system }) (hgoes : c.system.Goes c'.system)
    (hworkers : c'.system.workers = #[])
    (haccounts : Accounts (c'.system.queued ++ c'.ended) c'.graph c'.splits)
    (hcourse : c'.site.Built → c'.Fits c'.course) : c'.Kept where
  sound := by
    rw [hsite]
    exact h.sound.of_ran (.of_goes h.sound.system hgoes)
  exact := by
    rw [hsite]
    exact h.exact.go h.sound hgoes
  accounts := haccounts
  manned := .of_gone hworkers
  course := by
    apply hcourse
    intro i b hi
    rw [hsite] at hi
    exact hbuilt i b hi

/-- The workers are let go of. -/
theorem dismiss (h : c.Kept) (hcourse : c.course = .stopping) (hleft : c.isLeft = true) :
    Kept { c.setSystem c.system.dismiss with course := .emptying 0 } := by
  have heq := h.manned.dismiss_eq
  have hbuilt := h.course
  rw [hcourse] at hbuilt
  have hqueued := queued_dismiss h.manned hleft
  have hworkers : c.system.dismiss.workers = #[] := by rw [heq]
  have hgraph : c.system.dismiss.graph = c.system.graph := by rw [heq]
  refine h.of_gone hbuilt rfl (goes_dismiss h.manned hleft) hworkers ?_
    fun hafter => ⟨hafter, hworkers⟩
  exact h.accounts.move (.append_right _ (.of_eq hqueued))
    fun n => congrArg (fun g => (Graph.node g n).claimed) hgraph

/-- The oldest job of the inbox is dropped. -/
theorem retire (h : c.Kept) {retired : Nat} (hcourse : c.course = .emptying retired)
    {job : Job κ} {rest : List (Job κ)} (hwaiting : c.system.inbox.waiting = job :: rest) :
    Kept { c.setSystem (c.system.retireInbox 1).state with
      course := match (c.system.retireInbox 1).result with
        | .ok more => .emptying (retired + more)
        | .error _ => .failed
      dropped := job :: c.dropped } := by
  obtain ⟨graph, jobs, hretire, hgoes, hclaims⟩ :=
    System.exists_retireInbox h.sound.system.coherent h.exact.system hwaiting
  have hbefore := h.course
  rw [hcourse] at hbefore
  obtain ⟨hbuilt, hworkers⟩ := hbefore
  have heq : c.system.retireInbox 1 = _ := hretire
  have hresult : (c.system.retireInbox 1).result = .ok 1 := by rw [heq]; rfl
  have hgone : (c.system.retireInbox 1).state.workers = #[] := by
    rw [heq]
    exact hworkers
  rw [hresult]
  refine h.of_gone hbuilt rfl hgoes hgone ?_ fun hafter => ⟨hafter, hgone⟩
  refine h.accounts.supplies jobs ?_ ?_
  · have hqueued : c.system.queued = job :: rest := by
      unfold System.queued
      rw [hwaiting, hworkers]
      exact List.append_nil _
    have hjoined : (c.system.retireInbox 1).state.queued = rest ++ jobs := by
      unfold System.queued
      rw [hgone, heq]
      exact List.append_nil _
    change ((c.system.retireInbox 1).state.queued ++ (c.begun ++ job :: c.dropped)).Perm
      (jobs ++ (c.system.queued ++ (c.begun ++ c.dropped)))
    have hdropped : (c.begun ++ job :: c.dropped).Perm (job :: (c.begun ++ c.dropped)) :=
      List.perm_middle
    rw [hjoined, hqueued]
    refine (List.perm_append_comm.append hdropped).trans ?_
    rw [List.append_assoc]
    exact List.Perm.append_left jobs List.perm_middle
  · change c.graph.Claims (c.system.retireInbox 1).state.graph (jobs.map Job.node)
    rw [heq]
    exact hclaims

/-- The system has stopped. -/
theorem finish (h : c.Kept) {retired : Nat} {system : System κ ε}
    (hcourse : c.course = .emptying retired) (hwaiting : c.system.inbox.waiting = [])
    (hsystem : system = c.system ∨
      system = c.system.report .warn "retired submitted jobs without running them"
        [("retired", .number retired)]) :
    Kept { c.setSystem (system.report .debug "scheduler stopped" []) with course := .stopped } := by
  have hbefore := h.course
  rw [hcourse] at hbefore
  obtain ⟨hbuilt, hworkers⟩ := hbefore
  rcases hsystem with rfl | rfl
  · exact h.of_gone hbuilt rfl (.of_load rfl rfl rfl rfl) hworkers h.accounts
      fun hafter => ⟨hafter, hworkers, hwaiting⟩
  · exact h.of_gone hbuilt rfl (.of_load rfl rfl rfl rfl) hworkers h.accounts
      fun hafter => ⟨hafter, hworkers, hwaiting⟩

/-- The system is told to stop. -/
theorem stop (h : c.Kept) (hmay : c.mayStop = true) : Kept { c with course := .stopping } := by
  refine ⟨h.sound, h.exact, h.accounts, h.manned, fun i b hi => ?_⟩
  unfold mayStop at hmay
  rw [Bool.and_eq_true] at hmay
  obtain ⟨x, hx, rfl⟩ : ∃ x, c.site.builders[i]? = some x ∧ x = some b := by
    simpa [Site.builderAt, Option.join_eq_some_iff] using hi
  have hnodes := Array.all_eq_true'.mp hmay.2 (some b) (Array.mem_of_getElem? hx)
  simpa using hnodes

/-- Whatever move is made. -/
theorem does (h : c.Kept) {move : Move κ ε} (hmove : move.Ordered) (hdoes : Does c move c') :
    c'.Kept := by
  cases hdoes with
  | keep => exact h
  | act hmay => exact h.act hmove hmay
  | stop hmay => exact h.stop hmay
  | notice hcourse hw hstand hrest =>
    exact h.of_leave (.notice hcourse hw hstand hrest) hcourse hcourse rfl h.accounts
  | settle hcourse hw hstand hpending => exact h.settle hcourse hw hstand hpending
  | drained hcourse hw hstand hpending => exact h.drained hcourse hw hstand hpending
  | drop hcourse hw halive hstand hqueue => exact h.drop hcourse hw halive hstand hqueue
  | left hcourse hw hstand hqueue =>
    exact h.of_leave (.left hcourse hw hstand hqueue) hcourse hcourse rfl h.accounts
  | dismiss hcourse hleft => exact h.dismiss hcourse hleft
  | retire hcourse hwaiting => exact h.retire hcourse hwaiting
  | finish hcourse hwaiting hsystem => exact h.finish hcourse hwaiting hsystem

/-- Whatever moves are made. -/
theorem run (h : c.Kept) {moves : List (Move κ ε)} (hmoves : ∀ move ∈ moves, move.Ordered) :
    (c.run moves).Kept := by
  induction moves generalizing c with
  | nil => exact h
  | cons move rest ih =>
    exact ih (h.does (hmoves move List.mem_cons_self) (does_step c move))
      fun other hother => hmoves other (List.mem_cons_of_mem move hother)

end Kept

end Closing

end HazardFlow
