import HazardFlow.Proofs.Closing.Leaving

/-!
# Stopping completes everything

When a system has stopped, every node is complete and every submitted batch is done, and every job
was either run once or dropped once. No job is begun or dropped before all recorded predecessors of
its node are complete. A system that was told to stop can always go on to the end.
-/

namespace HazardFlow.Closing

variable {κ ε : Type} {c c' : Closing κ ε}

/-- A job that is begun or dropped was queued, so its node had been claimed. -/
theorem Kept.claimed_of_ends (h : c.Kept) {move : Move κ ε} (hmove : move.Ordered)
    (hdoes : Does c move c') {job : Job κ} (hjob : job ∈ c'.ended) (hnew : job ∉ c.ended) :
    (c.graph.node job.node).claimed = true := by
  have hqueued {other : Job κ} (hother : other ∈ c.system.queued) :
      (c.graph.node other.node).claimed = true :=
    h.accounts.claimed other (List.mem_append_left _ hother)
  have hdropped {other : Job κ} (hother : other ∈ c.system.queued)
      (hmem : job ∈ c.begun ++ other :: c.dropped) : (c.graph.node job.node).claimed = true := by
    rcases List.mem_append.mp hmem with hbegun | htail
    · exact absurd (List.mem_append_left _ hbegun) hnew
    · rcases List.mem_cons.mp htail with rfl | hold
      · exact hqueued hother
      · exact absurd (List.mem_append_right _ hold) hnew
  cases hdoes with
  | @act a hmay =>
    cases hbegun : a.begun c.system (c.site.act a).system with
    | none =>
      rw [act_of_none hbegun] at hjob
      exact absurd hjob hnew
    | some other =>
      rw [act_of_some hbegun] at hjob
      rcases List.mem_cons.mp hjob with rfl | hold
      · obtain ⟨w, hrunning, hbegan⟩ := (Site.hands_act h.sound h.exact hmove).began job hbegun
        cases hbegan with
        | whole hrunning' hbefore _ _ =>
          obtain rfl := Option.some.inj (hrunning.symm.trans hrunning')
          exact hqueued (hbefore.mem_iff.mpr List.mem_cons_self)
        | half hrunning' hbefore _ hsplit _ =>
          obtain rfl := Option.some.inj (hrunning.symm.trans hrunning')
          rw [(Graph.splitJob_spec hsplit).2.2]
          exact hqueued (hbefore.mem_iff.mpr List.mem_cons_self)
      · exact absurd hold hnew
  | drop _ hw halive _ hqueue =>
    obtain ⟨_, _, _, hbefore, _⟩ :=
      System.exists_retire h.sound.system.coherent h.exact.system hw halive hqueue
    exact hdropped (hbefore.mem_iff.mpr List.mem_cons_self) hjob
  | retire _ hwaiting =>
    refine hdropped ?_ hjob
    unfold System.queued
    rw [hwaiting]
    exact List.mem_cons_self
  | _ => exact absurd hjob hnew

/-- Every move adds to the graph or runs it on. -/
theorem Kept.grows (h : c.Kept) {move : Move κ ε} (hdoes : Does c move c') :
    c.graph.Grows c'.graph := by
  have hgoes {s : System κ ε} (hs : c.system.Goes s) : c.graph.Grows s.graph :=
    (hs.steps.coherent_steady h.sound.system.coherent).2.grows
  cases hdoes with
  | @act a hmay =>
    unfold graph
    rw [(act_eq c a).1]
    exact (Site.does_act h.sound a).grows h.sound
  | settle => exact hgoes (System.goes_settle ..)
  | drained _ hw _ _ => exact hgoes (System.goes_resetBackoff hw)
  | drop _ hw halive _ hqueue => exact hgoes (System.goes_retire hw halive hqueue)
  | dismiss _ hleft => exact hgoes (goes_dismiss h.manned hleft)
  | retire _ hwaiting =>
    obtain ⟨_, _, _, hretired, _⟩ :=
      System.exists_retireInbox h.sound.system.coherent h.exact.system hwaiting
    exact hgoes hretired
  | finish _ _ hsystem =>
    rcases hsystem with rfl | rfl
    · exact hgoes (.of_load rfl rfl rfl rfl)
    · exact hgoes (.of_load rfl rfl rfl rfl)
  | _ => exact .refl _

/-- So does every run. -/
theorem Kept.grows_run (h : c.Kept) {moves : List (Move κ ε)}
    (hmoves : ∀ move ∈ moves, move.Ordered) : c.graph.Grows (c.run moves).graph := by
  induction moves generalizing c with
  | nil => exact .refl _
  | cons move rest ih =>
    have hdoes := does_step c move
    exact (h.grows hdoes).trans (ih (h.does (hmoves move List.mem_cons_self) hdoes)
      fun other hother => hmoves other (List.mem_cons_of_mem move hother))

/-- Everything has been completed. -/
structure Complete (c : Closing κ ε) : Prop where
  nodes : ∀ n : Nat, n < c.graph.nodes.size → c.graph.isComplete n = true
  batches : ∀ b : Nat, b ∈ c.site.submitted → (c.graph.batch b).done = true
  queued : c.system.queued = []
  workers : c.system.workers = #[]
  /-- Every node had a job, and one more for each time that a job of it was split. -/
  jobs : ∀ n : Nat, n < c.graph.nodes.size →
    c.ended.countP (·.node == n) = 1 + c.splits.count n

/-- When a system has stopped, everything has been completed. -/
theorem Kept.complete (h : c.Kept) (hcourse : c.course = .stopped) : c.Complete := by
  have hfits := h.course
  rw [hcourse] at hfits
  obtain ⟨hbuilt, hworkers, hwaiting⟩ := hfits
  have hidle : c.system.Idle := by
    refine ⟨hwaiting, fun worker hworker => ?_⟩
    rw [hworkers] at hworker
    exact absurd hworker List.not_mem_nil
  have harmed : ∀ n : Nat, n < c.graph.nodes.size → c.graph.isArmed n = true := fun n hn => by
    by_contra hunarmed
    rw [Bool.not_eq_true] at hunarmed
    obtain ⟨i, b, hi, hmem⟩ := h.exact.covered n hn hunarmed
    rw [hbuilt i b hi] at hmem
    exact absurd hmem List.not_mem_nil
  have hnodes : ∀ n : Nat, n < c.graph.nodes.size → c.graph.isComplete n = true :=
    h.exact.system.graph.isComplete_of_idle h.sound.system hidle.load_eq_zero harmed
  have hqueued : c.system.queued = [] := by
    unfold System.queued
    rw [hwaiting, hworkers]
    rfl
  refine ⟨hnodes, fun b hb => ?_, hqueued, hworkers, fun n hn => ?_⟩
  · exact (h.exact.submitted b hb).2.2.done_of_outstanding
      (Graph.outstanding_eq_zero_iff.mpr fun n hn _ => hnodes n hn)
  · have hclaimed : (c.graph.node n).claimed = true :=
      h.sound.system.coherent.claimed_of_isComplete n (hnodes n hn)
    have hcount := h.accounts.count n
    rw [hqueued, List.nil_append, if_pos hclaimed] at hcount
    exact hcount

/-- Whatever moves are made, by builders, by workers before and after they notice that the system
stops, and by whoever stops it: no job is run twice, dropped twice, or both run and dropped; a job is
begun or dropped only when all nodes that were ever recorded as predecessors of its node are complete;
when the system has stopped, everything has been completed; and a system that was told to stop meets
no fault and can go on until it has stopped. -/
theorem completes_run {tracker : Tracker} {count workers grain cap : Nat}
    (htracker : Tracker.create count = .ok tracker) (hgrain : 0 < grain)
    {moves : List (Move κ ε)} (hmoves : ∀ move ∈ moves, move.Ordered) :
    ((start tracker workers grain cap).run moves).ended.Pairwise Job.Apart ∧
    (∀ before move after, moves = before ++ move :: after →
      ∀ job ∈ ((start tracker workers grain cap).run (before ++ [move])).ended,
        job ∉ ((start tracker workers grain cap).run before).ended →
        ∀ earlier, earlier <+: before →
          ∀ i : Nat, job.node ∈ ((start tracker workers grain cap).run earlier).graph.entries i →
            ((start tracker workers grain cap).run before).graph.isComplete i = true) ∧
    (((start tracker workers grain cap).run moves).course = .stopped →
      ((start tracker workers grain cap).run moves).Complete) ∧
    (((start tracker workers grain cap).run moves).course ≠ .serving →
      ((start tracker workers grain cap).run moves).course ≠ .failed ∧
      ∃ more, (∀ move ∈ more, move.Ordered) ∧
        (((start tracker workers grain cap).run moves).run more).course = .stopped) := by
  have hstart : (start tracker workers grain cap : Closing κ ε).Kept :=
    .start htracker hgrain workers cap
  have hkept := hstart.run hmoves
  refine ⟨(List.pairwise_append.mp hkept.accounts.apart).2.1, ?_, hkept.complete, fun hcourse => ?_⟩
  · rintro before move after rfl job hjob hnew earlier ⟨between, rfl⟩ i hi
    have hordered : ∀ other ∈ earlier ++ between, other.Ordered := fun other hother =>
      hmoves other (List.mem_append_left _ hother)
    have hmove : move.Ordered :=
      hmoves move (List.mem_append_right _ List.mem_cons_self)
    have hearlier := hstart.run fun other hother =>
      hordered other (List.mem_append_left _ hother)
    have hbefore := hstart.run hordered
    have hgrows := hearlier.grows_run fun other hother =>
      hordered other (List.mem_append_right _ hother)
    rw [← run_append] at hgrows
    rw [run_append] at hjob
    have hclaimed := hbefore.claimed_of_ends hmove (does_step _ move) hjob hnew
    exact hbefore.sound.system.coherent.isComplete_of_holdsUp
      (hgrows.later.holdsUp (Or.inr hi)) hclaimed
  · refine ⟨fun hfailed => ?_, hkept.exists_stopped hcourse⟩
    have hfits := hkept.course
    rw [hfailed] at hfits
    exact hfits

/-- One half of a range is run and the other one dropped while two workers leave, an event is waited
for, a reader of both becomes ready on the way, and so does one behind a job left in the inbox. -/
def twoLeave : List (Move Unit Unit) :=
  [.act .newBuilder, .act (.add 0 (.range ⟨0, 8⟩ ()) { writes := [0] } none),
    .act (.add 0 (.host ()) { writes := [64] } none),
    .act (.add 0 (.host ()) { reads := [0, 64] } none), .act (.execute 0),
    .act (.take 0 .inbox 0 true), .act (.take 1 .inbox 0 false), .act (.conclude 1 (.event ())),
    .act (.add 0 (.host ()) { writes := [128] } none),
    .act (.add 0 (.host ()) { reads := [128] } none), .act (.execute 0), .stop, .leave 1, .leave 0,
    .act (.conclude 0 .finished), .leave 0, .leave 0, .leave 1, .leave 1, .leave 0, .leave 0,
    .leave 0, .leave 1, .close, .close, .close, .close]

/-- Two jobs were run, one of them half a range, and four were dropped. Everything is complete. -/
theorem completes_run_twoLeave :
    Complete ((start { shards := .replicate 4 {} } 2 2 0).run twoLeave) ∧
    ((start { shards := .replicate 4 {} } 2 2 0).run twoLeave).graph.nodes.size = 5 ∧
    ((start { shards := .replicate 4 {} } 2 2 0).run twoLeave).site.submitted = [1, 0] ∧
    ((start { shards := .replicate 4 {} } 2 2 0).run twoLeave).begun.map Job.node = [1, 0] ∧
    ((start { shards := .replicate 4 {} } 2 2 0).run twoLeave).dropped.map Job.node = [4, 3, 2, 0] := by
  have htracker : Tracker.create 4 = .ok { shards := .replicate 4 {} } := rfl
  have hordered : ∀ move ∈ twoLeave, move.Ordered := by
    simp [twoLeave, Move.Ordered, Action.Ordered, Work.Ordered]
  have hstopped : ((start { shards := .replicate 4 {} } 2 2 0).run twoLeave).course = .stopped := by
    decide +kernel
  exact ⟨(completes_run htracker Nat.two_pos hordered).2.2.1 hstopped,
    by decide +kernel, by decide +kernel, by decide +kernel, by decide +kernel⟩

end HazardFlow.Closing
