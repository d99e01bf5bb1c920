import HazardFlow.Proofs.Graph.Claims
import HazardFlow.Proofs.Yard.Signal

/-!
# What builders and submissions bring

As long as ranges are ordered, the moves of builders and submissions bring one job for every node
that they claim, and touch neither other jobs nor workers. Submissions look at all of their nodes, and
every node that is not submitted yet has a builder that holds it.
-/

namespace HazardFlow

variable {κ ε : Type}

/-- Whether a move splits, begins or finishes jobs. -/
def Move.isOfJobs : Move κ → Bool
  | .split _ | .begin _ | .watch _ | .finish _ _ => true
  | _ => false

namespace Yard

open Crew (builderAt)

variable {s s' : Yard κ ε} {move : Move κ}

/-- The jobs of nodes claimed on the way were put into the inbox, and nothing else happened to jobs
and workers. -/
structure Supplies (s s' : Yard κ ε) (made : List (Job κ)) : Prop where
  claims : s.graph.Claims s'.graph (made.map Job.node)
  waiting : s'.system.inbox.waiting = s.system.inbox.waiting ++ made
  workers : s'.system.workers = s.system.workers
  stats : s'.system.stats = s.system.stats
  running : s'.running = s.running
  watched : s'.watched = s.watched

/-- Moves of builders and submissions supply jobs. -/
theorem Exact.exists_supplies (h : s.Exact) (hs : s.Orderly) (hdoes : Does s move s')
    (hmove : move.isOfJobs = false) : ∃ made : List (Job κ), s.Supplies s' made := by
  have hsame (hwaiting : s'.system.inbox.waiting = s.system.inbox.waiting)
      (hclaimed : ∀ n : Nat, (s'.graph.node n).claimed = (s.graph.node n).claimed)
      (hworkers : s'.system.workers = s.system.workers) (hstats : s'.system.stats = s.system.stats)
      (hrunning : s'.running = s.running) (hwatched : s'.watched = s.watched) :
      ∃ made : List (Job κ), s.Supplies s' made :=
    ⟨[], .of_same hclaimed, hwaiting.trans (List.append_nil _).symm, hworkers, hstats, hrunning,
      hwatched⟩
  cases hdoes with
  | keep | newBuilder | reset => exact hsame rfl (fun _ => rfl) rfl rfl rfl rfl
  | execute _ | drop _ _ | abandon _ => exact hsame rfl (fun _ => rfl) rfl rfl rfl rfl
  | skip _ _ | close _ => exact hsame rfl (fun _ => rfl) rfl rfl rfl rfl
  | @add i b _ work profile =>
    exact hsame rfl (Graph.claimed_addNode (s.graph.register b.batch) work b.batch profile) rfl rfl
      rfl rfl
  | wire _ _ hwired _ => exact hsame rfl hwired.claimed rfl rfl rfl rfl
  | discard _ _ =>
    exact hsame rfl (fun n => Graph.field_updateNode Node.claimed n) rfl rfl rfl rfl
  | @put k b n due job hk _ hunclaimed hjob =>
    have hn := ((hs.scheduled.fits k _ hk).due n List.mem_cons_self).1
    obtain rfl : job.node = n := (Graph.faithful_handJob s.system.grain).item _ n job hjob
    refine ⟨[job], ?_, rfl, rfl, rfl, rfl, rfl⟩
    exact .hand (Graph.faithful_handJob s.system.grain) hn hunclaimed
  | @stall k b n due fault hk _ hunclaimed hjob =>
    have hn := ((hs.scheduled.fits k _ hk).due n List.mem_cons_self).1
    obtain ⟨job, hok⟩ := h.graph.exists_handJob h.grain hn hunclaimed
    cases hjob.symm.trans hok
  | _ => cases hmove

/-- What is supplied has yet to be run, so that the same nodes are complete as before. -/
theorem Supplies.isComplete_iff {made : List (Job κ)} (h : s.Supplies s' made) (hs : s.Orderly)
    (hs' : s'.Orderly) (he : s.Exact) (he' : s'.Exact) (n : Nat) :
    s'.graph.isComplete n = true ↔ s.graph.isComplete n = true := by
  have hload : s'.load n = s.load n + (made.map Job.node).count n :=
    load_append (jobs_of_put h.waiting h.running h.watched) n
  rw [he'.isComplete_iff hs', he.isComplete_iff hs, h.claims.claimed, hload]
  by_cases hn : n ∈ made.map Job.node
  · have hfresh := h.claims.fresh n hn
    have hone := List.count_pos_iff.mpr hn
    rw [hfresh]
    exact iff_of_false (fun hzero => by omega) nofun
  · rw [or_iff_left hn, List.count_eq_zero.mpr hn, Nat.add_zero]

/-- A submission that is over has looked at all of its nodes. -/
def Looked (s : Yard κ ε) : Prop :=
  ∀ (k : Nat) (sub : Submission), s.submissions[k]? = some sub → sub.phase ≠ .underWay → sub.due = []

namespace Looked

/-- A submission that goes on is still under way, or has looked at all of its nodes. -/
theorem set (h : s.Looked) {k : Nat} {sub : Submission}
    (hs' : s'.submissions = s.submissions.setIfInBounds k sub)
    (hsub : sub.phase = .underWay ∨ sub.due = []) : s'.Looked := by
  intro l other hl hphase
  rw [hs', Array.getElem?_setIfInBounds] at hl
  split at hl
  · split at hl
    · obtain rfl := Option.some.inj hl
      exact hsub.resolve_left hphase
    · cases hl
  · exact h l other hl hphase

/-- A submission begins. -/
theorem push (h : s.Looked) {sub : Submission} (hs' : s'.submissions = s.submissions.push sub)
    (hsub : sub.phase = .underWay) : s'.Looked := by
  intro l other hl hphase
  rw [hs', Array.getElem?_push] at hl
  split at hl
  · obtain rfl := Option.some.inj hl
    exact absurd hsub hphase
  · exact h l other hl hphase

/-- Every move keeps this so, as no fault stops a submission. -/
theorem does (h : s.Looked) (hs : s.Orderly) (he : s.Exact) (hdoes : Does s move s') : s'.Looked := by
  cases hdoes with
  | execute _ => exact h.push rfl rfl
  | abandon _ => exact h.push rfl rfl
  | skip _ _ => exact h.set rfl (Or.inl rfl)
  | put _ _ _ _ => exact h.set rfl (Or.inl rfl)
  | @stall k b n due fault hk _ hunclaimed hjob =>
    have hn := ((hs.scheduled.fits k _ hk).due n List.mem_cons_self).1
    obtain ⟨job, hok⟩ := he.graph.exists_handJob he.grain hn hunclaimed
    cases hjob.symm.trans hok
  | close _ => exact h.set rfl (Or.inr rfl)
  | finish _ =>
    unfold Looked
    rw [(finishAt_eq ..).2.2.2.2]
    exact h
  | _ => exact h

/-- There are no submissions at the start. -/
theorem start (tracker : Tracker) (grain : Nat) : (start tracker grain : Yard κ ε).Looked :=
  fun _ _ hk => by cases hk

end Looked

/-- Every node that is not submitted is held by a builder. -/
def Crewed (s : Yard κ ε) : Prop :=
  ∀ n : Nat, n < s.graph.nodes.size → s.graph.isArmed n = false →
    ∃ (i : Nat) (b : Builder), builderAt s.crews i = some b ∧ b.batch = (s.graph.node n).batch

namespace Crewed

/-- Builders hold the same nodes while the graph only runs. -/
theorem of_steady (h : s.Crewed) (hcrews : s'.crews = s.crews)
    (hsteady : s.graph.Steady s'.graph) : s'.Crewed := by
  intro n hn harmed
  rw [hsteady.size] at hn
  rw [hsteady.isArmed] at harmed
  rw [hcrews, hsteady.batchOf]
  exact h n hn harmed

/-- A crew that is replaced takes over nodes, or its batch was submitted, or it held none. -/
theorem of_set (h : s.Crewed) {i : Nat} {b : Builder} {crew : Crew}
    (hi : builderAt s.crews i = some b) (hcrews : s'.crews = s.crews.setIfInBounds i crew)
    (hnodes : ∀ n : Nat, n < s'.graph.nodes.size → s'.graph.isArmed n = false →
      (∃ c : Builder, crew.builder = some c ∧ c.batch = (s'.graph.node n).batch) ∨
      n < s.graph.nodes.size ∧ s.graph.isArmed n = false ∧
        (s'.graph.node n).batch = (s.graph.node n).batch ∧ b.batch ≠ (s.graph.node n).batch) :
    s'.Crewed := by
  intro n hn harmed
  rcases hnodes n hn harmed with ⟨c, hc, hbatch⟩ | ⟨hn, harmed, hbatch, hne⟩
  · exact ⟨i, c, by rw [hcrews, Crew.builderAt_replaced hi, hc], hbatch⟩
  · obtain ⟨j, c, hj, hc⟩ := h n hn harmed
    have hji : j ≠ i := by
      rintro rfl
      obtain rfl := Option.some.inj (hi.symm.trans hj)
      exact hne hc
    refine ⟨j, c, ?_, hc.trans hbatch.symm⟩
    unfold builderAt at hj ⊢
    rw [hcrews, Array.getElem?_setIfInBounds_ne hji.symm]
    exact hj

/-- A crew that keeps its batch. -/
theorem set (h : s.Crewed) {i : Nat} {b c : Builder} {crew : Crew}
    (hi : builderAt s.crews i = some b) (hcrews : s'.crews = s.crews.setIfInBounds i crew)
    (hcrew : crew.builder = some c) (hbatch : c.batch = b.batch)
    (hsteady : s.graph.Steady s'.graph) : s'.Crewed := by
  refine h.of_set hi hcrews fun n hn harmed => ?_
  rw [hsteady.size] at hn
  rw [hsteady.isArmed] at harmed
  rw [hsteady.batchOf]
  by_cases hne : b.batch = (s.graph.node n).batch
  · exact Or.inl ⟨c, hcrew, hbatch.trans hne⟩
  · exact Or.inr ⟨hn, harmed, rfl, hne⟩

theorem newBuilder (h : s.Crewed) (hs : s.Orderly) : (s.act .newBuilder).Crewed := by
  intro n hn harmed
  have hlt := hs.coherent.batch_lt n hn
  have hbefore : s.graph.isArmed n = false := by
    rw [← harmed]
    exact (Graph.armed_startBatch s.graph (s.graph.node n).batch).symm
  obtain ⟨j, c, hj, hc⟩ := h n hn hbefore
  refine ⟨j, c, ?_, hc⟩
  have hne : j ≠ s.crews.size := by
    rintro rfl
    unfold builderAt at hj
    rw [Array.getElem?_size] at hj
    cases hj
  unfold builderAt at hj ⊢
  exact (congrArg (Option.bind · Crew.builder) (Array.getElem?_push.trans (if_neg hne))).trans hj

theorem add (h : s.Crewed) {i : Nat} {b : Builder} (hi : s.crews[i]? = some (.adding b))
    (work : Work κ) (profile : Option Profile) : (s.add i b work profile).Crewed := by
  have hgrows : s.graph.Grows (s.add i b work profile).graph := .addNode s.graph work b.batch profile
  have hsize : (s.add i b work profile).graph.nodes.size = s.graph.nodes.size + 1 :=
    Graph.size_nodes_addNode (s.graph.register b.batch) work b.batch profile
  have hself : ((s.add i b work profile).graph.node s.graph.nodes.size).batch = b.batch :=
    congrArg Node.batch (Graph.node_addNode_self (s.graph.register b.batch) work b.batch profile)
  refine h.of_set (Crew.builderAt_of_adding hi) rfl fun n hn harmed => ?_
  by_cases hnew : n = s.graph.nodes.size
  · exact Or.inl ⟨_, rfl, by rw [hnew, hself]⟩
  · have hold : n < s.graph.nodes.size := by omega
    by_cases hne : b.batch = (s.graph.node n).batch
    · exact Or.inl ⟨_, rfl, hne.trans (hgrows.batchOf n hold).symm⟩
    · refine Or.inr ⟨hold, ?_, hgrows.batchOf n hold, hne⟩
      unfold Graph.isArmed at harmed ⊢
      rw [hgrows.batchOf n hold] at harmed
      exact (Graph.field_updateBatch (g := s.graph) Batch.armed _).symm.trans harmed

theorem submit (h : s.Crewed) (hs : s.Orderly) {i : Nat} {b : Builder}
    (hi : builderAt s.crews i = some b) (next : Builder → Crew) : (s.submit i b next).Crewed := by
  have hfresh : b.batch < s.graph.startBatch.1.batches.size := by
    rw [Graph.size_batches_startBatch]
    exact Nat.lt_succ_of_lt (hs.staffed.holds i b hi).batch_lt
  refine h.of_set hi rfl fun n hn harmed => Or.inr ?_
  have hunarmed : ¬ ((s.graph.node n).batch = b.batch ∨
      (s.graph.startBatch.1.batch (s.graph.node n).batch).armed = true) := by
    rw [← Graph.armed_arm hfresh, Bool.not_eq_true]
    exact harmed
  rw [not_or, Bool.not_eq_true, Graph.armed_startBatch] at hunarmed
  exact ⟨hn, hunarmed.2, rfl, Ne.symm hunarmed.1⟩

/-- Every move keeps this so. -/
theorem does (h : s.Crewed) (hs : s.Orderly) (hdoes : Does s move s') : s'.Crewed := by
  by_cases hruns : move.Runs
  · have hsteady := ((hdoes.steps hs hruns).coherent_steady hs.coherent).2
    cases hdoes with
    | finish _ => exact h.of_steady (finishAt_eq ..).2.2.2.1 hsteady
    | newBuilder | add | wire | reset | execute | drop | discard | abandon | close =>
      exact hruns.elim
    | _ => exact h.of_steady rfl hsteady
  · cases hdoes with
    | keep => exact h
    | newBuilder => exact h.newBuilder hs
    | add hi work profile => exact h.add hi work profile
    | wire _ _ hwired _ => exact h.of_steady rfl (.wired hwired)
    | reset => exact h
    | execute hi => exact h.submit hs (Crew.builderAt_of_adding hi) _
    | @drop i b crew hi hcrew =>
      have hbuilder := Crew.builderAt_of_adding hi
      rcases hcrew with ⟨rfl, hnone⟩ | rfl
      · refine h.of_set hbuilder rfl fun n hn harmed => Or.inr ⟨hn, harmed, rfl, fun hbatch => ?_⟩
        have hmem := ((hs.staffed.holds i b hbuilder).mem_nodes n).mpr ⟨hn, hbatch.symm⟩
        rw [hnone] at hmem
        exact absurd hmem List.not_mem_nil
      · exact h.set hbuilder rfl rfl rfl (.refl _)
    | discard hi _ => exact h.set (Crew.builderAt_of_leaving hi) rfl rfl rfl (.updateNode _)
    | abandon hi => exact h.submit hs (Crew.builderAt_of_leaving hi) _
    | close _ => exact h.of_steady rfl (.finishOne _ _)
    | _ => exact absurd trivial hruns

/-- There are no nodes at the start. -/
theorem start (tracker : Tracker) (grain : Nat) : (start tracker grain : Yard κ ε).Crewed :=
  fun _ hn => absurd hn (Nat.not_lt_zero _)

end Crewed

end Yard

end HazardFlow
