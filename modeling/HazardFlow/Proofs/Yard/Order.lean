import HazardFlow.Proofs.Yard.Moves

/-!
# Yards stay orderly

Dispatching nodes and running jobs takes steps of the graph, which leave nodes and batches where
they are. Every other move touches the batch of one builder, which holds it alone. So every move
keeps a yard orderly.
-/

namespace HazardFlow

variable {κ ε : Type}

/-- A move that dispatches nodes or runs jobs. -/
def Move.Runs : Move κ → Prop
  | .dispatch _ | .split _ | .begin _ | .watch _ | .finish _ _ => True
  | _ => False

namespace Yard

open Crew (builderAt)
open HazardFlow.Graph (addLoad dropLoad)

variable {s s' : Yard κ ε} {move : Move κ}

/-- What is left after a part has finished, but for the jobs. -/
theorem finishAt_eq (s : Yard κ ε) (stage : Stage) (position : Nat) (job : Job κ) :
    (s.finishAt stage position job).graph =
        (s.graph.finishPart (Graph.handJob s.system.grain) job.node).graph ∧
      (s.finishAt stage position job).system.tracker = s.system.tracker ∧
      (s.finishAt stage position job).system.grain = s.system.grain ∧
      (s.finishAt stage position job).crews = s.crews ∧
      (s.finishAt stage position job).submissions = s.submissions := by
  cases stage <;> exact ⟨rfl, rfl, rfl, rfl, rfl⟩

/-- The jobs made when a part finishes join those that are left. -/
theorem jobs_finishAt (s : Yard κ ε) (stage : Stage) (position : Nat) (job : Job κ) :
    (s.finishAt stage position job).jobs.Perm
      ((s.graph.finishPart (Graph.handJob s.system.grain) job.node).items ++
        (s.without stage position).jobs) := by
  cases stage <;> exact jobs_of_put rfl rfl rfl

/-- Finishing the part of a job is a step. -/
theorem step_finishAt {stage : Stage} {position : Nat} {job : Job κ}
    (hjob : (s.jobsAt stage)[position]? = some job) :
    Graph.Step s.system.grain s.graph s.load (s.finishAt stage position job).graph
      (s.finishAt stage position job).load := by
  have hload := load_cons (jobs_without hjob)
  have hpos : 0 < s.load job.node := by
    rw [hload]
    exact Graph.addLoad_pos ..
  have hfinished : (s.finishAt stage position job).load = fun m => dropLoad s.load job.node m +
      ((s.graph.finishPart (Graph.handJob s.system.grain) job.node).items.map Job.node).count m := by
    rw [hload, Graph.dropLoad_addLoad]
    funext m
    exact load_append (jobs_finishAt s stage position job) m
  rw [hfinished, (finishAt_eq s stage position job).1]
  exact .finishPart hpos

/-- Moves that dispatch nodes and run jobs take steps. -/
theorem Does.steps (h : Does s move s') (hs : s.Orderly) (hruns : move.Runs) :
    Graph.Steps s.system.grain s.graph s.load s'.graph s'.load := by
  have hdue {k : Nat} {b : BatchId} {n : NodeId} {due : List NodeId}
      (hk : s.submissions[k]? = some ⟨b, n :: due, .underWay⟩) :
      n < s.graph.nodes.size ∧ s.graph.isArmed n = true := by
    have hfits := hs.scheduled.fits k _ hk
    exact ⟨(hfits.due n List.mem_cons_self).1, hfits.isArmed List.mem_cons_self⟩
  cases h with
  | keep | skip _ _ => exact .refl
  | @put k b n due job hk hfree hunclaimed hjob =>
    obtain rfl : job.node = n := (Graph.faithful_handJob s.system.grain).item _ n job hjob
    have hstep : Graph.Step s.system.grain s.graph s.load _ _ :=
      .dispatch (hdue hk).1 (hdue hk).2 hfree hunclaimed hjob
    refine .single ?_
    convert hstep using 1
    · rfl
    · exact load_put rfl rfl rfl
  | stall hk hfree hunclaimed hjob =>
    exact .single (.stall (hdue hk).1 (hdue hk).2 hfree hunclaimed hjob)
  | @split position job piece rest g hjob hsplit =>
    obtain ⟨rfl, hpiece, hrest⟩ := Graph.splitJob_spec hsplit
    rw [load_split hjob _ hpiece hrest]
    refine .single (.split ?_)
    rw [load_cons (jobs_without hjob)]
    exact Graph.addLoad_pos ..
  | begin hjob =>
    rw [load_congr (jobs_begin hjob _)]
    exact .refl
  | watch hjob =>
    rw [load_congr (jobs_watch hjob)]
    exact .refl
  | finish hjob => exact .single (step_finishAt hjob)
  | _ => exact hruns.elim

/-- No move changes the grain. -/
theorem Does.grain (h : Does s move s') : s'.system.grain = s.system.grain := by
  cases h with
  | finish _ => exact (finishAt_eq ..).2.2.1
  | _ => rfl

namespace Orderly

/-- A yard whose graph only takes steps stays orderly. -/
theorem of_steps (hs : s.Orderly)
    (hsteps : Graph.Steps s.system.grain s.graph s.load s'.graph s'.load)
    (htracker : s'.system.tracker = s.system.tracker) (hcrews : s'.crews = s.crews)
    (hscheduled : Scheduled s'.submissions s.graph) : s'.Orderly := by
  obtain ⟨hcoherent, hsteady⟩ := hsteps.coherent_steady hs.coherent
  refine ⟨hcoherent, ?_, ?_, hscheduled.steady hsteady⟩
  · rw [htracker, hsteady.size]
    exact hs.within
  · rw [hcrews]
    exact hs.staffed.steady hsteady

/-- Moves that dispatch nodes and run jobs keep a yard orderly. -/
theorem of_runs (hs : s.Orderly) (h : Does s move s') (hruns : move.Runs) : s'.Orderly := by
  have hsteps := h.steps hs hruns
  have hdue (n : NodeId) (due : List NodeId) : due ⊆ n :: due := List.subset_cons_self n due
  cases h with
  | keep => exact hs
  | skip hk _ => exact hs.of_steps hsteps rfl rfl (hs.scheduled.set hk rfl (hdue _ _))
  | put hk _ _ _ => exact hs.of_steps hsteps rfl rfl (hs.scheduled.set hk rfl (hdue _ _))
  | stall hk _ _ _ => exact hs.of_steps hsteps rfl rfl (hs.scheduled.set hk rfl (hdue _ _))
  | split _ _ => exact hs.of_steps hsteps rfl rfl hs.scheduled
  | begin _ => exact hs.of_steps hsteps rfl rfl hs.scheduled
  | watch _ => exact hs.of_steps hsteps rfl rfl hs.scheduled
  | @finish stage position job _ =>
    obtain ⟨_, htracker, _, hcrews, hsubmissions⟩ := finishAt_eq s stage position job
    refine hs.of_steps hsteps htracker hcrews ?_
    rw [hsubmissions]
    exact hs.scheduled
  | _ => exact hruns.elim

/-- The batches of builders exist already when a new one is started. -/
theorem holds_ne_fresh (hs : s.Orderly) {i : Nat} {b : Builder} (hi : builderAt s.crews i = some b) :
    b.batch ≠ s.graph.batches.size := Nat.ne_of_lt (hs.staffed.holds i b hi).batch_lt

/-- A new builder comes with a new batch. -/
theorem newBuilder (hs : s.Orderly) : (s.act .newBuilder).Orderly where
  coherent := hs.coherent.startBatch
  within := hs.within
  staffed := by
    refine hs.staffed.of_replaced s.crews.size (fun j hj => ?_) (fun j c _ hc => ?_) (fun b hb => ?_)
      fun b left hb => ?_
    · exact Array.getElem?_push.trans (if_neg hj)
    · exact (hs.staffed.holds j c hc).startBatch
    · obtain rfl := Option.some.inj ((Crew.builderAt_push s.crews _).symm.trans hb)
      exact ⟨.startBatch_self hs.coherent, fun j c _ hc => hs.holds_ne_fresh hc⟩
    · cases Array.getElem?_push_size.symm.trans hb
  scheduled := hs.scheduled.grows (.startBatch s.graph) fun _ hb hyes =>
    (congrArg Batch.armed (Graph.batch_startBatch_of_lt hb)).trans hyes

/-- A node that is added joins the batch of its builder. -/
theorem add (hs : s.Orderly) {i : Nat} {b : Builder} (hi : s.crews[i]? = some (.adding b))
    (work : Work κ) (profile : Option Profile) : (s.add i b work profile).Orderly := by
  have hbuilder := Crew.builderAt_of_adding hi
  have hb := hs.staffed.holds i b hbuilder
  have hgrows : s.graph.Grows (s.add i b work profile).graph := .addNode s.graph work b.batch profile
  have hself : builderAt (s.add i b work profile).crews i =
      some { b with nodes := b.nodes ++ [s.graph.nodes.size] } :=
    Crew.builderAt_replaced hbuilder _
  refine ⟨hs.coherent.addNode hb.batch_lt work profile, hs.within.mono hgrows.size, ?_, ?_⟩
  · refine hs.staffed.of_replaced i (fun j hj => Array.getElem?_setIfInBounds_ne (Ne.symm hj))
      (fun j c hj hc => ?_) (fun c hc => ?_) fun c left hc => ?_
    · exact (hs.staffed.holds j c hc).addNode_of_ne (hs.staffed.apart j i c b hj hc hbuilder) work
        profile
    · obtain rfl := Option.some.inj (hself.symm.trans hc)
      exact ⟨hb.addNode_self work profile, fun j c hj hc => hs.staffed.apart j i c b hj hc hbuilder⟩
    · obtain ⟨hlt, _⟩ := Array.getElem?_eq_some_iff.mp hi
      cases (Array.getElem?_setIfInBounds_self_of_lt hlt).symm.trans hc
  · refine hs.scheduled.grows hgrows fun c _ hyes => ?_
    exact (Graph.field_updateBatch (g := s.graph) Batch.armed c).trans hyes

/-- A call wires a node that is not submitted. -/
theorem wire (hs : s.Orderly) {n : Nat} {t : Tracker} {g : Graph κ} {sources : List NodeId}
    (hn : n < s.graph.nodes.size) (harmed : s.graph.isArmed n = false)
    (hwired : Graph.Wired s.graph n sources g) (ht : t.Within s.graph.nodes.size) :
    Orderly { s with system := { s.system with tracker := t, graph := g } } where
  coherent := by
    exact hs.coherent.wired hwired hn (hs.coherent.not_claimed_of_unarmed harmed)
  within := by
    refine ht.mono (Nat.le_of_eq ?_)
    exact hwired.size.symm
  staffed := hs.staffed.steady (.wired hwired)
  scheduled := hs.scheduled.steady (.wired hwired)

/-- Beginning a submission takes the batch from its builder. -/
theorem submit (hs : s.Orderly) {i : Nat} {b : Builder} (hi : builderAt s.crews i = some b)
    {next : Builder → Crew} (hnext : ∀ c : Builder, next c = .adding c ∨ next c = .gone) :
    (s.submit i b next).Orderly := by
  have hb := hs.staffed.holds i b hi
  have hfresh : b.batch < s.graph.startBatch.1.batches.size := by
    rw [Graph.size_batches_startBatch]
    exact Nat.lt_succ_of_lt hb.batch_lt
  have hbuilder : builderAt (s.submit i b next).crews i =
      (next { batch := s.graph.batches.size }).builder := Crew.builderAt_replaced hi _
  refine ⟨hs.coherent.startBatch.arm b.batch, hs.within, ?_, ?_⟩
  · refine hs.staffed.of_replaced i (fun j hj => Array.getElem?_setIfInBounds_ne (Ne.symm hj))
      (fun j c hj hc => ?_) (fun c hc => ?_) fun c left hc => ?_
    · exact (hs.staffed.holds j c hc).startBatch.arm_of_ne (hs.staffed.apart j i c b hj hc hi)
    · rw [hbuilder] at hc
      rcases hnext { batch := s.graph.batches.size } with hadding | hgone
      · rw [hadding] at hc
        obtain rfl := Option.some.inj hc
        exact ⟨(Builder.Holds.startBatch_self hs.coherent).arm_of_ne (hs.holds_ne_fresh hi).symm,
          fun j c _ hc => hs.holds_ne_fresh hc⟩
      · rw [hgone] at hc
        cases hc
    · have hself := (Array.getElem?_setIfInBounds_self ..).symm.trans hc
      split at hself
      · rcases hnext { batch := s.graph.batches.size } with hadding | hgone
        · cases hadding.symm.trans (Option.some.inj hself)
        · cases hgone.symm.trans (Option.some.inj hself)
      · cases hself
  · have hgrows : s.graph.Grows (s.submit i b next).graph :=
      (Graph.Grows.startBatch s.graph).trans (.arm s.graph.startBatch.1 b.batch)
    have harmed (c : Nat) (hyes : (s.graph.batch c).armed = true) :
        ((s.submit i b next).graph.batch c).armed = true := by
      refine (Graph.armed_arm hfresh c).mpr (Or.inr ?_)
      rw [Graph.armed_startBatch, hyes]
    refine (hs.scheduled.grows hgrows fun c _ hyes => harmed c hyes).push ?_ fun k other hk heq => ?_
    · refine ⟨Nat.lt_of_lt_of_le hb.batch_lt hgrows.batches,
        (Graph.armed_arm hfresh b.batch).mpr (Or.inl rfl), fun n hn => ?_⟩
      obtain ⟨hlt, hbatch⟩ := (hb.mem_nodes n).mp hn
      exact ⟨hlt, hbatch⟩
    · have hyes := (hs.scheduled.fits k other hk).armed
      dsimp only at heq
      rw [heq, hb.unarmed] at hyes
      cases hyes

/-- The first step of going away. -/
theorem drop (hs : s.Orderly) {i : Nat} {b : Builder} {crew : Crew}
    (hi : s.crews[i]? = some (.adding b)) (hcrew : crew = .gone ∧ b.nodes = [] ∨ crew = .leaving b b.nodes) :
    Orderly { s with crews := s.crews.setIfInBounds i crew } where
  coherent := hs.coherent
  within := hs.within
  staffed := by
    refine hs.staffed.set (Crew.builderAt_of_adding hi) ?_ fun c left hc => ?_
    · rcases hcrew with ⟨rfl, _⟩ | rfl
      · exact Or.inr rfl
      · exact Or.inl rfl
    · rcases hcrew with ⟨rfl, _⟩ | rfl
      · cases hc
      · cases hc
        exact List.Subset.refl _
  scheduled := hs.scheduled

/-- Discarding the work of a node leaves everything else alone. -/
theorem discard (hs : s.Orderly) {i : Nat} {b : Builder} {n : NodeId} {left : List NodeId}
    (hi : s.crews[i]? = some (.leaving b (n :: left))) (work : Option (Work κ)) :
    Orderly { s with
      system := { s.system with graph := s.graph.updateNode n ({ · with work }) }
      crews := s.crews.setIfInBounds i (.leaving b left)
      notes := .discarded n :: s.notes } where
  coherent := hs.coherent.setWork n work
  within := hs.within.mono (Nat.le_of_eq (Graph.size_nodes_updateNode ..).symm)
  staffed := by
    have hstaffed : Staffed (s.crews.setIfInBounds i (.leaving b left)) s.graph := by
      refine hs.staffed.set (Crew.builderAt_of_leaving hi) (Or.inl rfl) fun c rest hc => ?_
      cases hc
      exact fun m hm => hs.staffed.left i b (n :: left) hi (List.mem_cons_of_mem n hm)
    exact hstaffed.steady (.updateNode n)
  scheduled := hs.scheduled.steady (.updateNode n)

/-- A submission that ends stays the one of its batch. -/
theorem close (hs : s.Orderly) {k : Nat} {b : BatchId}
    (hk : s.submissions[k]? = some ⟨b, [], .underWay⟩) : (s.close k b).Orderly where
  coherent := hs.coherent.finishOne b
  within := hs.within
  staffed := hs.staffed.steady (.finishOne _ b)
  scheduled := by
    have hset : Scheduled (s.submissions.setIfInBounds k ⟨b, [], .ended⟩) s.graph :=
      hs.scheduled.set hk rfl (List.Subset.refl _)
    exact hset.steady (.finishOne _ b)

/-- Every move keeps a yard orderly. -/
theorem does (hs : s.Orderly) (h : Does s move s') : s'.Orderly := by
  by_cases hruns : move.Runs
  · exact hs.of_runs h hruns
  · cases h with
    | keep => exact hs
    | newBuilder => exact hs.newBuilder
    | add hi work profile => exact hs.add hi work profile
    | wire hn harmed hwired ht => exact hs.wire hn harmed hwired ht
    | reset => exact ⟨hs.coherent, Tracker.within_reset _ _, hs.staffed, hs.scheduled⟩
    | execute hi => exact hs.submit (Crew.builderAt_of_adding hi) fun _ => Or.inl rfl
    | drop hi hcrew => exact hs.drop hi hcrew
    | discard hi _ => exact hs.discard hi _
    | abandon hi => exact hs.submit (Crew.builderAt_of_leaving hi) fun _ => Or.inr rfl
    | close hk => exact hs.close hk
    | _ => exact absurd trivial hruns

/-- Nothing is out of order at the start. -/
theorem start {tracker : Tracker} {count : Nat} (h : Tracker.create count = .ok tracker)
    (grain : Nat) : (start tracker grain : Yard κ ε).Orderly where
  coherent := .empty
  within := Tracker.within_create h
  staffed := .empty _
  scheduled := .empty _

/-- What every move of an orderly yard keeps holds after every run. -/
theorem run (hs : s.Orderly) (kept : Yard κ ε → Prop) (moves : List (Move κ)) (hstart : kept s)
    (hmove : ∀ (t t' : Yard κ ε) (move : Move κ), move ∈ moves → t.Orderly → kept t →
      Does t move t' → kept t') : (s.run moves).Orderly ∧ kept (s.run moves) := by
  induction moves generalizing s with
  | nil => exact ⟨hs, hstart⟩
  | cons move rest ih =>
    have hdoes := hs.does_act move
    exact ih (hs.does hdoes) (hmove s _ move List.mem_cons_self hs hstart hdoes)
      fun t t' next hnext => hmove t t' next (List.mem_cons_of_mem move hnext)

theorem orderly_run (hs : s.Orderly) (moves : List (Move κ)) : (s.run moves).Orderly :=
  (hs.run (fun _ => True) moves trivial fun _ _ _ _ _ _ _ => trivial).1

/-- Every move lets the graph grow. -/
theorem grows (hs : s.Orderly) (h : Does s move s') : s.graph.Grows s'.graph := by
  by_cases hruns : move.Runs
  · exact ((h.steps hs hruns).coherent_steady hs.coherent).2.grows
  · cases h with
    | keep | reset | drop _ _ => exact .refl s.graph
    | newBuilder => exact .startBatch s.graph
    | add _ work profile => exact .addNode s.graph work _ profile
    | wire _ _ hwired _ => exact (Graph.Steady.wired hwired).grows
    | execute _ => exact (Graph.Grows.startBatch s.graph).trans (.arm _ _)
    | discard _ _ => exact (Graph.Steady.updateNode _).grows
    | abandon _ => exact (Graph.Grows.startBatch s.graph).trans (.arm _ _)
    | close _ => exact (Graph.Steady.finishOne _ _).grows
    | _ => exact absurd trivial hruns

/-- Batches stay armed. -/
theorem armed (hs : s.Orderly) (h : Does s move s') {b : Nat}
    (hb : (s.graph.batch b).armed = true) : (s'.graph.batch b).armed = true := by
  have hsubmit {i : Nat} {c : Builder} (hi : builderAt s.crews i = some c) (next : Builder → Crew) :
      ((s.submit i c next).graph.batch b).armed = true := by
    have hfresh : c.batch < s.graph.startBatch.1.batches.size := by
      rw [Graph.size_batches_startBatch]
      exact Nat.lt_succ_of_lt (hs.staffed.holds i c hi).batch_lt
    refine (Graph.armed_arm hfresh b).mpr (Or.inr ?_)
    rwa [Graph.armed_startBatch]
  by_cases hruns : move.Runs
  · rwa [((h.steps hs hruns).coherent_steady hs.coherent).2.armed]
  · cases h with
    | keep | reset | drop _ _ | discard _ _ => exact hb
    | newBuilder => exact (Graph.armed_startBatch s.graph b).trans hb
    | add _ _ _ => exact (Graph.field_updateBatch (g := s.graph) Batch.armed b).trans hb
    | wire _ _ hwired _ => exact (congrArg Batch.armed (hwired.batch b)).trans hb
    | execute hi => exact hsubmit (Crew.builderAt_of_adding hi) _
    | abandon hi => exact hsubmit (Crew.builderAt_of_leaving hi) _
    | close _ => exact ((Graph.Steady.finishOne s.graph _).armed b).trans hb
    | _ => exact absurd trivial hruns

/-- A node that is added joins a batch that is not armed. -/
theorem unarmed_of_new (hs : s.Orderly) (h : Does s move s') {n : Nat}
    (hn : s.graph.nodes.size ≤ n) (hnew : n < s'.graph.nodes.size) :
    (s.graph.batch (s'.graph.node n).batch).armed = false := by
  have hnone (hsize : s'.graph.nodes.size = s.graph.nodes.size) :
      (s.graph.batch (s'.graph.node n).batch).armed = false := by omega
  by_cases hruns : move.Runs
  · exact hnone ((h.steps hs hruns).coherent_steady hs.coherent).2.size
  · cases h with
    | keep | reset | drop _ _ | newBuilder | execute _ | abandon _ | close _ => exact hnone rfl
    | @add i b hi work profile =>
      have hb := hs.staffed.holds i b (Crew.builderAt_of_adding hi)
      have hsize : (s.add i b work profile).graph.nodes.size = s.graph.nodes.size + 1 :=
        Graph.size_nodes_addNode (s.graph.register b.batch) work b.batch profile
      obtain rfl : n = s.graph.nodes.size := by omega
      have hnode : ((s.add i b work profile).graph.node s.graph.nodes.size).batch = b.batch :=
        congrArg Node.batch (Graph.node_addNode_self (s.graph.register b.batch) work b.batch profile)
      rw [hnode, hb.unarmed]
    | wire _ _ hwired _ => exact hnone hwired.size
    | discard _ _ => exact hnone (Graph.size_nodes_updateNode ..)
    | _ => exact absurd trivial hruns

/-- Every run lets the graph grow. -/
theorem grows_run (hs : s.Orderly) (moves : List (Move κ)) : s.graph.Grows (s.run moves).graph :=
  (hs.run (fun t => s.graph.Grows t.graph) moves (.refl _)
    fun _ _ _ _ ht hgrows hdoes => hgrows.trans (ht.grows hdoes)).2

end Orderly

end Yard

end HazardFlow
