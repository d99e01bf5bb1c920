import HazardFlow.Proofs.Schedule.Faultless
import HazardFlow.Proofs.Schedule.Sites

/-!
# No graph gets stuck

When all nodes have been submitted and nothing is queued, run or watched any more, every node is
complete and every batch is done. Edges lead from older to newer nodes, so the oldest node that is
not complete waits for nothing; it has been claimed then, and all of its parts have finished. This
rests on the exactness of what is counted: in-degrees, parts, and the nodes of every batch.
-/

namespace HazardFlow

variable {κ ε : Type}

/-- In an exact graph with nothing under way and nothing left to submit, every node is complete. -/
theorem Graph.Exact.isComplete_of_idle {g : Graph κ} {load : NodeId → Nat} (he : g.Exact load [])
    (hs : g.Sound load) (hidle : ∀ n : Nat, load n = 0)
    (harmed : ∀ n : Nat, n < g.nodes.size → g.isArmed n = true) (n : Nat)
    (hn : n < g.nodes.size) : g.isComplete n = true := by
  induction n using Nat.strong_induction_on with
  | _ n ih =>
    cases hclaimed : (g.node n).claimed with
    | true =>
      rw [hs.isComplete_iff, he.parts n hclaimed, hidle]
      rfl
    | false =>
      have hwaits := he.waits n hn (harmed n hn) hclaimed List.not_mem_nil
      have hdegree := he.inDegree n
      obtain ⟨i, hi, hmem⟩ := exists_mem_of_edgeCount_pos (g := g) (m := n) (by omega)
      have hdone := ih i (hs.older i n hmem) hi
      rw [entries_of_isComplete hdone] at hmem
      exact absurd hmem List.not_mem_nil

/-- Nothing is queued, run or watched. -/
structure System.Idle (s : System κ ε) : Prop where
  inbox : s.inbox.waiting = []
  workers : ∀ worker ∈ s.workers.toList,
    worker.queue = [] ∧ worker.running = none ∧ worker.watcher.pending = []

/-- An idle system has no load. -/
theorem System.Idle.load_eq_zero {s : System κ ε} (h : s.Idle) (n : NodeId) : s.load n = 0 := by
  have hworkers : (s.workers.toList.map (·.load n)).sum = 0 := by
    rw [List.sum_eq_zero_iff]
    intro share hshare
    obtain ⟨worker, hmem, rfl⟩ := List.mem_map.mp hshare
    obtain ⟨hqueue, hrunning, hpending⟩ := h.workers worker hmem
    simp [Worker.load, hqueue, hrunning, hpending]
  unfold load
  rw [h.inbox, hworkers]
  rfl

/-- An action whose work, if it adds one, can be taken. -/
def Action.Ordered : Action κ ε → Prop
  | .add _ work _ _ => work.Ordered
  | _ => True

namespace Site

variable {s s' : Site κ ε}

/-- A site is exact when its system is, its batches count right, and builders hold all nodes that
are not submitted. -/
structure Exact (s : Site κ ε) : Prop where
  system : s.system.Exact []
  held : ∀ (i : Nat) (b : Builder), s.builderAt i = some b → s.graph.Tally b.batch 1
  submitted : ∀ c : Nat, c ∈ s.submitted →
    c < s.graph.batches.size ∧ (s.graph.batch c).armed = true ∧ s.graph.Tally c 0
  covered : ∀ n : Nat, n < s.graph.nodes.size → s.graph.isArmed n = false →
    ∃ i b, s.builderAt i = some b ∧ n ∈ b.nodes

/-- A site is exact when its system is and one builder at most was replaced. -/
theorem exact_of_replaced (i : Nat) (hsystem : s'.system.Exact [])
    (hother : ∀ j : Nat, j ≠ i → s'.builderAt j = s.builderAt j)
    (hheld : ∀ (j : Nat) (c : Builder), j ≠ i → s.builderAt j = some c →
      s'.graph.Tally c.batch 1)
    (hself : ∀ b : Builder, s'.builderAt i = some b → s'.graph.Tally b.batch 1)
    (hsubmitted : ∀ c : Nat, c ∈ s'.submitted →
      c < s'.graph.batches.size ∧ (s'.graph.batch c).armed = true ∧ s'.graph.Tally c 0)
    (hcovered : ∀ n : Nat, n < s'.graph.nodes.size → s'.graph.isArmed n = false →
      (∃ b, s'.builderAt i = some b ∧ n ∈ b.nodes) ∨
        ∃ j c, j ≠ i ∧ s.builderAt j = some c ∧ n ∈ c.nodes) : s'.Exact where
  system := hsystem
  held j c hj := by
    by_cases hji : j = i
    · subst hji
      exact hself c hj
    · exact hheld j c hji (by rwa [hother j hji] at hj)
  submitted := hsubmitted
  covered n hn hunarmed := by
    rcases hcovered n hn hunarmed with ⟨b, hb, hmem⟩ | ⟨j, c, hji, hj, hmem⟩
    · exact ⟨i, b, hb, hmem⟩
    · exact ⟨j, c, by rw [hother j hji, hj], hmem⟩

/-- After a builder's batch was submitted, the nodes that are not are those of other builders. -/
theorem Exact.covered_of_submits (h : s.Exact) (hs : s.Sound) {i : Nat} {b : Builder}
    (hi : s.builderAt i = some b) {system : System κ ε}
    (hsubmits : s.system.Submits b.batch system)
    (harmed : (system.graph.batch b.batch).armed = true) {n : Nat}
    (hn : n < system.graph.nodes.size) (hunarmed : system.graph.isArmed n = false) :
    ∃ j c, j ≠ i ∧ s.builderAt j = some c ∧ n ∈ c.nodes := by
  have hn' : n < s.graph.nodes.size := Nat.lt_of_lt_of_eq hn hsubmits.size
  have hbatch : (system.graph.node n).batch = (s.graph.node n).batch :=
    hsubmits.grows.batchOf n hn'
  unfold Graph.isArmed at hunarmed
  rw [hbatch] at hunarmed
  have hne : (s.graph.node n).batch ≠ b.batch := fun heq => by
    rw [heq, harmed] at hunarmed
    cases hunarmed
  have hsame := hsubmits.unarmed _ hne (hs.system.coherent.batch_lt n hn')
  have hbefore : s.graph.isArmed n = false := hsame.symm.trans hunarmed
  obtain ⟨j, c, hj, hmem⟩ := h.covered n hn' hbefore
  refine ⟨j, c, ?_, hj, hmem⟩
  rintro rfl
  obtain rfl := Option.some.inj (hi.symm.trans hj)
  exact hne (((hs.holds j b hi).mem_nodes n).mp hmem).2

/-- A batch that was submitted is not the one that a builder holds. -/
theorem Exact.submitted_ne (h : s.Exact) (hs : s.Sound) {i : Nat} {b : Builder}
    (hi : s.builderAt i = some b) {c : Nat} (hc : c ∈ s.submitted) : c ≠ b.batch := by
  rintro rfl
  have harmed := (h.submitted _ hc).2.1
  rw [(hs.holds i b hi).unarmed] at harmed
  cases harmed

/-- Starting a builder keeps a site exact. -/
theorem Exact.newBuilder (h : s.Exact) (hs : s.Sound) : (s.act .newBuilder).Exact := by
  refine exact_of_replaced s.builders.size (h.system.newBuilder hs.system)
    (fun j hj => builderAt_push_of_ne s _ hj)
    (fun j c _ hj => (h.held j c hj).startBatch (hs.holds j c hj).batch_lt) (fun b hb => ?_)
    (fun c hc => ?_) fun n hn hunarmed => ?_
  · obtain rfl := Option.some.inj ((builderAt_push_self s _).symm.trans hb)
    exact Graph.Tally.startBatch_self hs.system.coherent
  · obtain ⟨hlt, harmed, htally⟩ := h.submitted c hc
    have hbatch : (s.act .newBuilder).graph.batch c = s.graph.batch c :=
      Graph.batch_startBatch_of_lt hlt
    refine ⟨?_, by rw [hbatch, harmed], htally.startBatch hlt⟩
    exact Nat.lt_of_lt_of_le hlt (Graph.Grows.startBatch s.graph).batches
  · right
    have hbatch : s.graph.startBatch.1.batch (s.graph.node n).batch =
        s.graph.batch (s.graph.node n).batch :=
      Graph.batch_startBatch_of_lt (hs.system.coherent.batch_lt n hn)
    have hbefore : s.graph.isArmed n = false :=
      (congrArg Batch.armed hbatch).symm.trans hunarmed
    obtain ⟨j, c, hj, hmem⟩ := h.covered n hn hbefore
    refine ⟨j, c, ?_, hj, hmem⟩
    rintro rfl
    unfold builderAt at hj
    rw [Array.getElem?_eq_none (Nat.le_refl _)] at hj
    cases hj

/-- Adding a node whose work can be taken keeps a site exact. -/
theorem Exact.add (h : s.Exact) (hs : s.Sound) {i : Nat} {b : Builder} {work : Work κ}
    {access : Access} {profile : Option Profile} {sources : List NodeId} {system : System κ ε}
    (hi : s.builderAt i = some b)
    (hadded : s.system.Added b work access profile sources system) (hwork : work.Ordered) :
    Exact { s with
      system
      builders := s.builders.setIfInBounds i
        (some { b with nodes := b.nodes ++ [s.graph.nodes.size] })
      declared := s.declared.push access } := by
  have hb := hs.holds i b hi
  have hself := builderAt_setIfInBounds_self hi
    (some { b with nodes := b.nodes ++ [s.graph.nodes.size] })
  refine exact_of_replaced i (hadded.exact hb h.system hwork)
    (fun j hj => builderAt_setIfInBounds_of_ne s _ hj)
    (fun j c hj hc => hadded.tally_other (hs.apart j i c b hc hi hj) (h.held j c hc))
    (fun c hc => ?_) (fun c hc => ?_) fun n hn hunarmed => ?_
  · obtain rfl := Option.some.inj (hself.symm.trans hc)
    exact hadded.tally_self hb (h.held i b hi)
  · obtain ⟨hlt, harmed, htally⟩ := h.submitted c hc
    refine ⟨?_, ?_, hadded.tally_other (h.submitted_ne hs hi hc) htally⟩
    · change c < system.graph.batches.size
      rw [hadded.batches]
      exact hlt
    · change (system.graph.batch c).armed = true
      rw [hadded.armed]
      exact harmed
  · by_cases hnew : n = s.graph.nodes.size
    · exact Or.inl ⟨_, hself, List.mem_append_right _ (List.mem_singleton.mpr hnew)⟩
    · have hold : n < s.graph.nodes.size := by
        have hsize : n < s.graph.nodes.size + 1 := Nat.lt_of_lt_of_eq hn hadded.size
        omega
      have hbefore : s.graph.isArmed n = false := by
        change system.graph.isArmed n = false at hunarmed
        unfold Graph.isArmed at hunarmed
        rwa [hadded.grows.batchOf n hold, hadded.armed] at hunarmed
      obtain ⟨j, c, hj, hmem⟩ := h.covered n hold hbefore
      by_cases hji : j = i
      · subst hji
        obtain rfl := Option.some.inj (hi.symm.trans hj)
        exact Or.inl ⟨_, hself, List.mem_append_left _ hmem⟩
      · exact Or.inr ⟨j, c, hji, hj, hmem⟩

/-- Executing a builder keeps a site exact. -/
theorem Exact.execute (h : s.Exact) (hs : s.Sound) {i : Nat} {b : Builder}
    (hi : s.builderAt i = some b) : (s.execute i b).Exact := by
  have hb := hs.holds i b hi
  obtain ⟨system, hexecute, hexactly⟩ := System.exists_execute hs.system hb h.system
  have hsubmits := (System.submits_execute hs.system hb).1
  have hsite : s.execute i b = { s with
      system
      builders := s.builders.setIfInBounds i (some s.system.newBuilder.2)
      submitted := b.batch :: s.submitted } := by
    unfold Site.execute
    rw [hexecute]
    rfl
  rw [hexecute] at hsubmits
  rw [hsite]
  refine exact_of_replaced i hexactly.exact (fun j hj => builderAt_setIfInBounds_of_ne s _ hj)
    (fun j c hj hc => ?_) (fun c hc => ?_) (fun c hc => ?_) fun n hn hunarmed => Or.inr ?_
  · exact hexactly.tally c.batch 1 (hs.apart j i c b hc hi hj)
      ((h.held j c hc).startBatch (hs.holds j c hc).batch_lt)
  · obtain rfl := Option.some.inj ((builderAt_setIfInBounds_self hi _).symm.trans hc)
    exact hexactly.tally _ 1 (Nat.ne_of_gt hb.batch_lt) (Graph.Tally.startBatch_self hs.system.coherent)
  · rcases List.mem_cons.mp hc with rfl | hold
    · exact ⟨Nat.lt_of_lt_of_le hb.batch_lt hsubmits.grows.batches, hexactly.armed,
        hexactly.tally_self ((h.held i b hi).startBatch hb.batch_lt)⟩
    · obtain ⟨hlt, harmed, htally⟩ := h.submitted c hold
      have hne := h.submitted_ne hs hi hold
      exact ⟨Nat.lt_of_lt_of_le hlt hsubmits.grows.batches,
        (hsubmits.unarmed c hne hlt).trans harmed, hexactly.tally c 0 hne (htally.startBatch hlt)⟩
  · exact h.covered_of_submits hs hi hsubmits hexactly.armed hn hunarmed

/-- Dropping a builder keeps a site exact when the submission of its nodes leaves an exact
system. -/
theorem Exact.drop_of_submits (h : s.Exact) (hs : s.Sound) {i : Nat} {b : Builder}
    (hi : s.builderAt i = some b) {system : System κ ε}
    (hdrop : (s.system.dropBuilder b).state = system) (hexact : system.Exact [])
    (htally : ∀ c held : Nat, c ≠ b.batch → c < s.graph.batches.size → s.graph.Tally c held →
      system.graph.Tally c held)
    (hcovered : ∀ n : Nat, n < system.graph.nodes.size → system.graph.isArmed n = false →
      ∃ j c, j ≠ i ∧ s.builderAt j = some c ∧ n ∈ c.nodes) : (s.drop i b).Exact := by
  have hsubmits := System.submits_dropBuilder hs.system (hs.holds i b hi)
  have hsite : s.drop i b = { s with
      system
      builders := s.builders.setIfInBounds i none
      discarded := b.nodes ++ s.discarded } := by
    unfold Site.drop
    rw [hdrop]
  rw [hdrop] at hsubmits
  rw [hsite]
  refine exact_of_replaced i hexact (fun j hj => builderAt_setIfInBounds_of_ne s _ hj)
    (fun j c hj hc => htally c.batch 1 (hs.apart j i c b hc hi hj) (hs.holds j c hc).batch_lt
      (h.held j c hc)) (fun c hc => ?_) (fun c hc => ?_)
    fun n hn hunarmed => Or.inr (hcovered n hn hunarmed)
  · exact absurd ((builderAt_setIfInBounds_self hi none).symm.trans hc) nofun
  · obtain ⟨hlt, harmed, hcount⟩ := h.submitted c hc
    have hne := h.submitted_ne hs hi hc
    exact ⟨Nat.lt_of_lt_of_le hlt hsubmits.grows.batches,
      (hsubmits.unarmed c hne hlt).trans harmed, htally c 0 hne hlt hcount⟩

/-- Dropping a builder keeps a site exact. -/
theorem Exact.drop (h : s.Exact) (hs : s.Sound) {i : Nat} {b : Builder}
    (hi : s.builderAt i = some b) : (s.drop i b).Exact := by
  have hb := hs.holds i b hi
  have hsubmits := System.submits_dropBuilder hs.system hb
  by_cases hnodes : b.nodes = []
  · have hdrop : (s.system.dropBuilder b).state = s.system := by
      unfold System.dropBuilder
      rw [hnodes]
      rfl
    refine h.drop_of_submits hs hi hdrop h.system (fun _ _ _ _ ht => ht) fun n hn hunarmed => ?_
    obtain ⟨j, c, hj, hmem⟩ := h.covered n hn hunarmed
    refine ⟨j, c, ?_, hj, hmem⟩
    rintro rfl
    obtain rfl := Option.some.inj (hi.symm.trans hj)
    rw [hnodes] at hmem
    exact absurd hmem List.not_mem_nil
  · obtain ⟨system, hdrop, hexact, harmed, htally⟩ :=
      System.exists_dropBuilder hs.system hb h.system hnodes
    rw [hdrop] at hsubmits
    exact h.drop_of_submits hs hi (by rw [hdrop]; rfl) hexact htally fun n hn hunarmed =>
      h.covered_of_submits hs hi hsubmits harmed hn hunarmed

/-- A step of a worker keeps a site exact. -/
theorem Exact.go (h : s.Exact) (hs : s.Sound) {system : System κ ε}
    (hgoes : s.system.Goes system) : Exact { s with system } := by
  have hran := System.RanExactly.of_goes hs.system h.system hgoes
  have hsteady := hran.ran.steady
  refine ⟨hran.exact, fun i b hi => hran.tally b.batch 1 (h.held i b hi), fun c hc => ?_,
    fun n hn hunarmed => h.covered n (Nat.lt_of_lt_of_eq hn hsteady.size) ?_⟩
  · obtain ⟨hlt, harmed, htally⟩ := h.submitted c hc
    exact ⟨Nat.lt_of_lt_of_eq hlt hsteady.batches.symm, (hsteady.armed c).trans harmed,
      hran.tally c 0 htally⟩
  · exact (hsteady.isArmed n).symm.trans hunarmed

/-- Every action keeps a site exact, when the works that it adds can be taken. -/
theorem Exact.does (h : s.Exact) (hs : s.Sound) {a : Action κ ε} (hdoes : Does s a s')
    (ha : a.Ordered) : s'.Exact := by
  cases hdoes with
  | keep => exact h
  | newBuilder => exact h.newBuilder hs
  | add hi _ hadded => exact h.add hs hi hadded ha
  | execute hi => exact h.execute hs hi
  | drop hi => exact h.drop hs hi
  | reset => exact ⟨⟨h.system.graph, h.system.grain⟩, h.held, h.submitted, h.covered⟩
  | go hgoes => exact h.go hs hgoes

/-- A run whose works can be taken keeps a site exact. -/
theorem Exact.run (h : s.Exact) (hs : s.Sound) {actions : List (Action κ ε)}
    (hordered : ∀ a ∈ actions, a.Ordered) : (s.run actions).Exact := by
  induction actions generalizing s with
  | nil => exact h
  | cons a rest ih =>
    have hdoes := does_act hs a
    exact ih (h.does hs hdoes (hordered a List.mem_cons_self)) (hs.does hdoes)
      fun b hb => hordered b (List.mem_cons_of_mem a hb)

/-- A site at which nothing has happened yet is exact, if its grain is not zero. -/
theorem exact_start (tracker : Tracker) (workers cap : Nat) {grain : Nat} (hgrain : 0 < grain) :
    (start tracker workers grain cap : Site κ ε).Exact where
  system := by
    have hempty := Graph.Exact.empty (κ := κ)
    rw [← load_start (ε := ε) tracker workers grain cap] at hempty
    exact ⟨hempty, hgrain⟩
  held _ _ hi := by simp [builderAt, start] at hi
  submitted _ hc := absurd hc List.not_mem_nil
  covered _ hn := absurd hn (Nat.not_lt_zero _)

/-- In every run, also one that resets the tracker, once all nodes are submitted and nothing is
queued, run or watched, every node is complete and every submitted batch is done. -/
theorem complete_of_idle {tracker : Tracker} {count workers grain cap : Nat}
    {actions : List (Action κ ε)} (htracker : Tracker.create count = .ok tracker)
    (hgrain : 0 < grain) (hordered : ∀ a ∈ actions, a.Ordered)
    (hrun : (start tracker workers grain cap).run actions = s)
    (hbuilders : ∀ (i : Nat) (b : Builder), s.builderAt i = some b → b.nodes = [])
    (hidle : s.system.Idle) :
    (∀ n : Nat, n < s.graph.nodes.size → s.graph.isComplete n = true) ∧
      ∀ b : Nat, b ∈ s.submitted → (s.graph.batch b).done = true := by
  have hstart : (start tracker workers grain cap : Site κ ε).Sound :=
    sound_start htracker workers grain cap
  have hsound := hstart.run actions
  have hexact := (exact_start tracker workers cap hgrain).run hstart hordered
  rw [hrun] at hsound hexact
  have harmed : ∀ n : Nat, n < s.graph.nodes.size → s.graph.isArmed n = true := fun n hn => by
    by_contra hunarmed
    rw [Bool.not_eq_true] at hunarmed
    obtain ⟨i, b, hi, hmem⟩ := hexact.covered n hn hunarmed
    rw [hbuilders i b hi] at hmem
    exact absurd hmem List.not_mem_nil
  have hcomplete : ∀ n : Nat, n < s.graph.nodes.size → s.graph.isComplete n = true :=
    hexact.system.graph.isComplete_of_idle hsound.system hidle.load_eq_zero harmed
  exact ⟨hcomplete, fun b hb => (hexact.submitted b hb).2.2.done_of_outstanding
    (Graph.outstanding_eq_zero_iff.mpr fun n hn _ => hcomplete n hn)⟩

/-- A range is split, one half stops with a fault, the other answers an event, and a reader of what
they write runs after them. The tracker is reset on the way. -/
def splitRange : Site Unit Unit :=
  (start { shards := #[{}] } 1 2 0).run
    [.newBuilder, .add 0 (.range ⟨0, 8⟩ ()) { writes := [0] } none,
      .add 0 (.host ()) { reads := [0], deps := [0, 0] } none, .reset, .execute 0,
      .take 0 .inbox 0 true, .conclude 0 .stopped, .take 0 (.queue 0) 0 false,
      .conclude 0 (.event ()), .settle 0 0, .take 0 (.queue 0) 0 false, .conclude 0 .finished]

/-- Both nodes are complete and their batch is done. -/
theorem complete_of_idle_splitRange :
    (∀ n : Nat, n < splitRange.graph.nodes.size → splitRange.graph.isComplete n = true) ∧
      (∀ b : Nat, b ∈ splitRange.submitted → (splitRange.graph.batch b).done = true) ∧
      splitRange.graph.nodes.size = 2 ∧ splitRange.submitted = [0] := by
  have htracker : Tracker.create 1 = .ok { shards := #[{}] } := rfl
  have hlist : splitRange.builders = #[some { batch := 1 }] := by decide +kernel
  have hbuilders : ∀ (i : Nat) (b : Builder), splitRange.builderAt i = some b → b.nodes = [] := by
    intro i b hi
    unfold builderAt at hi
    rw [hlist] at hi
    cases i with
    | zero =>
      cases hi
      rfl
    | succ i => simp at hi
  have hidle : splitRange.system.Idle := by
    refine ⟨rfl, fun worker hworker => ?_⟩
    have hone : splitRange.system.workers.toList = [{ watcher := { cap := 0 } }] := rfl
    rw [hone, List.mem_singleton] at hworker
    rw [hworker]
    exact ⟨rfl, rfl, rfl⟩
  have hcomplete := complete_of_idle htracker Nat.two_pos
    (by simp [Action.Ordered, Work.Ordered]) rfl hbuilders hidle
  exact ⟨hcomplete.1, hcomplete.2, by decide +kernel, by decide +kernel⟩

end Site

end HazardFlow
