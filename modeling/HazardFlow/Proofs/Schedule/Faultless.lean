import HazardFlow.Proofs.Graph.Exactness
import HazardFlow.Proofs.Graph.Tally
import HazardFlow.Proofs.Schedule.Submitting

/-!
# Systems without faults

A system whose graph is exact meets no fault: its works can be taken, so every node that becomes
ready is handed on. Steps and submissions keep a system exact and let its batches count right.
-/

namespace HazardFlow

variable {κ ε : Type}

namespace Graph

variable {grain : Nat} {g g' : Graph κ} {load load' : NodeId → Nat} {due : List NodeId}

/-- A node that nobody has claimed can be handed on after its claim. -/
theorem Exact.exists_handJob (h : g.Exact load due) (hgrain : 0 < grain) {n : Nat}
    (hn : n < g.nodes.size) (hunclaimed : (g.node n).claimed = false) :
    ∃ job, (handJob grain (g.claim n).1 n).result = .ok job := by
  obtain ⟨work, hwork, hordered⟩ := h.stocked n hn hunclaimed
  have hkept : ((g.claim n).1.node n).work = some work := by
    rw [← hwork]
    exact field_updateNode Node.work n
  obtain ⟨job, hjob⟩ := exists_takeJob hgrain hkept hordered
  refine ⟨job, ?_⟩
  unfold handJob
  rw [hjob]
  rfl

/-- A step keeps an exact graph exact. -/
theorem Step.exact (h : Step grain g load g' load') (hgrain : 0 < grain) (hs : g.Coherent load)
    (he : g.Exact load due) : g'.Exact load' due := by
  have hhand := faithful_handJob (κ := κ) grain
  cases h with
  | split hn => exact he.splitPart hs hn
  | finish hn hfault => exact he.finishPart hs hhand hn hfault
  | die hn hfault _ => exact absurd (fault_finishPart hgrain hs he.stocked hn) hfault
  | @dispatch n _ hn _ _ hunclaimed _ =>
    refine (he.claim hs hn hunclaimed).hand hhand ?_
    rw [claim, node_updateNode_self _ hn]
  | stall hn _ _ hunclaimed hjob =>
    obtain ⟨job, hok⟩ := he.exists_handJob hgrain hn hunclaimed
    rw [hok] at hjob
    cases hjob

/-- A step of an exact graph lets every batch count right. -/
theorem Step.tally (h : Step grain g load g' load') (hgrain : 0 < grain) (hs : g.Coherent load)
    (he : g.Exact load due) {b held : Nat} (ht : g.Tally b held) : g'.Tally b held := by
  have hhand := faithful_handJob (κ := κ) grain
  cases h with
  | split _ => exact ht.updateNode _
  | finish hn hfault => exact ht.finishPart hs hhand hn hfault
  | die hn hfault _ => exact absurd (fault_finishPart hgrain hs he.stocked hn) hfault
  | dispatch _ _ _ _ _ => exact (ht.claim _).hand hhand _
  | stall _ _ _ _ _ => exact (ht.claim _).hand hhand _

/-- Steps keep an exact graph exact and let every batch count right. -/
theorem Steps.exact (h : Steps grain g load g' load') (hgrain : 0 < grain) (hs : g.Coherent load)
    (he : g.Exact load due) :
    g'.Exact load' due ∧ ∀ b held : Nat, g.Tally b held → g'.Tally b held := by
  induction h with
  | refl => exact ⟨he, fun _ _ ht => ht⟩
  | tail hbefore hlast ih =>
    have hs' := (hbefore.coherent_steady hs).1
    exact ⟨hlast.exact hgrain hs' ih.1,
      fun b held ht => hlast.tally hgrain hs' ih.1 (ih.2 b held ht)⟩

end Graph

namespace System

variable {s s' s'' : System κ ε} {b : Builder}

/-- A system is exact when its graph is and its grain is not zero. -/
structure Exact (s : System κ ε) (due : List NodeId) : Prop where
  graph : s.graph.Exact s.load due
  grain : 0 < s.grain

/-- One system ran on to an exact one without a fault. -/
structure RanExactly (s : System κ ε) (due : List NodeId) (s' : System κ ε) : Prop where
  ran : s.Ran s'
  exact : s'.Exact due
  tally : ∀ b held : Nat, s.graph.Tally b held → s'.graph.Tally b held

/-- A step lets an exact system run on to an exact one. -/
theorem RanExactly.of_goes {due : List NodeId} (hs : s.Sound) (he : s.Exact due)
    (h : s.Goes s') : s.RanExactly due s' where
  ran := .of_goes hs h
  exact := ⟨(h.steps.exact he.grain hs.coherent he.graph).1, by rw [h.grain]; exact he.grain⟩
  tally := (h.steps.exact he.grain hs.coherent he.graph).2

theorem RanExactly.trans {due due' : List NodeId} (h : s.RanExactly due s')
    (h' : s'.RanExactly due' s'') : s.RanExactly due' s'' where
  ran := h.ran.trans h'.ran
  exact := h'.exact
  tally b held ht := h'.tally b held (h.tally b held ht)

/-- Dispatching a node that is due meets no fault. -/
theorem exists_dispatch {n : Nat} {rest : List NodeId} (hs : s.Sound) (he : s.Exact (n :: rest))
    (hn : n < s.graph.nodes.size) (harmed : s.graph.isArmed n = true) :
    ∃ s' dispatched, s.dispatch n = .pure s' dispatched ∧ s.RanExactly rest s' := by
  have hgoes := goes_dispatch hn harmed
  have hran := RanExactly.of_goes hs he hgoes
  have hdone : (s.dispatch n).state.Exact (n :: rest) := hran.exact
  have hdispatched := dispatched_dispatch s n
  generalize s.dispatch n = outcome at hdispatched hran hdone ⊢
  -- Afterwards the node has been claimed or waits for something, so that it is no longer due.
  have hsettled : ((outcome.state.graph.node n).claimed = true ∨
      (outcome.state.graph.node n).inDegree ≠ 0) → outcome.state.Exact rest := fun hsettled => by
    refine ⟨hdone.graph.of_due fun m hm hnot => ?_, hdone.grain⟩
    rcases List.mem_cons.mp hm with rfl | hrest
    · exact hsettled
    · exact absurd hrest hnot
  cases hdispatched with
  | skip h => exact ⟨s, false, rfl, hran.ran, hsettled h.symm, hran.tally⟩
  | put hfree hunclaimed hjob =>
    refine ⟨_, true, rfl, hran.ran, hsettled (Or.inl ?_), hran.tally⟩
    have hclaim : ((s.graph.claim n).1.node n).claimed = true := by
      rw [Graph.claim, Graph.node_updateNode_self _ hn]
    exact (Graph.Steady.hand (Graph.faithful_handJob s.grain) _ n).claimed n hclaim
  | stall hfree hunclaimed hjob =>
    obtain ⟨job, hok⟩ := he.graph.exists_handJob he.grain hn hunclaimed
    rw [hok] at hjob
    cases hjob

/-- Dispatching all nodes that are due meets no fault, and leaves none due. -/
theorem exists_dispatchAll {l : List NodeId} (hs : s.Sound) (he : s.Exact l)
    (hl : ∀ n : Nat, n ∈ l → n < s.graph.nodes.size ∧ s.graph.isArmed n = true) :
    ∃ s' count, s.dispatchAll l = .pure s' count ∧ s.RanExactly [] s' := by
  induction l generalizing s with
  | nil => exact ⟨s, 0, rfl, .refl hs, he, fun _ _ ht => ht⟩
  | cons n rest ih =>
    obtain ⟨hn, harmed⟩ := hl n (by simp)
    obtain ⟨s₁, dispatched, hdispatch, hfirst⟩ := exists_dispatch hs he hn harmed
    have hrest : ∀ m : Nat, m ∈ rest →
        m < s₁.graph.nodes.size ∧ s₁.graph.isArmed m = true := fun m hm => by
      rw [hfirst.ran.steady.size, hfirst.ran.steady.isArmed]
      exact hl m (by simp [hm])
    obtain ⟨s₂, count, hall, hlater⟩ := ih hfirst.ran.sound hfirst.exact hrest
    refine ⟨s₂, count + dispatched.toNat, ?_, hfirst.trans hlater⟩
    unfold dispatchAll
    rw [hdispatch, Outcome.bind_pure, hall]
    rfl

/-- A batch has been submitted without a fault: it is armed, no longer counts its submission, and
the batches of others count as before. -/
structure SubmitsExactly (s : System κ ε) (b : BatchId) (s' : System κ ε) : Prop where
  exact : s'.Exact []
  armed : (s'.graph.batch b).armed = true
  tally : ∀ c held : Nat, c ≠ b → s.graph.Tally c held → s'.graph.Tally c held
  tally_self : s.graph.Tally b 1 → s'.graph.Tally b 0

/-- Submitting a batch meets no fault. -/
theorem exists_submit (hs : s.Sound) (hb : b.Holds s.graph) (he : s.Exact []) :
    ∃ s' roots, s.submit b = .pure s' roots ∧ s.SubmitsExactly b.batch s' := by
  set armed : System κ ε := { s with graph := s.graph.arm b.batch } with harmed
  have harm : s.Submits b.batch armed := .arm hs
  have hexact : armed.Exact b.nodes :=
    ⟨he.graph.arm fun n hn hbatch => (hb.mem_nodes n).mpr ⟨hn, hbatch⟩, he.grain⟩
  obtain ⟨s₁, roots, hall, hran⟩ := exists_dispatchAll harm.sound hexact fun n hn =>
    hb.isArmed_arm hn
  have hbatches : s₁.graph.batches.size = s.graph.batches.size := by
    rw [hran.ran.steady.batches]
    exact Graph.size_batches_updateBatch ..
  have hlt : b.batch < s₁.graph.batches.size := by
    rw [hbatches]
    exact hb.batch_lt
  have hflag : (s₁.graph.batch b.batch).armed = true := by
    rw [hran.ran.steady.armed]
    change ((s.graph.arm b.batch).batch b.batch).armed = true
    unfold Graph.arm
    rw [Graph.batch_updateBatch_self _ hb.batch_lt]
  refine ⟨{ s₁ with graph := s₁.graph.finishOne b.batch }, roots, ?_, ?_, ?_, ?_, ?_⟩
  · unfold submit
    rw [← harmed, hall]
    rfl
  · exact ⟨hran.exact.graph.finishOne b.batch, hran.exact.grain⟩
  · have hkept : ((s₁.graph.finishOne b.batch).batch b.batch).armed =
        (s₁.graph.batch b.batch).armed := Graph.field_updateBatch Batch.armed b.batch
    exact hkept.trans hflag
  · intro c held hne ht
    exact (hran.tally c held (ht.arm b.batch)).finishOne_of_ne (Ne.symm hne)
  · intro ht
    exact (hran.tally b.batch 1 (ht.arm b.batch)).finishOne_self hlt

/-- Starting a builder keeps a system exact. -/
theorem Exact.newBuilder (he : s.Exact []) (hs : s.Sound) : s.newBuilder.1.Exact [] :=
  ⟨he.graph.startBatch hs.coherent, he.grain⟩

/-- Executing a builder meets no fault. -/
theorem exists_execute (hs : s.Sound) (hb : b.Holds s.graph) (he : s.Exact []) :
    ∃ s', s.execute b = .pure (s', s.newBuilder.2) b.batch ∧
      s.newBuilder.1.SubmitsExactly b.batch s' := by
  have hnew : s.Submits b.batch s.newBuilder.1 := .newBuilder hs
  obtain ⟨s', roots, hsubmit, hexactly⟩ :=
    exists_submit hnew.sound hb.startBatch (he.newBuilder hs)
  have hpair : s.newBuilder = (s.newBuilder.1, s.newBuilder.2) := rfl
  refine ⟨s'.report .debug "graph generation submitted"
    [("nodes", .number b.nodes.length), ("roots", .number roots)], ?_,
    ⟨⟨hexactly.exact.graph, hexactly.exact.grain⟩, hexactly.armed, hexactly.tally,
      hexactly.tally_self⟩⟩
  unfold execute
  rw [hpair]
  dsimp only
  rw [hsubmit]
  rfl

/-- Discarding the work of a node lets a system run on to an exact one. -/
theorem RanExactly.discard (h : s.RanExactly [] s') (n : Nat) : s.RanExactly []
    { s' with graph := s'.graph.updateNode n ({ · with work := some .idle }) } where
  ran := h.ran.discard n
  exact := ⟨h.exact.graph.setWork n fun _ => ⟨.idle, rfl, trivial⟩, h.exact.grain⟩
  tally b held ht := (h.tally b held ht).updateNode n

/-- Dropping a builder with nodes meets no fault. -/
theorem exists_dropBuilder (hs : s.Sound) (hb : b.Holds s.graph) (he : s.Exact [])
    (hnodes : b.nodes ≠ []) :
    ∃ s', s.dropBuilder b = .pure s' () ∧ s'.Exact [] ∧
      (s'.graph.batch b.batch).armed = true ∧
      ∀ c held : Nat, c ≠ b.batch → c < s.graph.batches.size → s.graph.Tally c held →
        s'.graph.Tally c held := by
  have hreport : s.Ran (s.reportDrop b) := .report hs ..
  have hreported := hb.steady hreport.steady
  have hsame : (s.reportDrop b).RanExactly [] (s.reportDrop b) :=
    ⟨.refl hreport.sound, ⟨he.graph, he.grain⟩, fun _ _ ht => ht⟩
  obtain ⟨s₁, hdiscard, hran⟩ := exists_discardAll (P := (s.reportDrop b).RanExactly [])
    (fun n hn => hreported.isArmed hn) (fun t n ht => ht.discard n) hsame
  have hheld := (hreported.steady hran.ran.steady).startBatch
  have hnew : s₁.Submits b.batch s₁.newBuilder.1 := .newBuilder hran.ran.sound
  obtain ⟨s₂, roots, hsubmit, hexactly⟩ :=
    exists_submit hnew.sound hheld (hran.exact.newBuilder hran.ran.sound)
  refine ⟨s₂.report .debug "graph generation submitted" [("nodes", .number b.nodes.length)], ?_,
    ⟨hexactly.exact.graph, hexactly.exact.grain⟩, hexactly.armed, fun c held hne hlt ht => ?_⟩
  · unfold dropBuilder
    rw [if_neg (by simpa using hnodes)]
    dsimp only
    rw [← reportDrop, hdiscard, Outcome.bind_pure]
    rw [hsubmit]
    rfl
  · have hlt' : c < s₁.graph.batches.size := by
      rw [hran.ran.steady.batches]
      exact hlt
    exact hexactly.tally c held hne ((hran.tally c held ht).startBatch hlt')

namespace Added

variable {work : Work κ} {access : Access} {profile : Option Profile} {sources : List NodeId}

/-- Adding a node whose work can be taken keeps a system exact. -/
theorem exact (h : s.Added b work access profile sources s') (hb : b.Holds s.graph)
    (he : s.Exact []) (hwork : work.Ordered) : s'.Exact [] where
  graph := by
    rw [h.load]
    exact (he.graph.addNode hwork hb.unarmed profile).wired h.resolved.wired
      (Graph.isArmed_addNode_self hb.unarmed work profile)
  grain := by
    rw [h.grain]
    exact he.grain

/-- The batch of the new node counts it. -/
theorem tally_self (h : s.Added b work access profile sources s') (hb : b.Holds s.graph)
    (ht : s.graph.Tally b.batch 1) : s'.graph.Tally b.batch 1 :=
  (ht.addNode_self hb.batch_lt work profile).wired h.resolved.wired

/-- The other batches count as before. -/
theorem tally_other (h : s.Added b work access profile sources s') {c held : Nat}
    (hne : c ≠ b.batch) (ht : s.graph.Tally c held) : s'.graph.Tally c held :=
  (ht.addNode_of_ne (Ne.symm hne) work profile).wired h.resolved.wired

end Added

end System

end HazardFlow
