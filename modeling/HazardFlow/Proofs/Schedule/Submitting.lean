import HazardFlow.Proofs.Schedule.Dispatching
import HazardFlow.Proofs.Schedule.Holding
import HazardFlow.Proofs.Tracker.Wire

/-!
# What builders do

The actions of a builder keep a system sound and leave the batches of other builders alone.
-/

namespace HazardFlow

variable {κ ε : Type}

namespace System

variable {s s' s'' : System κ ε} {b c : Builder}

/-- One system came from another by actions that add no node and arm at most one batch of those
that were there. -/
structure Submits (s : System κ ε) (armed : BatchId) (s' : System κ ε) : Prop where
  sound : s'.Sound
  grows : s.graph.Grows s'.graph
  size : s'.graph.nodes.size = s.graph.nodes.size
  unarmed : ∀ b : Nat, b ≠ armed → b < s.graph.batches.size →
    (s'.graph.batch b).armed = (s.graph.batch b).armed
  tracker : s'.tracker = s.tracker
  grain : s'.grain = s.grain

namespace Submits

variable {armed : BatchId}

theorem trans (h : s.Submits armed s') (h' : s'.Submits armed s'') : s.Submits armed s'' where
  sound := h'.sound
  grows := h.grows.trans h'.grows
  size := h'.size.trans h.size
  unarmed b hb hlt := by
    have hlt' : b < s'.graph.batches.size := Nat.lt_of_lt_of_le hlt h.grows.batches
    rw [h'.unarmed b hb hlt', h.unarmed b hb hlt]
  tracker := h'.tracker.trans h.tracker
  grain := h'.grain.trans h.grain

/-- Running on arms nothing. -/
theorem of_ran (h : s.Ran s') : s.Submits armed s' where
  sound := h.sound
  grows := h.steady.grows
  size := h.steady.size
  unarmed b _ _ := h.steady.armed b
  tracker := h.tracker
  grain := h.grain

/-- A new builder has a batch of its own. -/
theorem newBuilder (hs : s.Sound) : s.Submits armed s.newBuilder.1 where
  sound := Graph.Sound.startBatch hs
  grows := .startBatch s.graph
  size := rfl
  unarmed b _ hlt := by
    unfold System.newBuilder
    rw [Graph.batch_startBatch_of_lt hlt]
  tracker := rfl
  grain := rfl

theorem arm (hs : s.Sound) : s.Submits armed { s with graph := s.graph.arm armed } where
  sound := Graph.Sound.arm hs armed
  grows := .arm s.graph armed
  size := rfl
  unarmed b hb _ := by
    unfold Graph.arm
    rw [Graph.batch_updateBatch_of_ne _ (Ne.symm hb)]
  tracker := rfl
  grain := rfl

end Submits

/-- A builder goes on to hold its batch while another one is submitted. -/
theorem Submits.holds {armed : BatchId} (h : s.Submits armed s') (hc : c.Holds s.graph)
    (hne : c.batch ≠ armed) : c.Holds s'.graph where
  batch_lt := Nat.lt_of_lt_of_le hc.batch_lt h.grows.batches
  unarmed := by rw [h.unarmed c.batch hne hc.batch_lt, hc.unarmed]
  mem_nodes n := by
    rw [hc.mem_nodes, h.size]
    constructor
    · rintro ⟨hn, hbatch⟩
      exact ⟨hn, by rw [h.grows.batchOf n hn, hbatch]⟩
    · rintro ⟨hn, hbatch⟩
      exact ⟨hn, by rw [← h.grows.batchOf n hn, hbatch]⟩

/-- A new builder holds its batch, which has no nodes yet. -/
theorem holds_newBuilder (hs : s.Sound) : s.newBuilder.2.Holds s.newBuilder.1.graph :=
  .startBatch_self hs.coherent

/-- Submitting a builder's batch arms no other one. -/
theorem submits_submit (hs : s.Sound) (hb : b.Holds s.graph) :
    s.Submits b.batch (s.submit b).state := by
  have harm : s.Submits b.batch { s with graph := s.graph.arm b.batch } := .arm hs
  have hran := ran_dispatchAll harm.sound fun n hn => hb.isArmed_arm hn
  have hboth := harm.trans (.of_ran hran)
  unfold submit Outcome.bind
  split
  · exact hboth.trans (.of_ran ⟨Graph.Sound.finishOne hran.sound b.batch,
      .finishOne _ b.batch, rfl, rfl⟩)
  · exact hboth

/-- Reporting something lets a sound system run on. -/
theorem Ran.report (hs : s.Sound) (level : LogLevel) (message : String)
    (fields : List (String × LogValue)) : s.Ran (s.report level message fields) :=
  ⟨hs, .refl _, rfl, rfl⟩

/-- Executing a builder submits its batch and leaves it with a new one. -/
theorem submits_execute (hs : s.Sound) (hb : b.Holds s.graph) :
    s.Submits b.batch (s.execute b).state.1 ∧ (s.execute b).state.2 = s.newBuilder.2 ∧
      s.newBuilder.2.Holds (s.execute b).state.1.graph := by
  have hnew : s.Submits b.batch s.newBuilder.1 := .newBuilder hs
  have hsubmit := submits_submit hnew.sound hb.startBatch
  have hafter : s.newBuilder.1.Submits b.batch (s.execute b).state.1 := by
    unfold execute Outcome.bind
    dsimp only [Outcome.state_lift]
    split
    · exact hsubmit.trans (.of_ran (.report hsubmit.sound ..))
    · exact hsubmit
  exact ⟨hnew.trans hafter, rfl,
    hafter.holds (holds_newBuilder hs) (Nat.ne_of_gt hb.batch_lt)⟩

/-- The work of nodes that are not submitted can be discarded. What each single discard keeps holds
afterwards. -/
theorem exists_discardAll {P : System κ ε → Prop} {l : List NodeId}
    (hl : ∀ n : Nat, n ∈ l → s.graph.isArmed n = false)
    (hstep : ∀ (t : System κ ε) (n : Nat), P t →
      P { t with graph := t.graph.updateNode n ({ · with work := some .idle }) })
    (h : P s) : ∃ s', s.discardAll l = .pure s' () ∧ P s' := by
  induction l generalizing s with
  | nil => exact ⟨s, rfl, h⟩
  | cons n rest ih =>
    set graph := s.graph.updateNode n ({ · with work := some .idle }) with hgraph
    have hsteady : s.graph.Steady graph := .updateNode n
    obtain ⟨s', hrest, hs'⟩ := ih (s := { s with graph })
      (fun m hm => by
        rw [hsteady.isArmed]
        exact hl m (by simp [hm])) (hstep s n h)
    refine ⟨s', ?_, hs'⟩
    unfold discardAll Graph.discard
    rw [hl n (by simp)]
    exact hrest

/-- Discarding the work of a node lets a sound system run on. -/
theorem Ran.discard (h : s.Ran s') (n : Nat) :
    s.Ran { s' with graph := s'.graph.updateNode n ({ · with work := some .idle }) } :=
  h.trans ⟨Graph.Sound.setWork h.sound n (some .idle), .updateNode n, rfl, rfl⟩

/-- The system that has reported the drop of a builder. -/
def reportDrop (s : System κ ε) (b : Builder) : System κ ε :=
  s.report .warn "task graph dropped with unexecuted nodes; discarding their work"
    [("nodes", .number b.nodes.length)]

/-- Dropping a builder submits its batch, or does nothing if that has no nodes. -/
theorem submits_dropBuilder (hs : s.Sound) (hb : b.Holds s.graph) :
    s.Submits b.batch (s.dropBuilder b).state := by
  unfold dropBuilder
  split
  · exact .of_ran (.refl hs)
  · have hreport : s.Ran (s.reportDrop b) := .report hs ..
    have hreported := hb.steady hreport.steady
    obtain ⟨s', hdiscard, hran⟩ := exists_discardAll (P := (s.reportDrop b).Ran)
      (fun n hn => hreported.isArmed hn) (fun t n ht => ht.discard n)
      (.refl hreport.sound)
    have hdiscarded : s.Submits b.batch s' := .of_ran (hreport.trans hran)
    have hnew : s'.Submits b.batch s'.newBuilder.1 := .newBuilder hran.sound
    have hsubmit := submits_submit hnew.sound
      (hreported.steady hran.steady).startBatch
    have hall := (hdiscarded.trans hnew).trans hsubmit
    dsimp only
    rw [← reportDrop, hdiscard]
    unfold Outcome.bind
    dsimp only [Outcome.pure]
    split
    · exact hall.trans (.of_ran (.report hsubmit.sound ..))
    · exact hall

/-- One system came from another by adding a node to a builder's batch, with edges from the given
sources. -/
structure Added (s : System κ ε) (b : Builder) (work : Work κ) (access : Access)
    (profile : Option Profile) (sources : List NodeId) (s' : System κ ε) : Prop where
  sound : s'.Sound
  load : s'.load = s.load
  resolved : Tracker.Resolved s.tracker ((s.graph.register b.batch).addNode work b.batch profile).1
    s.graph.nodes.size (access.uses s.graph.nodes.size) sources s'.tracker s'.graph
  deps : access.deps ⊆ sources
  grain : s'.grain = s.grain

/-- Adding a node succeeds. -/
theorem exists_added (hs : s.Sound) (hb : b.Holds s.graph) (hpos : 0 < s.tracker.shards.size)
    (ht : s.tracker.Within s.graph.nodes.size) (work : Work κ) {access : Access}
    (profile : Option Profile) (hdeps : ∀ d : Nat, d ∈ access.deps → d < s.graph.nodes.size) :
    ∃ s' sources, s.add b work access profile =
        .pure (s', { b with nodes := b.nodes ++ [s.graph.nodes.size] }) s.graph.nodes.size ∧
      s.Added b work access profile sources s' := by
  set n := s.graph.nodes.size with hn
  set added := ((s.graph.register b.batch).addNode work b.batch profile).1 with hadded
  have hsize : added.nodes.size = n + 1 :=
    Graph.size_nodes_addNode (s.graph.register b.batch) work b.batch profile
  have hunarmed : added.isArmed n = false :=
    Graph.isArmed_addNode_self hb.unarmed work profile
  have hwithin : s.tracker.Within added.nodes.size := by
    rw [hsize]
    exact fun k i hi => Nat.lt_succ_of_lt (ht k i hi)
  have hdeps' : ∀ d : Nat, d ∈ access.deps → d < added.nodes.size := fun d hd => by
    rw [hsize]
    exact Nat.lt_succ_of_lt (hdeps d hd)
  obtain ⟨t', g', sources, hwire, hresolved, hsources⟩ :=
    Tracker.exists_resolved_wire hpos hwithin (by omega) hunarmed hdeps'
  have hsound : g'.Sound s.load := by
    refine (Graph.Sound.addNode hs hb.batch_lt work profile).wired hresolved.wired ?_ ?_ ?_
    · rw [← hadded, hsize]
      exact Nat.lt_succ_self n
    · have hfresh := Graph.node_addNode_self (s.graph.register b.batch) work b.batch profile
      exact congrArg Node.claimed hfresh
    · intro i hi hne
      have hlt := hresolved.sources_lt i hi
      omega
  refine ⟨{ s with tracker := t', graph := g' }, sources, ?_, hsound, rfl, hresolved, hsources,
    rfl⟩
  have hpair : (s.graph.register b.batch).addNode work b.batch profile = (added, n) := rfl
  unfold add
  rw [hpair]
  dsimp only
  rw [hwire]
  rfl

namespace Added

variable {work : Work κ} {access : Access} {profile : Option Profile} {sources : List NodeId}

theorem size (h : s.Added b work access profile sources s') :
    s'.graph.nodes.size = s.graph.nodes.size + 1 := by
  rw [h.resolved.wired.size]
  exact Graph.size_nodes_addNode (s.graph.register b.batch) work b.batch profile

theorem grows (h : s.Added b work access profile sources s') : s.graph.Grows s'.graph :=
  (Graph.Grows.addNode s.graph work b.batch profile).trans
    (Graph.Steady.wired h.resolved.wired).grows

/-- Adding a node arms no batch. -/
theorem armed (h : s.Added b work access profile sources s') (c : Nat) :
    (s'.graph.batch c).armed = (s.graph.batch c).armed := by
  rw [h.resolved.wired.batch]
  exact Graph.field_updateBatch (g := s.graph) (b := b.batch) Batch.armed c

theorem batches (h : s.Added b work access profile sources s') :
    s'.graph.batches.size = s.graph.batches.size := by
  rw [h.resolved.wired.batches]
  exact Graph.size_batches_updateBatch ..

/-- The builder of a new node holds it. -/
theorem holds_self (h : s.Added b work access profile sources s') (hb : b.Holds s.graph) :
    Builder.Holds { b with nodes := b.nodes ++ [s.graph.nodes.size] } s'.graph :=
  (hb.addNode_self work profile).steady (.wired h.resolved.wired)

/-- A builder with another batch goes on to hold it while a node is added. -/
theorem holds_other (h : s.Added b work access profile sources s') (hc : c.Holds s.graph)
    (hne : c.batch ≠ b.batch) : c.Holds s'.graph :=
  (hc.addNode_of_ne hne work profile).steady (.wired h.resolved.wired)

end Added

end System

end HazardFlow
