import HazardFlow.Proofs.Graph.Steady
import HazardFlow.Schedule.Submission

/-!
# Builders and their batches

A builder holds a batch that is not armed, and lists all nodes of that batch. Nothing that happens
to other batches changes this.
-/

namespace HazardFlow

variable {κ : Type}

/-- The batch of a builder is not armed, and the builder lists its nodes. -/
structure Builder.Holds (b : Builder) (g : Graph κ) : Prop where
  batch_lt : b.batch < g.batches.size
  unarmed : (g.batch b.batch).armed = false
  mem_nodes : ∀ n : Nat, n ∈ b.nodes ↔ n < g.nodes.size ∧ (g.node n).batch = b.batch

namespace Builder.Holds

open HazardFlow.Graph

variable {b : Builder} {g g' : Graph κ} {load : NodeId → Nat}

/-- A builder goes on to hold its batch while the graph only runs. -/
theorem steady (hb : b.Holds g) (h : g.Steady g') : b.Holds g' where
  batch_lt := by
    rw [h.batches]
    exact hb.batch_lt
  unarmed := by rw [h.armed, hb.unarmed]
  mem_nodes n := by rw [hb.mem_nodes, h.size, h.batchOf]

/-- The nodes of a builder are not submitted. -/
theorem isArmed (hb : b.Holds g) {n : Nat} (hn : n ∈ b.nodes) : g.isArmed n = false := by
  unfold Graph.isArmed
  rw [((hb.mem_nodes n).mp hn).2, hb.unarmed]

/-- So nobody has claimed them. -/
theorem not_claimed (hb : b.Holds g) (hs : g.Coherent load) {n : Nat} (hn : n ∈ b.nodes) :
    (g.node n).claimed = false := hs.not_claimed_of_unarmed (hb.isArmed hn)

/-- A new batch has no nodes yet. -/
theorem startBatch_self (hs : g.Coherent load) :
    Builder.Holds { batch := g.batches.size } g.startBatch.1 where
  batch_lt := by
    rw [size_batches_startBatch]
    exact Nat.lt_succ_self _
  unarmed := by rw [batch_startBatch_self]
  mem_nodes n := by
    constructor
    · exact fun h => absurd h List.not_mem_nil
    · rintro ⟨hn, hbatch⟩
      exact absurd hbatch (Nat.ne_of_lt (hs.batch_lt n hn))

/-- Starting a batch leaves the others alone. -/
theorem startBatch (hb : b.Holds g) : b.Holds g.startBatch.1 where
  batch_lt := by
    rw [size_batches_startBatch]
    exact Nat.lt_succ_of_lt hb.batch_lt
  unarmed := by rw [batch_startBatch_of_lt hb.batch_lt, hb.unarmed]
  mem_nodes := hb.mem_nodes

/-- Arming a batch leaves the others alone. -/
theorem arm_of_ne (hb : b.Holds g) {c : Nat} (hne : b.batch ≠ c) : b.Holds (g.arm c) where
  batch_lt := by
    unfold Graph.arm
    rw [size_batches_updateBatch]
    exact hb.batch_lt
  unarmed := by
    unfold Graph.arm
    rw [batch_updateBatch_of_ne _ (Ne.symm hne), hb.unarmed]
  mem_nodes := hb.mem_nodes

/-- After a builder's batch was armed, its nodes may be dispatched. -/
theorem isArmed_arm (hb : b.Holds g) {n : Nat} (hn : n ∈ b.nodes) :
    n < (g.arm b.batch).nodes.size ∧ (g.arm b.batch).isArmed n = true := by
  obtain ⟨hlt, hbatch⟩ := (hb.mem_nodes n).mp hn
  refine ⟨hlt, ?_⟩
  unfold Graph.isArmed
  rw [node_arm, hbatch]
  unfold Graph.arm
  rw [batch_updateBatch_self _ hb.batch_lt]

/-- A builder holds a node that is added to its batch. -/
theorem addNode_self (hb : b.Holds g) (work : Work κ) (profile : Option Profile) :
    Builder.Holds { b with nodes := b.nodes ++ [g.nodes.size] }
      ((g.register b.batch).addNode work b.batch profile).1 where
  batch_lt := by
    rw [batches_addNode, Graph.register, size_batches_updateBatch]
    exact hb.batch_lt
  unarmed := by
    rw [batch_addNode]
    exact (field_updateBatch Batch.armed b.batch).trans hb.unarmed
  mem_nodes n := by
    have hgrows := Grows.addNode g work b.batch profile
    have hsize : ((g.register b.batch).addNode work b.batch profile).1.nodes.size =
        g.nodes.size + 1 := size_nodes_addNode (g.register b.batch) work b.batch profile
    have hself := congrArg Node.batch
      (node_addNode_self (g.register b.batch) work b.batch profile)
    rw [List.mem_append, List.mem_singleton, hb.mem_nodes, hsize]
    constructor
    · rintro (⟨hn, hbatch⟩ | rfl)
      · exact ⟨by omega, by rw [hgrows.batchOf n hn, hbatch]⟩
      · exact ⟨by omega, hself⟩
    · rintro ⟨hn, hbatch⟩
      by_cases hnew : n = g.nodes.size
      · exact Or.inr hnew
      · have hold : n < g.nodes.size := by omega
        exact Or.inl ⟨hold, by rw [← hgrows.batchOf n hold, hbatch]⟩

/-- A builder does not see a node that is added to another batch. -/
theorem addNode_of_ne (hb : b.Holds g) {c : Nat} (hne : b.batch ≠ c) (work : Work κ)
    (profile : Option Profile) : b.Holds ((g.register c).addNode work c profile).1 where
  batch_lt := by
    rw [batches_addNode, Graph.register, size_batches_updateBatch]
    exact hb.batch_lt
  unarmed := by
    rw [batch_addNode]
    exact (field_updateBatch Batch.armed b.batch).trans hb.unarmed
  mem_nodes n := by
    have hgrows := Grows.addNode g work c profile
    have hsize : ((g.register c).addNode work c profile).1.nodes.size = g.nodes.size + 1 :=
      size_nodes_addNode (g.register c) work c profile
    have hself := congrArg Node.batch (node_addNode_self (g.register c) work c profile)
    rw [hb.mem_nodes, hsize]
    constructor
    · rintro ⟨hn, hbatch⟩
      exact ⟨by omega, by rw [hgrows.batchOf n hn, hbatch]⟩
    · rintro ⟨hn, hbatch⟩
      have hold : n < g.nodes.size := by
        by_contra hge
        have hnew : n = g.nodes.size := by omega
        rw [hnew] at hbatch
        exact hne (hbatch.symm.trans hself)
      exact ⟨hold, by rw [← hgrows.batchOf n hold, hbatch]⟩

end Builder.Holds

end HazardFlow
