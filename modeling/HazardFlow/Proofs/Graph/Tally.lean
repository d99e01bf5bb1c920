import HazardFlow.Proofs.Graph.Preservation

/-!
# What batches count

A batch counts its incomplete nodes, and one thing more until it has been submitted. It is done
when there is nothing left to count. Completions and submissions are counted once each.
-/

namespace HazardFlow.Graph

variable {κ β : Type}

/-- The number of incomplete nodes of a batch. -/
def outstanding (g : Graph κ) (b : BatchId) : Nat :=
  g.total fun n => if n.batch = b ∧ n.isComplete = false then 1 else 0

/-- No node of a batch is outstanding when all of them are complete. -/
theorem outstanding_eq_zero_iff {g : Graph κ} {b : BatchId} : g.outstanding b = 0 ↔
    ∀ n : Nat, n < g.nodes.size → (g.node n).batch = b → g.isComplete n = true := by
  unfold outstanding total
  rw [Finset.sum_eq_zero_iff]
  constructor
  · intro h n hn hbatch
    by_contra hopen
    rw [Bool.not_eq_true] at hopen
    have hone : (if (g.node n).batch = b ∧ (g.node n).isComplete = false then 1 else 0) = 1 :=
      if_pos ⟨hbatch, hopen⟩
    exact absurd (hone.symm.trans (h n (Finset.mem_range.mpr hn))) Nat.one_ne_zero
  · intro h n hn
    refine if_neg fun hopen => ?_
    have hdone := h n (Finset.mem_range.mp hn) hopen.1
    exact Bool.false_ne_true (hopen.2.symm.trans hdone)

/-- A batch counts its incomplete nodes and `held` things more. -/
structure Tally (g : Graph κ) (b : BatchId) (held : Nat) : Prop where
  remaining : (g.batch b).remaining = g.outstanding b + held
  done : (g.batch b).done = true ↔ (g.batch b).remaining = 0

namespace Tally

variable {g g' : Graph κ} {load : NodeId → Nat} {b held : Nat}

/-- A batch with nothing to count is done. -/
theorem done_of_outstanding (h : g.Tally b 0) (hnone : g.outstanding b = 0) :
    (g.batch b).done = true := by
  rw [h.done, h.remaining, hnone]
  rfl

/-- The number of incomplete nodes depends on their batches and completion. -/
theorem outstanding_congr (hsize : g'.nodes.size = g.nodes.size)
    (hnode : ∀ n : Nat, (g'.node n).batch = (g.node n).batch ∧ g'.isComplete n = g.isComplete n)
    (b : Nat) : g'.outstanding b = g.outstanding b := by
  refine total_congr hsize fun n => ?_
  obtain ⟨hbatch, hcomplete⟩ := hnode n
  unfold isComplete at hcomplete
  rw [hbatch, hcomplete]

/-- A batch counts right as long as it and the completion of its nodes stay as they are. -/
theorem congr (h : g.Tally b held) (hsize : g'.nodes.size = g.nodes.size)
    (hnode : ∀ n : Nat, (g'.node n).batch = (g.node n).batch ∧ g'.isComplete n = g.isComplete n)
    (hremaining : (g'.batch b).remaining = (g.batch b).remaining)
    (hdone : (g'.batch b).done = (g.batch b).done) : g'.Tally b held where
  remaining := by rw [hremaining, outstanding_congr hsize hnode, h.remaining]
  done := by rw [hremaining, hdone, h.done]

/-- An update of a node that keeps its batch and its successors. -/
theorem updateNode (h : g.Tally b held) (n : Nat) {f : Node κ → Node κ}
    (hbatch : ∀ x, (f x).batch = x.batch := by intro x; rfl)
    (hsuccessors : ∀ x, (f x).successors = x.successors := by intro x; rfl) :
    (g.updateNode n f).Tally b held := by
  refine h.congr (size_nodes_updateNode g n f) (fun m => ⟨?_, ?_⟩) rfl rfl
  · exact field_updateNode Node.batch m hbatch
  · exact field_updateNode Node.isComplete m fun x => by
      unfold Node.isComplete
      rw [hsuccessors]

theorem claim (h : g.Tally b held) (n : Nat) : (g.claim n).1.Tally b held := h.updateNode n

theorem hand (h : g.Tally b held) {hand : Hand κ β} {nodeOf : β → NodeId}
    (hhand : hand.Faithful nodeOf) (n : Nat) : (hand g n).state.Tally b held := by
  rcases hhand.state g n with heq | heq
  · rwa [heq]
  · rw [heq]
    exact h.updateNode n

theorem wired (h : g.Tally b held) {n : Nat} {sources : List NodeId}
    (hw : Wired g n sources g') : g'.Tally b held :=
  h.congr hw.size (fun m => ⟨hw.batchOf m, hw.isComplete m⟩) (by rw [hw.batch]) (by rw [hw.batch])

theorem arm (h : g.Tally b held) (c : Nat) : (g.arm c).Tally b held :=
  h.congr rfl (fun _ => ⟨rfl, rfl⟩) (field_updateBatch Batch.remaining b)
    (field_updateBatch Batch.done b)

/-- Starting another batch. -/
theorem startBatch (h : g.Tally b held) (hb : b < g.batches.size) :
    g.startBatch.1.Tally b held :=
  h.congr rfl (fun _ => ⟨rfl, rfl⟩) (by rw [batch_startBatch_of_lt hb])
    (by rw [batch_startBatch_of_lt hb])

/-- A new batch counts its submission only. -/
theorem startBatch_self (hs : g.Coherent load) : g.startBatch.1.Tally g.batches.size 1 := by
  have hnone : g.startBatch.1.outstanding g.batches.size = 0 := by
    unfold outstanding total
    refine Finset.sum_eq_zero fun n hn => ?_
    have hlt := hs.batch_lt n (Finset.mem_range.mp hn)
    rw [node_startBatch]
    exact if_neg fun hyes => absurd hyes.1 (Nat.ne_of_lt hlt)
  refine ⟨?_, ?_⟩
  · rw [hnone, batch_startBatch_self]
    rfl
  · rw [batch_startBatch_self]
    exact iff_of_false Bool.false_ne_true Int.one_ne_zero

/-- A submission that has finished is no longer counted. -/
theorem finishOne_self (h : g.Tally b (held + 1)) (hb : b < g.batches.size) :
    (g.finishOne b).Tally b held := by
  have hbatch : (g.finishOne b).batch b =
      { g.batch b with
        remaining := (g.batch b).remaining - 1
        done := (g.batch b).done || (g.batch b).remaining == 1 } := batch_updateBatch_self _ hb
  have hremaining := h.remaining
  have houtstanding : (g.finishOne b).outstanding b = g.outstanding b :=
    outstanding_congr rfl (fun _ => ⟨rfl, rfl⟩) b
  have hundone : (g.batch b).done = false := by
    rw [← Bool.not_eq_true, h.done, hremaining]
    push_cast
    omega
  refine ⟨?_, ?_⟩
  · rw [hbatch, houtstanding]
    dsimp only
    push_cast at hremaining
    omega
  · rw [hbatch, hundone]
    dsimp only
    rw [Bool.false_or, beq_iff_eq]
    omega

theorem finishOne_of_ne (h : g.Tally b held) {c : Nat} (hne : c ≠ b) :
    (g.finishOne c).Tally b held := by
  have hbatch : (g.finishOne c).batch b = g.batch b := batch_updateBatch_of_ne _ hne
  exact h.congr rfl (fun _ => ⟨rfl, rfl⟩) (by rw [hbatch]) (by rw [hbatch])

/-- A batch counts a node that is added to it. -/
theorem addNode_self (h : g.Tally b (held + 1)) (hb : b < g.batches.size) (work : Work κ)
    (profile : Option Profile) :
    ((g.register b).addNode work b profile).1.Tally b (held + 1) := by
  have hbatch : ((g.register b).addNode work b profile).1.batch b =
      { g.batch b with
        remaining := (g.batch b).remaining + 1, size := (g.batch b).size + 1 } :=
    batch_updateBatch_self _ hb
  have houtstanding : ((g.register b).addNode work b profile).1.outstanding b =
      g.outstanding b + 1 := by
    unfold outstanding
    rw [total_addNode, if_pos ⟨rfl, rfl⟩]
    rfl
  have hremaining := h.remaining
  have hundone : (g.batch b).done = false := by
    rw [← Bool.not_eq_true, h.done, hremaining]
    push_cast
    omega
  refine ⟨?_, ?_⟩
  · rw [hbatch, houtstanding]
    dsimp only
    push_cast at hremaining ⊢
    omega
  · rw [hbatch, hundone]
    dsimp only
    push_cast at hremaining
    exact ⟨nofun, fun hzero => by omega⟩

/-- A node added to another batch is not counted. -/
theorem addNode_of_ne (h : g.Tally b held) {c : Nat} (hne : c ≠ b) (work : Work κ)
    (profile : Option Profile) : ((g.register c).addNode work c profile).1.Tally b held := by
  have hbatch : ((g.register c).addNode work c profile).1.batch b = g.batch b :=
    batch_updateBatch_of_ne _ hne
  have houtstanding : ((g.register c).addNode work c profile).1.outstanding b =
      g.outstanding b := by
    unfold outstanding
    rw [total_addNode, if_neg fun hyes => hne hyes.1]
    rfl
  refine ⟨?_, ?_⟩
  · rw [hbatch, houtstanding, h.remaining]
  · rw [hbatch, h.done]

/-- A node that completes is no longer outstanding in its batch. -/
theorem outstanding_retire {n : Nat} (hn : n < g.nodes.size) (hopen : g.isComplete n = false)
    (b : Nat) : (g.retire n).outstanding b + (if (g.node n).batch = b then 1 else 0) =
      g.outstanding b := by
  have htotal := total_of_single
    (fun n : Node κ => if n.batch = b ∧ n.isComplete = false then 1 else 0)
    (size_nodes_retire g n) hn fun m hm => by rw [node_retire_of_ne (Ne.symm hm)]
  have hgone : ((g.retire n).node n).isComplete = true := by
    rw [node_retire_self hn]
    rfl
  unfold isComplete at hopen
  simp only [hgone, hopen, and_true, and_false, Bool.true_eq_false, if_false, Nat.add_zero]
    at htotal
  exact htotal

/-- A batch does not count a completion that it is not told of. -/
theorem retired (h : g.Tally b held) (hs : g.Coherent load) {n : Nat} (hn : 0 < load n)
    {walked ready : List NodeId} (hr : Released (g.retire n) walked ready g') :
    g'.Tally b (held + if (g.node n).batch = b then 1 else 0) := by
  obtain ⟨hlt, _, hopen⟩ := hs.of_load_pos hn
  have hretire := outstanding_retire hlt hopen b
  have hsame : g'.batch b = g.batch b := hr.batch b
  have hafter : g'.outstanding b = (g.retire n).outstanding b :=
    outstanding_congr hr.size (fun m => ⟨hr.batchOf m, hr.isComplete m⟩) b
  refine ⟨?_, by rw [hsame, h.done]⟩
  rw [hsame, hafter, h.remaining, ← hretire]
  push_cast
  omega

/-- A batch counts right after the last part of a node has finished and its successors were
released. -/
theorem completed (h : g.Tally b held) (hs : g.Coherent load) {n : Nat} (hn : 0 < load n)
    {walked ready : List NodeId} (hr : Released (g.retire n) walked ready g') :
    (g'.finishOne (g.node n).batch).Tally b held := by
  have hlt := (hs.of_load_pos hn).1
  have hmore := h.retired hs hn hr
  by_cases hb : (g.node n).batch = b
  · rw [if_pos hb] at hmore
    rw [hb]
    refine hmore.finishOne_self ?_
    rw [hr.batches, ← hb]
    exact hs.batch_lt n hlt
  · rw [if_neg hb] at hmore
    exact hmore.finishOne_of_ne hb

/-- Finishing a part without a fault. -/
theorem finishPart (h : g.Tally b held) (hs : g.Coherent load) {hand : Hand κ β}
    {nodeOf : β → NodeId} (hhand : hand.Faithful nodeOf) {n : Nat} (hn : 0 < load n)
    (hfault : (Graph.finishPart hand g n).fault = none) :
    (Graph.finishPart hand g n).graph.Tally b held := by
  have hfinished := hs.finished hhand hn
  generalize Graph.finishPart hand g n = handed at hfinished hfault ⊢
  cases hfinished with
  | part _ => exact h.updateNode n
  | stopped _ _ hyes => exact absurd hfault hyes
  | last _ hwalk _ => exact h.completed hs hn hwalk.released

end Tally

end HazardFlow.Graph
