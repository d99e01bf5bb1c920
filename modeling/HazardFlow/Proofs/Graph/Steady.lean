import HazardFlow.Proofs.Graph.Precedence

/-!
# Graphs that grow and graphs that only run

Nodes and batches are added and never taken away, and nodes are claimed and complete for good.
While nodes are dispatched and run, not even that much changes: no node or batch comes and no
batch is armed.
-/

namespace HazardFlow.Graph

variable {κ β : Type}

/-- The second graph comes later than the first, perhaps with more nodes and batches. -/
structure Grows (g g' : Graph κ) : Prop where
  size : g.nodes.size ≤ g'.nodes.size
  batches : g.batches.size ≤ g'.batches.size
  batchOf : ∀ n : Nat, n < g.nodes.size → (g'.node n).batch = (g.node n).batch
  claimed : ∀ n : Nat, (g.node n).claimed = true → (g'.node n).claimed = true
  done : ∀ b : Nat, (g.batch b).done = true → (g'.batch b).done = true
  later : Later g g'

/-- The second graph comes later than the first, with the same nodes, batches and armed batches. -/
structure Steady (g g' : Graph κ) : Prop where
  size : g'.nodes.size = g.nodes.size
  batches : g'.batches.size = g.batches.size
  batchOf : ∀ n : Nat, (g'.node n).batch = (g.node n).batch
  armed : ∀ b : Nat, (g'.batch b).armed = (g.batch b).armed
  counted : ∀ b : Nat, (g'.batch b).size = (g.batch b).size
  claimed : ∀ n : Nat, (g.node n).claimed = true → (g'.node n).claimed = true
  done : ∀ b : Nat, (g.batch b).done = true → (g'.batch b).done = true
  later : Later g g'

/-- Claiming a node that has been claimed changes nothing. -/
theorem claim_of_claimed {g : Graph κ} {n : Nat} (h : (g.node n).claimed = true) :
    (g.claim n).1 = g := by
  apply updateNode_eq_self
  rw [← h]

namespace Grows

variable {g g' g'' : Graph κ}

theorem refl (g : Graph κ) : Grows g g :=
  ⟨le_refl _, le_refl _, fun _ _ => rfl, fun _ h => h, fun _ h => h, .refl g⟩

theorem trans (h : Grows g g') (h' : Grows g' g'') : Grows g g'' where
  size := le_trans h.size h'.size
  batches := le_trans h.batches h'.batches
  batchOf n hn := by
    have hn' : n < g'.nodes.size := lt_of_lt_of_le hn h.size
    rw [h'.batchOf n hn', h.batchOf n hn]
  claimed n hn := h'.claimed n (h.claimed n hn)
  done b hb := h'.done b (h.done b hb)
  later := h.later.trans h'.later

theorem startBatch (g : Graph κ) : Grows g g.startBatch.1 where
  size := le_refl _
  batches := by
    rw [size_batches_startBatch]
    exact Nat.le_succ _
  batchOf _ _ := rfl
  claimed _ h := h
  done b hb := by
    rw [batch_startBatch_of_lt (lt_size_of_done hb), hb]
  later := .startBatch g

theorem arm (g : Graph κ) (b : Nat) : Grows g (g.arm b) where
  size := le_refl _
  batches := Nat.le_of_eq (size_batches_updateBatch ..).symm
  batchOf _ _ := rfl
  claimed _ h := h
  done c hc := (field_updateBatch Batch.done c).trans hc
  later := .arm g b

/-- Adding a node to a batch. -/
theorem addNode (g : Graph κ) (work : Work κ) (b : Nat) (profile : Option Profile) :
    Grows g ((g.register b).addNode work b profile).1 where
  size := by
    rw [size_nodes_addNode]
    exact Nat.le_succ _
  batches := Nat.le_of_eq (size_batches_updateBatch ..).symm
  batchOf n hn := by
    rw [node_addNode_of_ne (g := g.register b) work b profile (Nat.ne_of_lt hn)]
    rfl
  claimed n hn := by
    have hlt := lt_size_of_claimed hn
    rw [node_addNode_of_ne (g := g.register b) work b profile (Nat.ne_of_lt hlt)]
    exact hn
  done c hc := (field_updateBatch (g := g) Batch.done c).trans hc
  later := (Later.register g b).trans (.addNode (g.register b) work b profile)

end Grows

namespace Steady

variable {g g' g'' : Graph κ}

theorem grows (h : Steady g g') : Grows g g' where
  size := Nat.le_of_eq h.size.symm
  batches := Nat.le_of_eq h.batches.symm
  batchOf n _ := h.batchOf n
  claimed := h.claimed
  done := h.done
  later := h.later

theorem refl (g : Graph κ) : Steady g g :=
  ⟨rfl, rfl, fun _ => rfl, fun _ => rfl, fun _ => rfl, fun _ h => h, fun _ h => h, .refl g⟩

theorem trans (h : Steady g g') (h' : Steady g' g'') : Steady g g'' where
  size := h'.size.trans h.size
  batches := h'.batches.trans h.batches
  batchOf n := (h'.batchOf n).trans (h.batchOf n)
  armed b := (h'.armed b).trans (h.armed b)
  counted b := (h'.counted b).trans (h.counted b)
  claimed n hn := h'.claimed n (h.claimed n hn)
  done b hb := h'.done b (h.done b hb)
  later := h.later.trans h'.later

theorem isArmed (h : Steady g g') (n : Nat) : g'.isArmed n = g.isArmed n := by
  unfold Graph.isArmed
  rw [h.batchOf, h.armed]

/-- An update of a node that keeps its batch and successors and does not undo its claim. -/
theorem updateNode (n : Nat) {f : Node κ → Node κ}
    (hbatch : ∀ x, (f x).batch = x.batch := by intro x; rfl)
    (hsuccessors : ∀ x, (f x).successors = x.successors := by intro x; rfl)
    (hclaimed : ∀ x, x.claimed = true → (f x).claimed = true := by intro x h; exact h) :
    Steady g (g.updateNode n f) where
  size := size_nodes_updateNode g n f
  batches := rfl
  batchOf m := field_updateNode Node.batch m hbatch
  armed _ := rfl
  counted _ := rfl
  claimed m hm := by
    have hlt := lt_size_of_claimed hm
    rw [node_updateNode g f hlt]
    split
    · exact hclaimed _ hm
    · exact hm
  done _ hb := hb
  later := .updateNode n hsuccessors

theorem claim (g : Graph κ) (n : Nat) : Steady g (g.claim n).1 :=
  updateNode n (fun _ => rfl) (fun _ => rfl) fun _ _ => rfl

theorem finishOne (g : Graph κ) (b : Nat) : Steady g (g.finishOne b) where
  size := rfl
  batches := size_batches_updateBatch ..
  batchOf _ := rfl
  armed c := field_updateBatch Batch.armed c
  counted c := field_updateBatch Batch.size c
  claimed _ h := h
  done c hc := by
    unfold Graph.finishOne
    by_cases hne : b = c
    · subst hne
      have hlt : b < g.batches.size := lt_size_of_done hc
      rw [batch_updateBatch_self _ hlt, hc, Bool.true_or]
    · rw [batch_updateBatch_of_ne _ hne, hc]
  later := .finishOne g b

/-- Edges are neither nodes nor batches. -/
theorem wired {n : Nat} {sources : List NodeId} (h : Wired g n sources g') : Steady g g' where
  size := h.size
  batches := by rw [h.batches]
  batchOf := h.batchOf
  armed b := by rw [h.batch]
  counted b := by rw [h.batch]
  claimed m hm := by rwa [h.claimed]
  done b hb := by rwa [h.batch]
  later := .wired h

theorem released {walked ready : List NodeId} (h : Released g walked ready g') : Steady g g' where
  size := h.size
  batches := by rw [h.batches]
  batchOf := h.batchOf
  armed b := by rw [h.batch]
  counted b := by rw [h.batch]
  claimed n hn := (h.claimed n).mpr (Or.inl hn)
  done b hb := by rwa [h.batch]
  later := .released h

theorem retire {n : Nat} (hn : n < g.nodes.size) : Steady g (g.retire n) where
  size := size_nodes_retire g n
  batches := rfl
  batchOf m := field_updateNode Node.batch m
  armed _ := rfl
  counted _ := rfl
  claimed m hm := by rw [claimed_retire, hm]
  done _ hb := hb
  later := .retire hn

/-- Handing on a node neither adds nor arms anything. -/
theorem hand {hand : Hand κ β} {nodeOf : β → NodeId} (hhand : hand.Faithful nodeOf) (g : Graph κ)
    (n : Nat) : Steady g (hand g n).state := by
  rcases hhand.state g n with heq | heq
  · rw [heq]
    exact .refl g
  · rw [heq]
    exact updateNode n

/-- Finishing a part neither adds nor arms anything. -/
theorem finishPart {load : NodeId → Nat} {hand : Hand κ β} {nodeOf : β → NodeId}
    (hhand : hand.Faithful nodeOf) (h : g.Coherent load) {n : Nat} (hn : 0 < load n) :
    Steady g (Graph.finishPart hand g n).graph := by
  have hlt := (h.of_load_pos hn).1
  have hfinished := h.finished hhand hn
  generalize Graph.finishPart hand g n = handed at hfinished ⊢
  cases hfinished with
  | part _ => exact updateNode n
  | stopped _ hwalk _ => exact (Steady.retire hlt).trans (.released hwalk.released)
  | last _ hwalk _ =>
    exact ((Steady.retire hlt).trans (.released hwalk.released)).trans (.finishOne _ _)

end Steady

end HazardFlow.Graph
