import HazardFlow.Graph.Job
import HazardFlow.Graph.Tracker
import HazardFlow.Graph.Watcher
import Mathlib.Algebra.BigOperators.Group.Finset.Basic
import Mathlib.Algebra.Order.BigOperators.Group.Finset

/-!
# What an update of the graph changes

Every operation on the graph changes few nodes and few fields. The facts here say which, so that
later arguments speak of nodes and batches and no longer of the arrays that hold them. Totals over
all nodes are treated in the same way: a change of one node changes a total by that node's share.
-/

namespace HazardFlow.Graph

variable {κ α : Type}

/-- A number that no node has yet stands for an empty node. -/
theorem node_of_size_le {g : Graph κ} {n : Nat} (h : g.nodes.size ≤ n) :
    g.node n = default := by
  simp only [node, Array.getD_eq_getD_getElem?]
  rw [Array.getElem?_eq_none h, Option.getD_none]

/-- A claimed node exists. -/
theorem lt_size_of_claimed {g : Graph κ} {n : Nat} (h : (g.node n).claimed = true) :
    n < g.nodes.size := by
  by_contra hn
  rw [node_of_size_le (by omega)] at h
  cases h

/-- An update changes the node that it names. -/
theorem node_updateNode_self {g : Graph κ} {n : Nat} (f : Node κ → Node κ)
    (h : n < g.nodes.size) : (g.updateNode n f).node n = f (g.node n) := by
  rw [node_updateNode g f h, if_pos rfl]

/-- An update changes no other node, and none when it names a node that does not exist. -/
theorem node_updateNode_or (g : Graph κ) (n : Nat) (f : Node κ → Node κ) (m : Nat) :
    (g.updateNode n f).node m = g.node m ∨
      n = m ∧ (g.updateNode n f).node m = f (g.node m) := by
  by_cases hm : m < g.nodes.size
  · rw [node_updateNode g f hm]
    split
    · next heq => exact .inr ⟨heq, rfl⟩
    · exact .inl rfl
  · left
    rw [node_of_size_le (g := g) (by omega), node_of_size_le (by simpa using hm)]

/-- An update leaves all other nodes as they are. -/
theorem node_updateNode_of_ne {g : Graph κ} {n m : Nat} (f : Node κ → Node κ) (h : n ≠ m) :
    (g.updateNode n f).node m = g.node m :=
  (node_updateNode_or g n f m).resolve_right fun heq => h heq.1

/-- A field that an update does not touch is kept at every node. -/
theorem field_updateNode {g : Graph κ} {n : Nat} {f : Node κ → Node κ} (φ : Node κ → α) (m : Nat)
    (hf : ∀ x, φ (f x) = φ x := by intro x; rfl) :
    φ ((g.updateNode n f).node m) = φ (g.node m) := by
  rcases node_updateNode_or g n f m with heq | ⟨-, heq⟩
  · rw [heq]
  · rw [heq, hf]

/-- An update that leaves a node in its batch does not matter to whether it may be dispatched. -/
theorem isArmed_updateNode {g : Graph κ} {n : Nat} {f : Node κ → Node κ} (m : Nat)
    (hf : ∀ x, (f x).batch = x.batch := by intro x; rfl) :
    (g.updateNode n f).isArmed m = g.isArmed m := by
  unfold isArmed
  rw [field_updateNode Node.batch m hf]
  rfl

/-- Two updates of one node are one. -/
theorem updateNode_updateNode (g : Graph κ) (n : Nat) (f f' : Node κ → Node κ) :
    (g.updateNode n f).updateNode n f' = g.updateNode n (f' ∘ f) := by
  have hnodes : (g.nodes.modify n f).modify n f' = g.nodes.modify n (f' ∘ f) := by
    apply Array.toList_inj.mp
    rw [Array.toList_modify, Array.toList_modify, Array.toList_modify, List.modify_modify_eq]
  simp only [updateNode, hnodes]

/-- An update that changes nothing at its node changes nothing. -/
theorem updateNode_eq_self {g : Graph κ} {n : Nat} {f : Node κ → Node κ}
    (h : f (g.node n) = g.node n) : g.updateNode n f = g := by
  have hnodes : g.nodes.modify n f = g.nodes := by
    refine Array.ext (by simp) fun m hm hm' => ?_
    rw [Array.getElem_modify]
    split
    · next heq =>
      subst heq
      have hself : g.nodes[n] = g.node n := by
        rw [node, Array.getD_eq_getD_getElem?, Array.getElem?_eq_getElem hm', Option.getD_some]
      rw [hself, h]
    · rfl
  simp only [updateNode, hnodes]

@[simp] theorem node_updateBatch (g : Graph κ) (b : Nat) (f : Batch → Batch) (n : Nat) :
    (g.updateBatch b f).node n = g.node n := rfl

@[simp] theorem node_arm (g : Graph κ) (b : Nat) (n : Nat) :
    (g.arm b).node n = g.node n := rfl

@[simp] theorem node_startBatch (g : Graph κ) (n : Nat) :
    g.startBatch.1.node n = g.node n := rfl

@[simp] theorem size_nodes_addNode (g : Graph κ) (work : Work κ) (b : Nat)
    (profile : Option Profile) : (g.addNode work b profile).1.nodes.size = g.nodes.size + 1 := by
  simp [addNode]

/-- A new node takes the next number. -/
theorem node_addNode_self (g : Graph κ) (work : Work κ) (b : Nat)
    (profile : Option Profile) :
    (g.addNode work b profile).1.node g.nodes.size =
      { work := some work, batch := b, profile } := by
  simp [addNode, node, Array.getD_eq_getD_getElem?]

/-- A new node leaves the others as they are. -/
theorem node_addNode_of_ne {g : Graph κ} (work : Work κ) (b : Nat)
    (profile : Option Profile) {n : Nat} (h : n ≠ g.nodes.size) :
    (g.addNode work b profile).1.node n = g.node n := by
  simp [addNode, node, Array.getD_eq_getD_getElem?, Array.getElem?_push, h]

/-- A field in which a new node looks like none at all is kept at every node. -/
theorem field_addNode (g : Graph κ) (φ : Node κ → α) {work : Work κ} {b : Nat}
    {profile : Option Profile} (hφ : φ { work := some work, batch := b, profile } = φ default)
    (m : Nat) : φ ((g.addNode work b profile).1.node m) = φ (g.node m) := by
  by_cases hm : m = g.nodes.size
  · rw [hm, node_addNode_self, node_of_size_le (le_refl _), hφ]
  · rw [node_addNode_of_ne work b profile hm]

/-- A new node lists no successors, and changes nobody's list. -/
theorem successors_addNode (g : Graph κ) (work : Work κ) (b : Nat) (profile : Option Profile)
    (m : Nat) : ((g.addNode work b profile).1.node m).successors = (g.node m).successors :=
  field_addNode g Node.successors rfl m

/-- A new node is not claimed. -/
theorem claimed_addNode (g : Graph κ) (work : Work κ) (b : Nat) (profile : Option Profile)
    (m : Nat) : ((g.addNode work b profile).1.node m).claimed = (g.node m).claimed :=
  field_addNode g Node.claimed rfl m

@[simp] theorem batch_updateNode (g : Graph κ) (n : Nat) (f : Node κ → Node κ) (b : Nat) :
    (g.updateNode n f).batch b = g.batch b := rfl

@[simp] theorem batch_addNode (g : Graph κ) (work : Work κ) (c : Nat)
    (profile : Option Profile) (b : Nat) :
    (g.addNode work c profile).1.batch b = g.batch b := rfl

@[simp] theorem batches_addNode (g : Graph κ) (work : Work κ) (c : Nat)
    (profile : Option Profile) : (g.addNode work c profile).1.batches = g.batches := rfl

@[simp] theorem size_batches_updateBatch (g : Graph κ) (b : Nat) (f : Batch → Batch) :
    (g.updateBatch b f).batches.size = g.batches.size := by
  simp [updateBatch]

/-- An update changes the batch that it names. -/
theorem batch_updateBatch_self {g : Graph κ} {b : Nat} (f : Batch → Batch)
    (h : b < g.batches.size) : (g.updateBatch b f).batch b = f (g.batch b) := by
  simp only [batch, updateBatch, Array.getD_eq_getD_getElem?, Array.getElem?_modify, if_true]
  rw [Array.getElem?_eq_getElem h, Option.map_some, Option.getD_some, Option.getD_some]

/-- An update leaves all other batches as they are. -/
theorem batch_updateBatch_of_ne {g : Graph κ} {b c : Nat} (f : Batch → Batch) (h : b ≠ c) :
    (g.updateBatch b f).batch c = g.batch c := by
  simp [batch, updateBatch, Array.getD_eq_getD_getElem?, Array.getElem?_modify, h]

/-- A field that an update does not touch is kept at every batch. -/
theorem field_updateBatch {g : Graph κ} {b : Nat} {f : Batch → Batch} (φ : Batch → α) (c : Nat)
    (hf : ∀ x, φ (f x) = φ x := by intro x; rfl) :
    φ ((g.updateBatch b f).batch c) = φ (g.batch c) := by
  by_cases hbc : b = c
  · subst hbc
    by_cases hb : b < g.batches.size
    · rw [batch_updateBatch_self f hb, hf]
    · simp [batch, updateBatch, Array.getD_eq_getD_getElem?, hb]
  · rw [batch_updateBatch_of_ne f hbc]

/-- A new batch leaves the others as they are. -/
theorem batch_startBatch_of_lt {g : Graph κ} {b : Nat} (h : b < g.batches.size) :
    g.startBatch.1.batch b = g.batch b := by
  have hne : b ≠ g.batches.size := by omega
  simp [startBatch, batch, Array.getD_eq_getD_getElem?, Array.getElem?_push, hne]

/-- A new batch has no nodes and waits for its submission. -/
theorem batch_startBatch_self (g : Graph κ) :
    g.startBatch.1.batch g.batches.size = {} := by
  simp [startBatch, batch, Array.getD_eq_getD_getElem?]

@[simp] theorem size_batches_startBatch (g : Graph κ) :
    g.startBatch.1.batches.size = g.batches.size + 1 := by
  simp [startBatch]

/-- A number that no batch has yet stands for one that is not armed. -/
theorem armed_of_size_le {g : Graph κ} {b : Nat} (h : g.batches.size ≤ b) :
    (g.batch b).armed = false := by
  rw [batch, Array.getD_eq_getD_getElem?, Array.getElem?_eq_none h]
  rfl

/-- A batch that is done exists. -/
theorem lt_size_of_done {g : Graph κ} {b : Nat} (h : (g.batch b).done = true) :
    b < g.batches.size := by
  by_contra hge
  rw [batch, Array.getD_eq_getD_getElem?, Array.getElem?_eq_none (by omega)] at h
  cases h

/-- A new batch is not armed, and arms none. -/
theorem armed_startBatch (g : Graph κ) (b : Nat) :
    (g.startBatch.1.batch b).armed = (g.batch b).armed := by
  rcases Nat.lt_trichotomy b g.batches.size with hlt | rfl | hgt
  · rw [batch_startBatch_of_lt hlt]
  · rw [batch_startBatch_self, armed_of_size_le (le_refl _)]
  · rw [armed_of_size_le (Nat.le_of_lt hgt),
      armed_of_size_le (by rw [size_batches_startBatch]; exact hgt)]

/-- Arming a batch arms no other one. -/
theorem armed_arm {g : Graph κ} {b : Nat} (hb : b < g.batches.size) (c : Nat) :
    ((g.arm b).batch c).armed = true ↔ c = b ∨ (g.batch c).armed = true := by
  unfold arm
  by_cases hc : b = c
  · subst hc
    rw [batch_updateBatch_self _ hb]
    exact iff_of_true rfl (Or.inl rfl)
  · rw [batch_updateBatch_of_ne _ hc]
    exact ⟨Or.inr, fun h => h.resolve_left (Ne.symm hc)⟩

/-- A node added to a batch that is not armed may not be dispatched. -/
theorem isArmed_addNode_self {g : Graph κ} {b : Nat} (h : (g.batch b).armed = false)
    (work : Work κ) (profile : Option Profile) :
    ((g.register b).addNode work b profile).1.isArmed g.nodes.size = false := by
  have hnode := node_addNode_self (g.register b) work b profile
  have hbatch : ((g.register b).batch b).armed = (g.batch b).armed :=
    field_updateBatch Batch.armed b
  unfold isArmed
  rw [show g.nodes.size = (g.register b).nodes.size from rfl, hnode, batch_addNode, hbatch, h]

/-- The sum of a measure over all nodes. -/
def total (g : Graph κ) (φ : Node κ → Nat) : Nat :=
  (Finset.range g.nodes.size).sum fun n : Nat => φ (g.node n)

/-- A total depends on the measure of each node only. -/
theorem total_congr {g g' : Graph κ} {φ : Node κ → Nat} (hsize : g'.nodes.size = g.nodes.size)
    (h : ∀ n, φ (g'.node n) = φ (g.node n)) : g'.total φ = g.total φ := by
  unfold total
  rw [hsize]
  exact Finset.sum_congr rfl fun n _ => h n

/-- When only one node changes, the total changes by the share of that node. -/
theorem total_of_single {g g' : Graph κ} (φ : Node κ → Nat) {n : Nat}
    (hsize : g'.nodes.size = g.nodes.size) (hn : n < g.nodes.size)
    (h : ∀ m, m ≠ n → φ (g'.node m) = φ (g.node m)) :
    g'.total φ + φ (g.node n) = g.total φ + φ (g'.node n) := by
  have hmem : n ∈ Finset.range g.nodes.size := Finset.mem_range.mpr hn
  have hold := Finset.add_sum_erase _ (fun m : Nat => φ (g.node m)) hmem
  have hnew := Finset.add_sum_erase _ (fun m : Nat => φ (g'.node m)) hmem
  have hrest := Finset.sum_congr rfl
    (fun m (hm : m ∈ (Finset.range g.nodes.size).erase n) => h m (Finset.ne_of_mem_erase hm))
  unfold total
  rw [hsize]
  omega

/-- A new node adds its share to a total. -/
theorem total_addNode (g : Graph κ) (work : Work κ) (b : Nat) (profile : Option Profile)
    (φ : Node κ → Nat) :
    (g.addNode work b profile).1.total φ =
      g.total φ + φ { work := some work, batch := b, profile } := by
  unfold total
  rw [size_nodes_addNode, Finset.sum_range_succ, node_addNode_self]
  congr 1
  refine Finset.sum_congr rfl fun n hn => ?_
  rw [node_addNode_of_ne work b profile (by have := Finset.mem_range.mp hn; omega)]

/-- The share of one node is part of a total. -/
theorem le_total {g : Graph κ} (φ : Node κ → Nat) {n : Nat} (hn : n < g.nodes.size) :
    φ (g.node n) ≤ g.total φ :=
  Finset.single_le_sum (f := fun m => φ (g.node m)) (fun _ _ => Nat.zero_le _)
    (Finset.mem_range.mpr hn)

/-- A total that is not zero has a share that is not zero. -/
theorem exists_of_total_pos {g : Graph κ} {φ : Node κ → Nat} (h : 0 < g.total φ) :
    ∃ n, n < g.nodes.size ∧ 0 < φ (g.node n) := by
  by_contra hnone
  have hzero : g.total φ = 0 := by
    refine Finset.sum_eq_zero fun n hn => ?_
    have hn' := Finset.mem_range.mp hn
    by_contra hpos
    exact hnone ⟨n, hn', by omega⟩
  omega

end HazardFlow.Graph
