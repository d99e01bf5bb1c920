import HazardFlow.Proofs.Graph.Releasing

/-!
# Coherent and sound graphs

A graph is coherent for a load when its in-degrees, claims and parts fit together, where the load
of a node is the number of its jobs and events that are under way. It is sound when moreover its
edges lead from older to newer nodes, as they do when nodes are wired one after the other. Every
operation keeps both, also one that stops with a fault: a fault may leave an in-degree too high or
a part without a job, but never the other way round.
-/

namespace HazardFlow.Graph

variable {κ β : Type}

/-- In-degrees, claims and parts fit together. -/
structure Coherent (g : Graph κ) (load : NodeId → Nat) : Prop where
  batch_lt : ∀ n : Nat, n < g.nodes.size → (g.node n).batch < g.batches.size
  entry_lt : ∀ i m : Nat, m ∈ g.entries i → m < g.nodes.size
  /-- Every edge is counted by its target. -/
  edgeCount_le : ∀ m : Nat, (g.edgeCount m : Int) ≤ (g.node m).inDegree
  /-- A claimed node waits for nothing. -/
  free : ∀ n : Nat, (g.node n).claimed = true → (g.node n).inDegree = 0
  armed : ∀ n : Nat, (g.node n).claimed = true → g.isArmed n = true
  /-- Only claimed nodes have jobs. -/
  claimed_of_load : ∀ n : Nat, 0 < load n → (g.node n).claimed = true
  /-- Every job and event holds a part. -/
  load_le : ∀ n : Nat, (load n : Int) ≤ (g.node n).parts
  isComplete_iff : ∀ n : Nat, g.isComplete n = true ↔ (g.node n).parts = 0
  claimed_of_isComplete : ∀ n : Nat, g.isComplete n = true → (g.node n).claimed = true

/-- In a coherent graph, edges lead from older to newer nodes. -/
structure Sound (g : Graph κ) (load : NodeId → Nat) : Prop extends Coherent g load where
  older : ∀ i m : Nat, m ∈ g.entries i → i < m

/-- The load with one more job on a node. -/
def addLoad (load : NodeId → Nat) (n : NodeId) : NodeId → Nat :=
  fun m => load m + if m = n then 1 else 0

/-- The load with one job less on a node. -/
def dropLoad (load : NodeId → Nat) (n : NodeId) : NodeId → Nat :=
  fun m => load m - if m = n then 1 else 0

/-- An entry is counted among the edges of the node that it names. -/
theorem edgeCount_pos_of_mem {g : Graph κ} {i m : Nat} (h : m ∈ g.entries i) :
    0 < g.edgeCount m := by
  have hi : i < g.nodes.size := by
    by_contra hlt
    rw [entries, node_of_size_le (by omega)] at h
    exact absurd h List.not_mem_nil
  have hle := le_total (fun n => n.successors.entries.count m) hi
  have hpos : 0 < (g.entries i).count m := List.count_pos_iff.mpr h
  unfold edgeCount
  unfold entries at hpos
  omega

/-- A node with edges stands in some list. -/
theorem exists_mem_of_edgeCount_pos {g : Graph κ} {m : Nat} (h : 0 < g.edgeCount m) :
    ∃ i : Nat, i < g.nodes.size ∧ m ∈ g.entries i := by
  obtain ⟨i, hi, hpos⟩ := exists_of_total_pos h
  exact ⟨i, hi, List.count_pos_iff.mp hpos⟩

namespace Coherent

variable {g g' : Graph κ} {load load' : NodeId → Nat}

/-- A node that waits for something has not been claimed. -/
theorem not_claimed_of_mem (h : g.Coherent load) {i m : Nat} (hm : m ∈ g.entries i) :
    (g.node m).claimed = false := by
  by_contra hc
  rw [Bool.not_eq_false] at hc
  have hpos := edgeCount_pos_of_mem hm
  have hle := h.edgeCount_le m
  have hfree := h.free m hc
  omega

/-- Nor has one of a batch that is not armed. -/
theorem not_claimed_of_unarmed (h : g.Coherent load) {n : Nat} (hn : g.isArmed n = false) :
    (g.node n).claimed = false := by
  rw [← Bool.not_eq_true] at hn ⊢
  exact mt (h.armed n) hn

/-- A node that nobody has claimed has a part and no jobs. -/
theorem of_not_claimed (h : g.Coherent load) {n : Nat} (hn : (g.node n).claimed = false) :
    load n = 0 ∧ 1 ≤ (g.node n).parts ∧ g.isComplete n = false := by
  have hload : load n = 0 := by
    by_contra hne
    have hc := h.claimed_of_load n (by omega)
    rw [hn] at hc
    cases hc
  have hopen : g.isComplete n = false := by
    by_contra hc
    rw [Bool.not_eq_false] at hc
    have hcl := h.claimed_of_isComplete n hc
    rw [hn] at hcl
    cases hcl
  have hparts : (g.node n).parts ≠ 0 := fun hzero => by
    rw [(h.isComplete_iff n).mpr hzero] at hopen
    cases hopen
  have hle := h.load_le n
  exact ⟨hload, by omega, hopen⟩

/-- A node with a job or an event under way exists, is claimed, and is not complete. -/
theorem of_load_pos (h : g.Coherent load) {n : Nat} (hn : 0 < load n) :
    n < g.nodes.size ∧ (g.node n).claimed = true ∧ g.isComplete n = false := by
  have hc := h.claimed_of_load n hn
  refine ⟨lt_size_of_claimed hc, hc, ?_⟩
  by_contra hcomplete
  rw [Bool.not_eq_false] at hcomplete
  have hparts := (h.isComplete_iff n).mp hcomplete
  have hle := h.load_le n
  omega

/-- Coherence does not depend on works, profiles and what batches count. -/
theorem of_alike (h : g.Coherent load) (hsize : g'.nodes.size = g.nodes.size)
    (hbatches : g'.batches.size = g.batches.size)
    (harmed : ∀ b : Nat, (g'.batch b).armed = (g.batch b).armed)
    (hnode : ∀ m : Nat, g'.node m =
      { g.node m with work := (g'.node m).work, profile := (g'.node m).profile }) :
    g'.Coherent load := by
  have hentries (i : Nat) : g'.entries i = g.entries i := by
    unfold entries
    rw [hnode i]
  have hcomplete (i : Nat) : g'.isComplete i = g.isComplete i := by
    unfold isComplete Node.isComplete
    rw [hnode i]
  have hedge (m : Nat) : g'.edgeCount m = g.edgeCount m :=
    total_congr hsize fun i => by rw [hnode i]
  have harmed' (n : Nat) : g'.isArmed n = g.isArmed n := by
    unfold isArmed
    rw [harmed, hnode n]
  refine ⟨fun n hn => ?_, fun i m hm => ?_, fun m => ?_, fun n hn => ?_, fun n hn => ?_,
    fun n hn => ?_, fun n => ?_, fun n => ?_, fun n hn => ?_⟩
  · rw [hnode n, hbatches]
    exact h.batch_lt n (by omega)
  · rw [hsize]
    exact h.entry_lt i m (by rwa [hentries] at hm)
  · rw [hedge, hnode m]
    exact h.edgeCount_le m
  · rw [hnode n] at hn ⊢
    exact h.free n hn
  · rw [harmed']
    rw [hnode n] at hn
    exact h.armed n hn
  · rw [hnode n]
    exact h.claimed_of_load n hn
  · rw [hnode n]
    exact h.load_le n
  · rw [hcomplete, hnode n]
    exact h.isComplete_iff n
  · rw [hnode n]
    exact h.claimed_of_isComplete n (by rwa [hcomplete] at hn)

/-- Jobs may be lost. -/
theorem mono (h : g.Coherent load) (hle : ∀ n : Nat, load' n ≤ load n) : g.Coherent load' where
  batch_lt := h.batch_lt
  entry_lt := h.entry_lt
  edgeCount_le := h.edgeCount_le
  free := h.free
  armed := h.armed
  claimed_of_load n hn := h.claimed_of_load n (by have := hle n; omega)
  load_le n := by have := hle n; have := h.load_le n; omega
  isComplete_iff := h.isComplete_iff
  claimed_of_isComplete := h.claimed_of_isComplete

/-- An empty graph is coherent. -/
theorem empty : ({} : Graph κ).Coherent fun _ => 0 := by
  have hnode (n : Nat) : ({} : Graph κ).node n = default := node_of_size_le (Nat.zero_le n)
  refine ⟨fun n hn => absurd hn (Nat.not_lt_zero n), fun i m hm => ?_, fun m => ?_, fun n hn => ?_,
    fun n hn => ?_, fun n hn => ?_, fun n => ?_, fun n => ?_, fun n hn => ?_⟩
  · rw [entries, hnode] at hm
    exact absurd hm List.not_mem_nil
  · rw [hnode]
    exact Int.le_refl 0
  · rw [hnode] at hn
    cases hn
  · rw [hnode] at hn
    cases hn
  · omega
  · rw [hnode]
    exact Int.one_nonneg
  · unfold isComplete
    rw [hnode]
    exact iff_of_false Bool.false_ne_true Int.one_ne_zero
  · unfold isComplete at hn
    rw [hnode] at hn
    cases hn

end Coherent

end HazardFlow.Graph
