import HazardFlow.Proofs.Graph.Releasing

/-!
# Counting edges

The in-degree of a node is the number of its edges that are still listed, and no node lists itself.
An edge is counted when it is listed, and given back when the list that holds it is closed. Unlike
coherence, this does not depend on who may claim nodes or finish their parts: it holds when any
node is claimed and any part is finished at any time, as long as ready nodes are handed on without
a fault.
-/

namespace HazardFlow.Graph

variable {κ : Type}

/-- An entry is one of the edges counted for the node that it names. -/
theorem count_entries_le_edgeCount (g : Graph κ) (i m : Nat) :
    (g.entries i).count m ≤ g.edgeCount m := by
  by_cases hi : i < g.nodes.size
  · exact le_total (fun n => n.successors.entries.count m) hi
  · rw [entries, node_of_size_le (by omega)]
    exact Nat.zero_le _

/-- The number of entries that name a node, in the lists of incomplete nodes. -/
def openEdges (g : Graph κ) (m : NodeId) : Nat :=
  g.total fun n => if n.isComplete then 0 else n.successors.entries.count m

/-- Complete nodes have no entries, so that only the lists of the others count. -/
theorem edgeCount_eq_openEdges (g : Graph κ) (m : Nat) : g.edgeCount m = g.openEdges m := by
  unfold edgeCount openEdges total
  refine Finset.sum_congr rfl fun n _ => ?_
  dsimp only
  split
  · next hcomplete =>
    have hnone : g.entries n = [] := entries_of_isComplete hcomplete
    unfold entries at hnone
    rw [hnone]
    rfl
  · rfl

/-- An edge from a complete node leaves no trace. -/
theorem link_of_isComplete {g : Graph κ} {i n : Nat} (hc : g.isComplete i = true)
    (harmed : g.isArmed n = false) : g.link i n = .pure g false := by
  by_cases hne : i = n
  · rw [hne, link_self]
  · set raised := g.updateNode n fun m => { m with inDegree := m.inDegree + 1 } with hraised
    have harmed' : raised.isArmed n = false := (isArmed_updateNode n).trans harmed
    have hlowered : (raised.updateNode n fun m => { m with inDegree := m.inDegree - 1 }) = g := by
      rw [hraised, updateNode_updateNode]
      refine updateNode_eq_self ?_
      simp
    have hlist : (raised.node i).successors = (g.node i).successors :=
      field_updateNode Node.successors i
    unfold isComplete Node.isComplete at hc
    cases hs : (g.node i).successors with
    | growing l => simp [hs] at hc
    | closed =>
      unfold link
      rw [if_neg hne, ← hraised]
      dsimp only
      rw [hlist, hs]
      simp only [SealableList.push_closed, harmed', Bool.false_eq_true, if_false, hlowered]

/-- Closing a list once more stops with a fault. -/
theorem finishPart_of_isComplete {β : Type} (hand : Hand κ β) {g : Graph κ} {n : Nat}
    (hparts : (g.node n).parts = 1) (hc : g.isComplete n = true) :
    finishPart hand g n = ⟨g.retire n, [], some .sealedTwice⟩ := by
  have hlists : ((g.updateNode n fun m => { m with parts := m.parts - 1 }).node n).successors =
      (g.node n).successors := field_updateNode Node.successors n
  unfold isComplete Node.isComplete at hc
  cases hs : (g.node n).successors with
  | growing l => simp [hs] at hc
  | closed =>
    unfold finishPart
    simp only [hparts, beq_self_eq_true, if_true, hlists, hs, SealableList.close, Outcome.fail,
      updateNode_updateNode]
    rfl

/-- Finishing a part of a node that does not exist changes no node. -/
theorem finishPart_of_size_le {β : Type} (hand : Hand κ β) {g : Graph κ} {n : Nat}
    (hn : g.nodes.size ≤ n) : finishPart hand g n = ⟨g.finishOne 0, [], none⟩ := by
  have hsame (f : Node κ → Node κ) : g.updateNode n f = g := by
    have hnodes : g.nodes.modify n f = g.nodes := by
      refine Array.ext (by simp) fun m _ hm => ?_
      rw [Array.getElem_modify, if_neg (by omega)]
    unfold updateNode
    rw [hnodes]
  unfold finishPart
  simp only [hsame, node_of_size_le hn]
  rfl

/-- Every edge leads to another node, and every node counts the edges that lead to it and so many
more, which it owes to no list. -/
structure Owing (g : Graph κ) (owed : NodeId → Nat) : Prop where
  entry : ∀ i m : Nat, m ∈ g.entries i → m ≠ i ∧ m < g.nodes.size
  inDegree : ∀ m : Nat, (g.node m).inDegree = g.edgeCount m + owed m

/-- Every edge is counted by its target, once, and leads to another node. -/
structure Accounted (g : Graph κ) : Prop where
  entry : ∀ i m : Nat, m ∈ g.entries i → m ≠ i ∧ m < g.nodes.size
  inDegree : ∀ m : Nat, (g.node m).inDegree = g.edgeCount m

/-- Ready nodes are handed on as they are. -/
theorem faithful_handNode : Hand.Faithful (handNode (κ := κ)) id where
  state _ _ := Or.inl rfl
  item _ _ _ h := (Except.ok.inj h).symm

/-- Handing on nodes as they are meets no fault. -/
theorem fault_releaseAll_handNode (g : Graph κ) (l : List NodeId) :
    (releaseAll handNode g l).fault = none := by
  induction l generalizing g with
  | nil => rfl
  | cons n rest ih =>
    unfold releaseAll
    cases g.release n with
    | mk g' claimed => cases claimed <;> exact ih g'

namespace Owing

variable {g g' : Graph κ} {owed : NodeId → Nat}

/-- An empty graph has no edges. -/
theorem empty : ({} : Graph κ).Owing fun _ => 0 where
  entry i m hm := by
    rw [entries, node_of_size_le (Nat.zero_le i)] at hm
    exact absurd hm List.not_mem_nil
  inDegree m := by
    rw [node_of_size_le (Nat.zero_le m)]
    rfl

/-- Only in-degrees and lists of successors matter. -/
theorem of_kept (h : g.Owing owed) (hsize : g'.nodes.size = g.nodes.size)
    (hdegree : ∀ m : Nat, (g'.node m).inDegree = (g.node m).inDegree)
    (hlists : ∀ m : Nat, (g'.node m).successors = (g.node m).successors) : g'.Owing owed where
  entry i m hm := by
    rw [entries, hlists] at hm
    rw [hsize]
    exact h.entry i m hm
  inDegree m := by
    have hedge : g'.edgeCount m = g.edgeCount m := total_congr hsize fun i => by rw [hlists]
    rw [hdegree, hedge, h.inDegree]

/-- An update of a node that keeps its in-degree and its successors. -/
theorem updateNode (h : g.Owing owed) (n : Nat) {f : Node κ → Node κ}
    (hdegree : ∀ x, (f x).inDegree = x.inDegree := by intro x; rfl)
    (hlists : ∀ x, (f x).successors = x.successors := by intro x; rfl) :
    (g.updateNode n f).Owing owed :=
  h.of_kept (size_nodes_updateNode ..) (fun m => field_updateNode Node.inDegree m hdegree)
    fun m => field_updateNode Node.successors m hlists

/-- What batches count does not matter. -/
theorem updateBatch (h : g.Owing owed) (b : Nat) (f : Batch → Batch) :
    (g.updateBatch b f).Owing owed :=
  h.of_kept rfl (fun _ => rfl) fun _ => rfl

/-- A new node has no edges. -/
theorem addNode (h : g.Owing owed) (work : Work κ) (b : Nat) (profile : Option Profile) :
    (g.addNode work b profile).1.Owing owed where
  entry i m hm := by
    rw [entries, successors_addNode] at hm
    obtain ⟨hne, hlt⟩ := h.entry i m hm
    rw [size_nodes_addNode]
    exact ⟨hne, Nat.lt_succ_of_lt hlt⟩
  inDegree m := by
    have hedge : (g.addNode work b profile).1.edgeCount m = g.edgeCount m :=
      total_addNode g work b profile _
    rw [hedge]
    by_cases hm : m = g.nodes.size
    · have hnone := h.inDegree m
      rw [node_of_size_le (by omega)] at hnone
      rw [hm, node_addNode_self, ← hm]
      exact hnone
    · rw [node_addNode_of_ne work b profile hm, h.inDegree]

/-- Wiring counts the edges that it lists. -/
theorem wired (h : g.Owing owed) {n : Nat} {sources : List NodeId} (hw : Wired g n sources g')
    (hn : n < g.nodes.size) : g'.Owing owed where
  entry i m hm := by
    rw [hw.size]
    rcases hw.mem_entries hm with hold | ⟨rfl, _, hne⟩
    · exact h.entry i m hold
    · exact ⟨Ne.symm hne, hn⟩
  inDegree m := by
    rw [hw.inDegree, hw.edgeCount, h.inDegree]
    split <;> (push_cast; omega)

/-- The edges of a completed node are given back. -/
theorem released (h : g.Owing owed) {n : Nat} (hn : n < g.nodes.size) {ready : List NodeId}
    (hr : Released (g.retire n) (g.entries n) ready g') : g'.Owing owed where
  entry i m hm := by
    rw [hr.entries] at hm
    rw [hr.size, size_nodes_retire]
    exact h.entry i m (entries_retire_subset hn i hm)
  inDegree m := by
    have hedge := edgeCount_retire hn m
    have hdegree : ((g.retire n).node m).inDegree = (g.node m).inDegree :=
      field_updateNode Node.inDegree m
    rw [hr.inDegree, hr.edgeCount, hdegree, h.inDegree]
    omega

/-- Closing a list that holds no entries takes no edges. -/
theorem retire (h : g.Owing owed) {n : Nat} (hn : n < g.nodes.size) (hnone : g.entries n = []) :
    (g.retire n).Owing owed := by
  have hr := Released.refl (g.retire n)
  rw [← hnone] at hr
  exact h.released hn hr

/-- Finishing a part of any node, at any time, keeps the count and adds no node. -/
theorem finishPart (h : g.Owing owed) (n : Nat) :
    (Graph.finishPart handNode g n).graph.Owing owed ∧
      (Graph.finishPart handNode g n).graph.nodes.size = g.nodes.size := by
  by_cases hparts : (g.node n).parts = 1
  · by_cases hn : n < g.nodes.size
    · cases hopen : g.isComplete n with
      | true =>
        rw [finishPart_of_isComplete handNode hparts hopen]
        exact ⟨h.retire hn (entries_of_isComplete hopen), size_nodes_retire g n⟩
      | false =>
        have hfinished := finished_finishPart faithful_handNode hn hopen fun m hm =>
          (h.entry n m hm).2
        generalize Graph.finishPart handNode g n = handed at hfinished ⊢
        cases hfinished with
        | part hne => exact absurd hparts hne
        | stopped _ _ hfault => exact absurd (fault_releaseAll_handNode _ _) hfault
        | last _ hwalk hfault =>
          obtain ⟨rfl, _⟩ := hwalk.complete hfault
          exact ⟨(h.released hn hwalk.released).updateBatch _ _,
            hwalk.released.size.trans (size_nodes_retire g n)⟩
    · rw [finishPart_of_size_le handNode (by omega)]
      exact ⟨h.updateBatch _ _, rfl⟩
  · rw [finishPart_of_ne_one handNode hparts]
    exact ⟨h.updateNode n, size_nodes_updateNode ..⟩

end Owing

/-- A graph is accounted for when no node owes an edge. -/
theorem accounted_iff {g : Graph κ} : g.Accounted ↔ g.Owing fun _ => 0 :=
  ⟨fun h => ⟨h.entry, fun m => (h.inDegree m).trans (Int.add_zero _).symm⟩,
    fun h => ⟨h.entry, fun m => (h.inDegree m).trans (Int.add_zero _)⟩⟩

namespace Accounted

variable {g g' : Graph κ}

/-- An empty graph has no edges. -/
theorem empty : ({} : Graph κ).Accounted := accounted_iff.mpr .empty

/-- Wiring counts the edges that it lists. -/
theorem wired (h : g.Accounted) {n : Nat} {sources : List NodeId} (hw : Wired g n sources g')
    (hn : n < g.nodes.size) : g'.Accounted :=
  accounted_iff.mpr ((accounted_iff.mp h).wired hw hn)

/-- Releasing part of the list of a retired node takes these edges and no others. -/
theorem exists_released (h : g.Accounted) {n : Nat} {l : List NodeId} (hl : l ⊆ g.entries n) :
    ∃ ready, Released (g.retire n) l ready (releaseAll handNode (g.retire n) l).graph := by
  obtain ⟨walked, hwalk⟩ := exists_walk_releaseAll faithful_handNode (g := g.retire n) (l := l)
    fun m hm => by
      rw [size_nodes_retire]
      exact (h.entry n m (hl hm)).2
  obtain ⟨rfl, _⟩ := hwalk.complete (fault_releaseAll_handNode _ _)
  exact ⟨_, hwalk.released⟩

/-- On the way through its list, a node that completes takes no edge that was not counted. -/
theorem zero_le_inDegree_releaseAll (h : g.Accounted) {n : Nat} {l : List NodeId}
    (hl : l <+: g.entries n) (m : Nat) :
    0 ≤ ((releaseAll handNode (g.retire n) l).graph.node m).inDegree := by
  obtain ⟨ready, hr⟩ := h.exists_released hl.subset
  have hcount := hl.sublist.count_le m
  have hle := g.count_entries_le_edgeCount n m
  have hdegree : ((g.retire n).node m).inDegree = (g.node m).inDegree :=
    field_updateNode Node.inDegree m
  rw [hr.inDegree, hdegree, h.inDegree]
  omega

end Accounted

end HazardFlow.Graph
