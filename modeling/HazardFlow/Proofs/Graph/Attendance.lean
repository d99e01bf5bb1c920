import HazardFlow.Proofs.Graph.Stock

/-!
# Nodes are attended to

A node is looked at twice: when its batch is submitted, and whenever it loses an edge. It is claimed
at whichever comes later, so that no node of an armed batch is left unclaimed when it waits for
nothing, unless its submission has yet to look at it. This holds also when a fault ends a walk
early, for the nodes that the walk did not come to still wait for something.
-/

namespace HazardFlow.Graph

variable {κ β : Type}

/-- A node of an armed batch that nobody has claimed waits for something, unless it is due to be
looked at, and every unclaimed node has its work. -/
structure Attended (g : Graph κ) (due : List NodeId) : Prop where
  waits : ∀ n : Nat, n < g.nodes.size → g.isArmed n = true → (g.node n).claimed = false → n ∉ due →
    (g.node n).inDegree ≠ 0
  stocked : g.StockedWith fun _ => True

namespace Attended

variable {g g' : Graph κ} {load : NodeId → Nat} {due : List NodeId}

/-- An empty graph has no nodes to attend to. -/
theorem empty : ({} : Graph κ).Attended [] :=
  ⟨fun n hn => absurd hn (Nat.not_lt_zero n), fun n hn => absurd hn (Nat.not_lt_zero n)⟩

/-- Nodes that have been claimed or wait for something are no longer due. -/
theorem of_due (h : g.Attended due) {due' : List NodeId}
    (hdue : ∀ n : Nat, n ∈ due → n ∉ due' →
      (g.node n).claimed = true ∨ (g.node n).inDegree ≠ 0) : g.Attended due' where
  waits n hn harmed hc hnot := by
    by_cases hmem : n ∈ due
    · rcases hdue n hmem hnot with hclaimed | hwaits
      · rw [hc] at hclaimed
        cases hclaimed
      · exact hwaits
    · exact h.waits n hn harmed hc hmem
  stocked := h.stocked

/-- It is enough that a node left unclaimed keeps its work, and waits for nothing only if it did so
before. -/
theorem of_unclaimed (h : g.Attended due) (hsize : g'.nodes.size = g.nodes.size)
    (hkept : ∀ n : Nat, n < g.nodes.size → (g'.node n).claimed = false →
      (g.node n).claimed = false ∧ (g'.node n).work = (g.node n).work)
    (hwaits : ∀ n : Nat, n < g.nodes.size → (g'.node n).claimed = false → g'.isArmed n = true →
      (g'.node n).inDegree = 0 → g.isArmed n = true ∧ (g.node n).inDegree = 0) :
    g'.Attended due where
  waits n hn harmed hc hdue hzero := by
    rw [hsize] at hn
    obtain ⟨harmed', hzero'⟩ := hwaits n hn hc harmed hzero
    exact h.waits n hn harmed' (hkept n hn hc).1 hdue hzero'
  stocked := h.stocked.of_work hsize hkept

/-- Attendance speaks of the nodes and of the armed batches only. -/
theorem of_node (h : g.Attended due) (hsize : g'.nodes.size = g.nodes.size)
    (hnode : ∀ n : Nat, g'.node n = g.node n)
    (harmed : ∀ n : Nat, n < g.nodes.size → g'.isArmed n = g.isArmed n) : g'.Attended due := by
  refine h.of_unclaimed hsize (fun n _ hc => ?_) fun n hn _ hyes hzero => ?_
  · rw [hnode] at hc ⊢
    exact ⟨hc, rfl⟩
  · rw [harmed n hn] at hyes
    rw [hnode] at hzero
    exact ⟨hyes, hzero⟩

theorem startBatch (h : g.Attended due) (hs : g.Coherent load) : g.startBatch.1.Attended due := by
  refine h.of_node rfl (fun _ => rfl) fun n hn => ?_
  unfold isArmed
  rw [node_startBatch, batch_startBatch_of_lt (hs.batch_lt n hn)]

theorem finishOne (h : g.Attended due) (b : Nat) : (g.finishOne b).Attended due := by
  refine h.of_node rfl (fun _ => rfl) fun n _ => ?_
  unfold isArmed Graph.finishOne
  rw [node_updateBatch]
  exact field_updateBatch Batch.armed (g.node n).batch

/-- When a batch is armed, its nodes become due. -/
theorem arm (h : g.Attended due) {b : Nat} {nodes : List NodeId}
    (hnodes : ∀ n : Nat, n < g.nodes.size → (g.node n).batch = b → n ∈ nodes) :
    (g.arm b).Attended (due ++ nodes) where
  waits n hn hyes hc hnot := by
    rw [List.mem_append, not_or] at hnot
    have hne : b ≠ (g.node n).batch := fun heq => hnot.2 (hnodes n hn heq.symm)
    have harmed : (g.arm b).isArmed n = g.isArmed n := by
      unfold isArmed Graph.arm
      rw [node_updateBatch, batch_updateBatch_of_ne _ hne]
    rw [harmed] at hyes
    exact h.waits n hn hyes hc hnot.1
  stocked := h.stocked

/-- A node added to a batch that is not armed need not be attended to yet. -/
theorem addNode (h : g.Attended due) {b : Nat} (hunarmed : (g.batch b).armed = false)
    (work : Work κ) (profile : Option Profile) :
    ((g.register b).addNode work b profile).1.Attended due := by
  have hnew : ((g.register b).addNode work b profile).1.node g.nodes.size =
      { work := some work, batch := b, profile } := node_addNode_self (g.register b) work b profile
  have hold : ∀ m : Nat, m ≠ g.nodes.size →
      ((g.register b).addNode work b profile).1.node m = g.node m := fun m hm =>
    node_addNode_of_ne (g := g.register b) work b profile hm
  have hsize : ((g.register b).addNode work b profile).1.nodes.size = g.nodes.size + 1 :=
    size_nodes_addNode (g.register b) work b profile
  have harmed : ∀ c : Nat, (((g.register b).addNode work b profile).1.batch c).armed =
      (g.batch c).armed := fun c => field_updateBatch (g := g) (b := b) Batch.armed c
  refine ⟨fun n hn hyes hc hdue => ?_, fun n hn hc => ?_⟩
  · by_cases hm : n = g.nodes.size
    · rw [hm, isArmed_addNode_self hunarmed] at hyes
      cases hyes
    · unfold isArmed at hyes
      rw [hold n hm, harmed] at hyes
      rw [hold n hm] at hc ⊢
      exact h.waits n (by omega) hyes hc hdue
  · by_cases hm : n = g.nodes.size
    · rw [hm, hnew]
      exact ⟨work, rfl, trivial⟩
    · rw [hold n hm] at hc ⊢
      exact h.stocked n (by omega) hc

/-- A node that is wired is not armed. -/
theorem wired (h : g.Attended due) {n : Nat} {sources : List NodeId}
    (hw : Wired g n sources g') (hunarmed : g.isArmed n = false) : g'.Attended due := by
  refine h.of_unclaimed hw.size (fun m _ hc => ?_) fun m _ _ hyes hzero => ?_
  · rw [hw.claimed] at hc
    exact ⟨hc, hw.work m⟩
  · rw [hw.isArmed] at hyes
    have hne : m ≠ n := by
      rintro rfl
      rw [hunarmed] at hyes
      cases hyes
    rw [hw.inDegree, if_neg hne, Int.add_zero] at hzero
    exact ⟨hyes, hzero⟩

/-- An update that keeps batches, claims and in-degrees. -/
theorem updateNode (h : g.Attended due) (n : Nat) {f : Node κ → Node κ}
    (hbatch : ∀ x, (f x).batch = x.batch := by intro x; rfl)
    (hdegree : ∀ x, (f x).inDegree = x.inDegree := by intro x; rfl)
    (hclaimed : ∀ x, (f x).claimed = false → x.claimed = false := by intro x h; exact h)
    (hwork : ∀ x, (f x).work = x.work := by intro x; rfl) :
    (g.updateNode n f).Attended due := by
  refine h.of_unclaimed (size_nodes_updateNode ..) (fun m hm hc => ?_) fun m _ _ hyes hzero => ?_
  · refine ⟨?_, field_updateNode Node.work m hwork⟩
    rw [node_updateNode g f hm] at hc
    split at hc
    · exact hclaimed _ hc
    · exact hc
  · rw [isArmed_updateNode m hbatch] at hyes
    rw [field_updateNode Node.inDegree m hdegree] at hzero
    exact ⟨hyes, hzero⟩

/-- Replacing the work of a node by another one. -/
theorem setWork (h : g.Attended due) (n : Nat) (work : Work κ) :
    (g.updateNode n ({ · with work := some work })).Attended due where
  waits m hm hyes hc hdue := by
    have hkeep {α : Type} (φ : Node κ → α)
        (hφ : ∀ x : Node κ, φ { x with work := some work } = φ x) :
        φ ((g.updateNode n ({ · with work := some work })).node m) = φ (g.node m) :=
      field_updateNode φ m hφ
    rw [isArmed_updateNode] at hyes
    rw [hkeep Node.claimed fun _ => rfl] at hc
    rw [hkeep Node.inDegree fun _ => rfl]
    rw [size_nodes_updateNode] at hm
    exact h.waits m hm hyes hc hdue
  stocked m hm hc := by
    rw [size_nodes_updateNode] at hm
    by_cases heq : n = m
    · subst heq
      rw [node_updateNode_self _ hm]
      exact ⟨work, rfl, trivial⟩
    · rw [node_updateNode_of_ne _ heq] at hc ⊢
      exact h.stocked m hm hc

/-- Handing on a claimed node. -/
theorem hand (h : g.Attended due) {hand : Hand κ β} {nodeOf : β → NodeId}
    (hhand : hand.Faithful nodeOf) {n : Nat} (hn : n < g.nodes.size)
    (hclaimed : (g.node n).claimed = true) : (hand g n).state.Attended due := by
  refine ⟨?_, h.stocked.hand hhand hn hclaimed⟩
  rcases hhand.state g n with heq | heq
  · rw [heq]
    exact h.waits
  · rw [heq]
    intro m hm hyes hc hdue
    have hkeep {α : Type} (φ : Node κ → α)
        (hφ : ∀ x : Node κ, φ { x with work := none } = φ x) :
        φ ((g.updateNode n ({ · with work := none })).node m) = φ (g.node m) :=
      field_updateNode φ m hφ
    rw [isArmed_updateNode] at hyes
    rw [hkeep Node.claimed fun _ => rfl] at hc
    rw [hkeep Node.inDegree fun _ => rfl]
    rw [size_nodes_updateNode] at hm
    exact h.waits m hm hyes hc hdue

/-- A walk claims every node of an armed batch from which it takes the last edge. -/
theorem released (h : g.Attended due) {n : Nat} {walked ready : List NodeId}
    (hr : Released (g.retire n) walked ready g') : g'.Attended due := by
  have hkeep {α : Type} (φ : Node κ → α) (m : Nat)
      (hφ : ∀ x : Node κ, φ { x with parts := x.parts - 1, successors := .closed } = φ x) :
      φ ((g.retire n).node m) = φ (g.node m) := field_updateNode φ m hφ
  have hstill : ∀ m : Nat, (g'.node m).claimed = false →
      (g.node m).claimed = false ∧ m ∉ ready := fun m hm => by
    rw [← Bool.not_eq_true, hr.claimed, not_or, claimed_retire, Bool.not_eq_true] at hm
    exact hm
  refine h.of_unclaimed (hr.size.trans (size_nodes_retire g n)) (fun m _ hc => ?_)
    fun m _ hc hyes hzero => ?_
  · obtain ⟨hfree, hnot⟩ := hstill m hc
    exact ⟨hfree, (hr.work m hnot).trans (hkeep Node.work m fun _ => rfl)⟩
  · obtain ⟨hfree, hnot⟩ := hstill m hc
    rw [hr.isArmed, isArmed_retire] at hyes
    refine ⟨hyes, ?_⟩
    rw [hr.inDegree, hkeep Node.inDegree m fun _ => rfl] at hzero
    rw [hr.mem_ready, claimed_retire, isArmed_retire, hkeep Node.inDegree m fun _ => rfl] at hnot
    by_contra hne
    exact hnot ⟨hfree, hyes, by omega, by omega⟩

/-- Finishing a part keeps all nodes attended to, also when a fault ends it. -/
theorem finishPart (h : g.Attended due) (hs : g.Coherent load) {hand : Hand κ β}
    {nodeOf : β → NodeId} (hhand : hand.Faithful nodeOf) {n : Nat} (hn : 0 < load n) :
    (Graph.finishPart hand g n).graph.Attended due := by
  have hfinished := hs.finished hhand hn
  generalize Graph.finishPart hand g n = handed at hfinished ⊢
  cases hfinished with
  | part _ => exact h.updateNode n
  | stopped _ hwalk _ => exact h.released hwalk.released
  | last _ hwalk _ => exact (h.released hwalk.released).finishOne _

/-- Only a range without a cursor can stop a part from finishing. -/
theorem ofCursor_of_finishPart (h : g.Attended due) (hs : g.Coherent load) {grain n : Nat}
    (hn : 0 < load n) {fault : Fault}
    (hfault : (Graph.finishPart (fun g n => takeJob g n grain) g n).fault = some fault) :
    fault.OfCursor := by
  have hfinished := hs.finished (faithful_takeJob grain) hn
  generalize Graph.finishPart (fun g n => takeJob g n grain) g n = handed at hfinished hfault
  cases hfinished with
  | part _ => cases hfault
  | stopped _ _ _ =>
    by_contra hother
    refine fault_releaseAll_of (faithful_takeJob grain) (fun g n work hwork _ hyes => ?_)
      h.stocked.retire (fun m hm => ?_) hfault
    · exact hother (ofCursor_of_takeJob hwork hyes)
    · rw [size_nodes_retire]
      exact hs.entry_lt n m hm
  | last _ _ hnone =>
    rw [hnone] at hfault
    cases hfault

end Attended

end HazardFlow.Graph
