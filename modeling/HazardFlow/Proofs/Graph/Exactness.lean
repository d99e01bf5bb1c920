import HazardFlow.Proofs.Graph.Stock

/-!
# Exact graphs

Without faults nothing is lost: in-degrees are the numbers of edges, every part of a claimed node
has a job or an event, and a node of an armed batch that waits for nothing has been claimed,
unless its dispatch is still due. A graph is exact when all this holds, and every operation keeps
it so.
-/

namespace HazardFlow

variable {κ β : Type}

namespace Graph

/-- In-degrees, parts and claims are as they should be. The nodes of `due` are about to be
dispatched. -/
structure Exact (g : Graph κ) (load : NodeId → Nat) (due : List NodeId) : Prop where
  inDegree : ∀ m : Nat, (g.node m).inDegree = g.edgeCount m
  parts : ∀ n : Nat, (g.node n).claimed = true → (g.node n).parts = load n
  fresh : ∀ n : Nat, (g.node n).claimed = false → (g.node n).parts = 1
  waits : ∀ n : Nat, n < g.nodes.size → g.isArmed n = true → (g.node n).claimed = false → n ∉ due →
    (g.node n).inDegree ≠ 0
  stocked : g.Stocked

namespace Exact

variable {g g' : Graph κ} {load load' : NodeId → Nat} {due : List NodeId}

/-- An empty graph is exact. -/
theorem empty : ({} : Graph κ).Exact (fun _ => 0) [] := by
  have hnode : ∀ n : Nat, ({} : Graph κ).node n = default := fun n =>
    node_of_size_le (Nat.zero_le n)
  refine ⟨fun m => ?_, fun n hn => ?_, fun n _ => ?_, fun n hn => ?_, fun n hn => ?_⟩
  · rw [hnode]
    rfl
  · rw [hnode] at hn
    cases hn
  · rw [hnode]
    rfl
  · exact absurd hn (Nat.not_lt_zero n)
  · exact absurd hn (Nat.not_lt_zero n)

/-- Nodes whose dispatch is no longer due have been claimed or wait for something. -/
theorem of_due (h : g.Exact load due) {due' : List NodeId}
    (hdue : ∀ n : Nat, n ∈ due → n ∉ due' →
      (g.node n).claimed = true ∨ (g.node n).inDegree ≠ 0) : g.Exact load due' where
  inDegree := h.inDegree
  parts := h.parts
  fresh := h.fresh
  waits n hn harmed hc hnot := by
    by_cases hmem : n ∈ due
    · rcases hdue n hmem hnot with hclaimed | hwaits
      · rw [hc] at hclaimed
        cases hclaimed
      · exact hwaits
    · exact h.waits n hn harmed hc hmem
  stocked := h.stocked

/-- Exactness speaks of the nodes and of the armed batches only. -/
theorem of_node (h : g.Exact load due) (hsize : g'.nodes.size = g.nodes.size)
    (hnode : ∀ n : Nat, g'.node n = g.node n)
    (harmed : ∀ n : Nat, n < g.nodes.size → g'.isArmed n = g.isArmed n) : g'.Exact load due where
  inDegree m := by
    have hedge : g'.edgeCount m = g.edgeCount m := total_congr hsize fun i => by rw [hnode]
    rw [hnode, hedge, h.inDegree]
  parts n hn := by
    rw [hnode] at hn ⊢
    exact h.parts n hn
  fresh n hn := by
    rw [hnode] at hn ⊢
    exact h.fresh n hn
  waits n hn hyes hc hdue := by
    rw [hsize] at hn
    rw [harmed n hn] at hyes
    rw [hnode] at hc ⊢
    exact h.waits n hn hyes hc hdue
  stocked n hn hc := by
    rw [hsize] at hn
    rw [hnode] at hc ⊢
    exact h.stocked n hn hc

/-- Starting a batch keeps a graph exact. -/
theorem startBatch (h : g.Exact load due) (hs : g.Coherent load) : g.startBatch.1.Exact load due := by
  refine h.of_node rfl (fun _ => rfl) fun n hn => ?_
  unfold isArmed
  rw [node_startBatch, batch_startBatch_of_lt (hs.batch_lt n hn)]

/-- Counting one finished thing of a batch keeps a graph exact. -/
theorem finishOne (h : g.Exact load due) (b : Nat) : (g.finishOne b).Exact load due := by
  refine h.of_node rfl (fun _ => rfl) fun n _ => ?_
  unfold isArmed Graph.finishOne
  rw [node_updateBatch]
  exact field_updateBatch Batch.armed (g.node n).batch

/-- When a batch is armed, the dispatch of its nodes becomes due. -/
theorem arm (h : g.Exact load due) {b : Nat} {nodes : List NodeId}
    (hnodes : ∀ n : Nat, n < g.nodes.size → (g.node n).batch = b → n ∈ nodes) :
    (g.arm b).Exact load (due ++ nodes) where
  inDegree := h.inDegree
  parts := h.parts
  fresh := h.fresh
  waits n hn hyes hc hnot := by
    rw [List.mem_append, not_or] at hnot
    have hne : b ≠ (g.node n).batch := fun heq => hnot.2 (hnodes n hn heq.symm)
    have harmed : (g.arm b).isArmed n = g.isArmed n := by
      unfold isArmed Graph.arm
      rw [node_updateBatch, batch_updateBatch_of_ne _ hne]
    rw [harmed] at hyes
    exact h.waits n hn hyes hc hnot.1
  stocked := h.stocked

/-- Adding a node to a batch that is not armed keeps a graph exact. -/
theorem addNode (h : g.Exact load due) {b : Nat} {work : Work κ}
    (hwork : work.Ordered) (hunarmed : (g.batch b).armed = false) (profile : Option Profile) :
    ((g.register b).addNode work b profile).1.Exact load due := by
  set added := ((g.register b).addNode work b profile).1 with hadded
  have hnew : added.node g.nodes.size = { work := some work, batch := b, profile } :=
    node_addNode_self (g.register b) work b profile
  have hold : ∀ m : Nat, m ≠ g.nodes.size → added.node m = g.node m := fun m hm =>
    node_addNode_of_ne (g := g.register b) work b profile hm
  have hsize : added.nodes.size = g.nodes.size + 1 :=
    size_nodes_addNode (g.register b) work b profile
  have harmed : ∀ c : Nat, (added.batch c).armed = (g.batch c).armed := fun c =>
    field_updateBatch (g := g) (b := b) Batch.armed c
  have hedge : ∀ m : Nat, added.edgeCount m = g.edgeCount m := fun m =>
    total_addNode (g.register b) work b profile _
  have hdefault : g.node g.nodes.size = default := node_of_size_le (Nat.le_refl _)
  refine ⟨fun m => ?_, fun n hn => ?_, fun n hn => ?_, fun n hn hyes hc hdue => ?_,
    fun n hn hc => ?_⟩
  · rw [hedge, ← h.inDegree]
    by_cases hm : m = g.nodes.size
    · rw [hm, hnew, hdefault]
      rfl
    · rw [hold m hm]
  · by_cases hn' : n = g.nodes.size
    · rw [hn', hnew] at hn
      cases hn
    · rw [hold n hn'] at hn ⊢
      exact h.parts n hn
  · by_cases hn' : n = g.nodes.size
    · rw [hn', hnew]
    · rw [hold n hn'] at hn ⊢
      exact h.fresh n hn
  · by_cases hn' : n = g.nodes.size
    · unfold isArmed at hyes
      rw [hn', hnew, harmed, hunarmed] at hyes
      cases hyes
    · unfold isArmed at hyes
      rw [hold n hn', harmed] at hyes
      rw [hold n hn'] at hc ⊢
      exact h.waits n (by omega) hyes hc hdue
  · by_cases hn' : n = g.nodes.size
    · rw [hn', hnew]
      exact ⟨work, rfl, hwork⟩
    · rw [hold n hn'] at hc ⊢
      exact h.stocked n (by omega) hc

/-- Wiring a node of a batch that is not armed keeps a graph exact. -/
theorem wired (h : g.Exact load due) {n : Nat} {sources : List NodeId} (hw : Wired g n sources g')
    (hunarmed : g.isArmed n = false) : g'.Exact load due where
  inDegree m := by
    rw [hw.inDegree, hw.edgeCount, h.inDegree]
    split <;> simp
  parts m hm := by
    rw [hw.claimed] at hm
    rw [hw.parts, h.parts m hm]
  fresh m hm := by
    rw [hw.claimed] at hm
    rw [hw.parts, h.fresh m hm]
  waits m hm hyes hc hdue := by
    rw [hw.isArmed] at hyes
    rw [hw.claimed] at hc
    have hne : m ≠ n := by
      rintro rfl
      rw [hunarmed] at hyes
      cases hyes
    rw [hw.inDegree, if_neg hne, Int.add_zero]
    exact h.waits m (by rwa [hw.size] at hm) hyes hc hdue
  stocked m hm hc := by
    rw [hw.claimed] at hc
    rw [hw.work]
    exact h.stocked m (by rwa [hw.size] at hm) hc

/-- Changing the work of a node keeps a graph exact, as long as there is a work that can be taken
when nobody has claimed the node. -/
theorem setWork (h : g.Exact load due) (n : Nat) {work : Option (Work κ)}
    (hwork : (g.node n).claimed = false → ∃ w, work = some w ∧ w.Ordered) :
    (g.updateNode n ({ · with work })).Exact load due := by
  set changed := g.updateNode n ({ · with work }) with hchanged
  have hkeep {α : Type} (φ : Node κ → α) (m : Nat)
      (hφ : ∀ x : Node κ, φ { x with work } = φ x) :
      φ (changed.node m) = φ (g.node m) := field_updateNode φ m hφ
  have hsize : changed.nodes.size = g.nodes.size := size_nodes_updateNode ..
  have hedge : ∀ m : Nat, changed.edgeCount m = g.edgeCount m := fun m =>
    total_congr hsize fun i => by rw [hkeep Node.successors i fun _ => rfl]
  refine ⟨fun m => ?_, fun m hm => ?_, fun m hm => ?_, fun m hm hyes hc hdue => ?_,
    fun m hm hc => ?_⟩
  · rw [hedge, hkeep Node.inDegree m fun _ => rfl, h.inDegree]
  · rw [hkeep Node.claimed m fun _ => rfl] at hm
    rw [hkeep Node.parts m fun _ => rfl, h.parts m hm]
  · rw [hkeep Node.claimed m fun _ => rfl] at hm
    rw [hkeep Node.parts m fun _ => rfl, h.fresh m hm]
  · rw [isArmed_updateNode] at hyes
    rw [hkeep Node.claimed m fun _ => rfl] at hc
    rw [hkeep Node.inDegree m fun _ => rfl]
    exact h.waits m (by omega) hyes hc hdue
  · rw [hsize] at hm
    rw [hkeep Node.claimed m fun _ => rfl] at hc
    by_cases heq : n = m
    · subst heq
      rw [hchanged, node_updateNode_self _ hm]
      exact hwork hc
    · rw [hchanged, node_updateNode_of_ne _ heq]
      exact h.stocked m hm hc

/-- Changing the number of parts of a claimed node keeps a graph exact when its load changes with
it. -/
theorem setParts (h : g.Exact load due) {n : Nat} {f : Int → Int} (hn : n < g.nodes.size)
    (hclaimed : (g.node n).claimed = true) (hload : f (g.node n).parts = load' n)
    (hother : ∀ m : Nat, m ≠ n → load' m = load m) :
    (g.updateNode n fun m => { m with parts := f m.parts }).Exact load' due := by
  set changed := g.updateNode n fun m => { m with parts := f m.parts } with hchanged
  have hkeep {α : Type} (φ : Node κ → α) (m : Nat)
      (hφ : ∀ x : Node κ, φ { x with parts := f x.parts } = φ x) :
      φ (changed.node m) = φ (g.node m) := field_updateNode φ m hφ
  have hsize : changed.nodes.size = g.nodes.size := size_nodes_updateNode ..
  have hedge : ∀ m : Nat, changed.edgeCount m = g.edgeCount m := fun m =>
    total_congr hsize fun i => by rw [hkeep Node.successors i fun _ => rfl]
  refine ⟨fun m => ?_, fun m hm => ?_, fun m hm => ?_, fun m hm hyes hc hdue => ?_,
    fun m hm hc => ?_⟩
  · rw [hedge, hkeep Node.inDegree m fun _ => rfl, h.inDegree]
  · by_cases heq : m = n
    · subst heq
      rw [hchanged, node_updateNode_self _ hn]
      exact hload
    · rw [hkeep Node.claimed m fun _ => rfl] at hm
      rw [hchanged, node_updateNode_of_ne _ (Ne.symm heq), h.parts m hm, hother m heq]
  · rw [hkeep Node.claimed m fun _ => rfl] at hm
    have hne : n ≠ m := by
      rintro rfl
      rw [hclaimed] at hm
      cases hm
    rw [hchanged, node_updateNode_of_ne _ hne, h.fresh m hm]
  · rw [isArmed_updateNode] at hyes
    rw [hkeep Node.claimed m fun _ => rfl] at hc
    rw [hkeep Node.inDegree m fun _ => rfl]
    exact h.waits m (by omega) hyes hc hdue
  · rw [hkeep Node.claimed m fun _ => rfl] at hc
    rw [hkeep Node.work m fun _ => rfl]
    exact h.stocked m (by omega) hc

/-- Splitting a job keeps a graph exact. -/
theorem splitPart (h : g.Exact load due) (hs : g.Coherent load) {n : Nat} (hn : 0 < load n) :
    (g.updateNode n fun m => { m with parts := m.parts + 1 }).Exact (addLoad load n) due := by
  obtain ⟨hlt, hclaimed, _⟩ := hs.of_load_pos hn
  refine h.setParts hlt hclaimed (f := (· + 1)) ?_ fun m hm => ?_
  · rw [h.parts n hclaimed, addLoad, if_pos rfl]
    push_cast
    rfl
  · rw [addLoad, if_neg hm, Nat.add_zero]

/-- Finishing a part that is not the last one keeps a graph exact. -/
theorem finishPart_of_ne_one (h : g.Exact load due) (hs : g.Coherent load) {n : Nat}
    (hn : 0 < load n) :
    (g.updateNode n fun m => { m with parts := m.parts - 1 }).Exact (dropLoad load n) due := by
  obtain ⟨hlt, hclaimed, _⟩ := hs.of_load_pos hn
  refine h.setParts hlt hclaimed (f := (· - 1)) ?_ fun m hm => ?_
  · rw [h.parts n hclaimed, dropLoad, if_pos rfl]
    omega
  · rw [dropLoad, if_neg hm, Nat.sub_zero]

/-- Handing on a claimed node keeps a graph exact. -/
theorem hand (h : g.Exact load due) {hand : Hand κ β} {nodeOf : β → NodeId}
    (hhand : hand.Faithful nodeOf) {n : Nat} (hclaimed : (g.node n).claimed = true) :
    (hand g n).state.Exact load due := by
  rcases hhand.state g n with heq | heq
  · rwa [heq]
  · rw [heq]
    refine h.setWork n fun hc => ?_
    rw [hclaimed] at hc
    cases hc

/-- Claiming a node lets it have its one job. -/
theorem claim (h : g.Exact load due) (hs : g.Coherent load) {n : Nat} (hn : n < g.nodes.size)
    (hunclaimed : (g.node n).claimed = false) :
    (g.claim n).1.Exact (addLoad load n) due := by
  have hself : (g.claim n).1.node n = { g.node n with claimed := true } :=
    node_updateNode_self _ hn
  have hother : ∀ m : Nat, n ≠ m → (g.claim n).1.node m = g.node m := fun m hm =>
    node_updateNode_of_ne _ hm
  have hsize : (g.claim n).1.nodes.size = g.nodes.size := size_nodes_updateNode ..
  have hedge : ∀ m : Nat, (g.claim n).1.edgeCount m = g.edgeCount m := fun m =>
    total_congr hsize fun i => by
      by_cases hi : n = i
      · rw [← hi, hself]
      · rw [hother i hi]
  have hne : ∀ m : Nat, ((g.claim n).1.node m).claimed = false → n ≠ m := by
    rintro m hm rfl
    rw [hself] at hm
    cases hm
  refine ⟨fun m => ?_, fun m hm => ?_, fun m hm => ?_, fun m hm hyes hc hdue => ?_,
    fun m hm hc => ?_⟩
  · rw [hedge, ← h.inDegree]
    by_cases hm : n = m
    · rw [← hm, hself]
    · rw [hother m hm]
  · by_cases hm' : n = m
    · subst hm'
      rw [hself, addLoad, if_pos rfl, (hs.of_not_claimed hunclaimed).1]
      exact h.fresh n hunclaimed
    · rw [hother m hm'] at hm ⊢
      rw [addLoad, if_neg (Ne.symm hm'), Nat.add_zero]
      exact h.parts m hm
  · have hm' := hne m hm
    rw [hother m hm'] at hm ⊢
    exact h.fresh m hm
  · have hm' := hne m hc
    unfold isArmed at hyes
    rw [hother m hm'] at hyes hc ⊢
    exact h.waits m (by omega) hyes hc hdue
  · have hm' := hne m hc
    rw [hother m hm'] at hc ⊢
    exact h.stocked m (by omega) hc

/-- When a walk through the list of a completed node takes all of its edges, the graph stays exact.
Every node claimed on the way has a job. -/
theorem released (h : g.Exact load due) (hs : g.Coherent load) {n : Nat} (hn : 0 < load n)
    (hparts : (g.node n).parts = 1) {ready : List NodeId}
    (hr : Released (g.retire n) (g.entries n) ready g') :
    g'.Exact (fun m => dropLoad load n m + ready.count m) due := by
  obtain ⟨hlt, hclaimed, _⟩ := hs.of_load_pos hn
  have hkeep {α : Type} (φ : Node κ → α) (m : Nat)
      (hφ : ∀ x : Node κ, φ { x with parts := x.parts - 1, successors := .closed } = φ x) :
      φ ((g.retire n).node m) = φ (g.node m) := field_updateNode φ m hφ
  have hdegree : ∀ m : Nat, ((g.retire n).node m).inDegree = (g.node m).inDegree := fun m =>
    hkeep Node.inDegree m fun _ => rfl
  have hclaims : ∀ m : Nat, ((g.retire n).node m).claimed = (g.node m).claimed := fun m =>
    hkeep Node.claimed m fun _ => rfl
  have hload := h.parts n hclaimed
  have hunready : ∀ m : Nat, (g.node m).claimed = true → m ∉ ready := fun m hm hmem => by
    have hfree := ((hr.mem_ready m).mp hmem).1
    rw [hclaims, hm] at hfree
    cases hfree
  have hstill : ∀ m : Nat, (g'.node m).claimed = false →
      (g.node m).claimed = false ∧ m ∉ ready := fun m hm => by
    rw [← Bool.not_eq_true, hr.claimed, not_or, hclaims, Bool.not_eq_true] at hm
    exact hm
  refine ⟨fun m => ?_, fun m hm => ?_, fun m hm => ?_, fun m hm hyes hc hdue => ?_,
    fun m hm hc => ?_⟩
  · have hedge := edgeCount_retire hlt m
    rw [hr.inDegree, hdegree, h.inDegree, hr.edgeCount]
    omega
  · rw [hr.parts]
    rcases (hr.claimed m).mp hm with hold | hnew
    · rw [hclaims] at hold
      rw [List.count_eq_zero.mpr (hunready m hold), Nat.add_zero]
      by_cases heq : n = m
      · subst heq
        rw [node_retire_self hlt, dropLoad, if_pos rfl]
        dsimp only
        omega
      · rw [node_retire_of_ne heq, dropLoad, if_neg (Ne.symm heq), Nat.sub_zero]
        exact h.parts m hold
    · have hfree := ((hr.mem_ready m).mp hnew).1
      rw [hclaims] at hfree
      have hne : n ≠ m := by
        rintro rfl
        rw [hclaimed] at hfree
        cases hfree
      have hone : ready.count m = 1 := List.count_eq_one_of_mem hr.nodup hnew
      rw [node_retire_of_ne hne, h.fresh m hfree, hone, dropLoad, if_neg (Ne.symm hne),
        (hs.of_not_claimed hfree).1]
      rfl
  · have hfree := (hstill m hm).1
    have hne : n ≠ m := by
      rintro rfl
      rw [hclaimed] at hfree
      cases hfree
    rw [hr.parts, node_retire_of_ne hne, h.fresh m hfree]
  · obtain ⟨hfree, hnot⟩ := hstill m hc
    rw [hr.isArmed, isArmed_retire] at hyes
    rw [hr.size, size_nodes_retire] at hm
    have hwaits := h.waits m hm hyes hfree hdue
    have hmem := hr.mem_ready m
    rw [hclaims, isArmed_retire, hdegree] at hmem
    have hcount := hs.edgeCount_le m
    have hdegree' := h.inDegree m
    rw [hr.inDegree, hdegree]
    -- A node whose last edge was taken would be among those claimed on the way.
    intro hzero
    exact hnot (hmem.mpr ⟨hfree, hyes, by omega, by omega⟩)
  · obtain ⟨hfree, hnot⟩ := hstill m hc
    rw [hr.size, size_nodes_retire] at hm
    rw [hr.work m hnot, hkeep Node.work m fun _ => rfl]
    exact h.stocked m hm hfree

/-- Finishing a part without a fault keeps a graph exact. -/
theorem finishPart (h : g.Exact load due) (hs : g.Coherent load) {hand : Hand κ β}
    {nodeOf : β → NodeId} (hhand : hand.Faithful nodeOf) {n : Nat} (hn : 0 < load n)
    (hfault : (Graph.finishPart hand g n).fault = none) :
    (Graph.finishPart hand g n).graph.Exact (fun m =>
      dropLoad load n m + ((Graph.finishPart hand g n).items.map nodeOf).count m) due := by
  have hfinished := hs.finished hhand hn
  generalize Graph.finishPart hand g n = handed at hfinished hfault ⊢
  cases hfinished with
  | part _ => exact h.finishPart_of_ne_one hs hn
  | stopped _ _ hyes => exact absurd hfault hyes
  | last hparts hwalk hnone =>
    obtain ⟨rfl, hitems⟩ := hwalk.complete hnone
    dsimp only
    rw [hitems]
    exact (h.released hs hn hparts hwalk.released).finishOne _

end Exact

end Graph

end HazardFlow
