import HazardFlow.Proofs.Graph.Soundness

/-!
# What keeps a graph coherent

One fact for each step of a node's life: it is added, wired, claimed, split, and finishes its
parts. Each says how the load changes. The step that completes a node is put together from closing
its list and from the walk that releases its successors.
-/

namespace HazardFlow.Graph.Coherent

variable {κ β : Type} {g g' : Graph κ} {load : NodeId → Nat}

/-- Starting a batch keeps a graph coherent. -/
theorem startBatch (h : g.Coherent load) : g.startBatch.1.Coherent load where
  batch_lt n hn := by
    have hlt := h.batch_lt n hn
    rw [size_batches_startBatch, node_startBatch]
    exact Nat.lt_succ_of_lt hlt
  entry_lt := h.entry_lt
  edgeCount_le := h.edgeCount_le
  free := h.free
  armed n hn := by
    unfold isArmed
    rw [node_startBatch, batch_startBatch_of_lt (h.batch_lt n (lt_size_of_claimed hn))]
    exact h.armed n hn
  claimed_of_load := h.claimed_of_load
  load_le := h.load_le
  isComplete_iff := h.isComplete_iff
  claimed_of_isComplete := h.claimed_of_isComplete

/-- Arming a batch keeps a graph coherent. -/
theorem arm (h : g.Coherent load) (b : Nat) : (g.arm b).Coherent load where
  batch_lt n hn := by
    unfold Graph.arm
    rw [size_batches_updateBatch]
    exact h.batch_lt n hn
  entry_lt := h.entry_lt
  edgeCount_le := h.edgeCount_le
  free := h.free
  armed n hn := by
    have harmed := h.armed n hn
    unfold isArmed at harmed ⊢
    rw [node_arm]
    by_cases hb : b = (g.node n).batch
    · subst hb
      unfold Graph.arm
      rw [batch_updateBatch_self _ (h.batch_lt n (lt_size_of_claimed hn))]
    · unfold Graph.arm
      rw [batch_updateBatch_of_ne _ hb]
      exact harmed
  claimed_of_load := h.claimed_of_load
  load_le := h.load_le
  isComplete_iff := h.isComplete_iff
  claimed_of_isComplete := h.claimed_of_isComplete

/-- Counting one finished thing of a batch keeps a graph coherent. -/
theorem finishOne (h : g.Coherent load) (b : Nat) : (g.finishOne b).Coherent load :=
  h.of_alike rfl (by simp [Graph.finishOne]) (fun c => by
    unfold Graph.finishOne
    rw [field_updateBatch Batch.armed c]) fun _ => rfl

/-- Adding a node to a batch keeps a graph coherent. -/
theorem addNode (h : g.Coherent load) {b : Nat} (hb : b < g.batches.size) (work : Work κ)
    (profile : Option Profile) : ((g.register b).addNode work b profile).1.Coherent load := by
  set added := ((g.register b).addNode work b profile).1 with hadded
  have hnew : added.node g.nodes.size = { work := some work, batch := b, profile } :=
    node_addNode_self (g.register b) work b profile
  have hold : ∀ m : Nat, m ≠ g.nodes.size → added.node m = g.node m := fun m hm =>
    node_addNode_of_ne (g := g.register b) work b profile hm
  have hsize : added.nodes.size = g.nodes.size + 1 :=
    size_nodes_addNode (g.register b) work b profile
  have hbatches : added.batches.size = g.batches.size := by simp [hadded, Graph.register]
  have harmed : ∀ c : Nat, (added.batch c).armed = (g.batch c).armed := fun c =>
    field_updateBatch (g := g) (b := b) Batch.armed c
  have hedge : ∀ m : Nat, added.edgeCount m = g.edgeCount m := fun m =>
    total_addNode (g.register b) work b profile _
  have hfresh := h.of_not_claimed (n := g.nodes.size) (by rw [node_of_size_le (le_refl _)]; rfl)
  refine ⟨fun n hn => ?_, fun i m hm => ?_, fun m => ?_, fun n hn => ?_, fun n hn => ?_,
    fun n hn => ?_, fun n => ?_, fun n => ?_, fun n hn => ?_⟩
  · by_cases hnew' : n = g.nodes.size
    · rw [hnew', hnew, hbatches]
      exact hb
    · rw [hold n hnew', hbatches]
      exact h.batch_lt n (by omega)
  · by_cases hnew' : i = g.nodes.size
    · rw [entries, hnew', hnew] at hm
      exact absurd hm List.not_mem_nil
    · rw [entries, hold i hnew'] at hm
      exact hsize ▸ Nat.lt_succ_of_lt (h.entry_lt i m hm)
  · rw [hedge]
    by_cases hnew' : m = g.nodes.size
    · have hle := h.edgeCount_le m
      rw [hnew', node_of_size_le (le_refl _)] at hle
      rw [hnew', hnew]
      exact hle
    · rw [hold m hnew']
      exact h.edgeCount_le m
  · by_cases hnew' : n = g.nodes.size
    · rw [hnew', hnew]
    · rw [hold n hnew'] at hn ⊢
      exact h.free n hn
  · by_cases hnew' : n = g.nodes.size
    · rw [hnew', hnew] at hn
      cases hn
    · rw [hold n hnew'] at hn
      have hlt := h.armed n hn
      unfold isArmed at hlt ⊢
      rw [hold n hnew', harmed]
      exact hlt
  · by_cases hnew' : n = g.nodes.size
    · rw [hnew', hfresh.1] at hn
      exact absurd hn (Nat.lt_irrefl 0)
    · rw [hold n hnew']
      exact h.claimed_of_load n hn
  · by_cases hnew' : n = g.nodes.size
    · rw [hnew', hnew, hfresh.1]
      exact Int.one_nonneg
    · rw [hold n hnew']
      exact h.load_le n
  · by_cases hnew' : n = g.nodes.size
    · rw [isComplete, hnew', hnew]
      exact iff_of_false Bool.false_ne_true Int.one_ne_zero
    · rw [isComplete, hold n hnew']
      exact h.isComplete_iff n
  · by_cases hnew' : n = g.nodes.size
    · rw [isComplete, hnew', hnew] at hn
      cases hn
    · rw [hold n hnew']
      rw [isComplete, hold n hnew'] at hn
      exact h.claimed_of_isComplete n hn

/-- Wiring an unclaimed node keeps a graph coherent. -/
theorem wired (h : g.Coherent load) {n : Nat} {sources : List NodeId} (hw : Wired g n sources g')
    (hn : n < g.nodes.size) (hunclaimed : (g.node n).claimed = false) : g'.Coherent load where
  batch_lt m hm := by
    rw [hw.batchOf, hw.batches]
    exact h.batch_lt m (by rwa [hw.size] at hm)
  entry_lt i m hm := by
    rw [hw.size]
    rcases hw.mem_entries hm with hmem | ⟨rfl, _, _⟩
    · exact h.entry_lt i m hmem
    · exact hn
  edgeCount_le m := by
    have hle := h.edgeCount_le m
    rw [hw.edgeCount, hw.inDegree]
    split <;> omega
  free m hm := by
    rw [hw.claimed] at hm
    have hne : m ≠ n := by
      rintro rfl
      rw [hunclaimed] at hm
      cases hm
    rw [hw.inDegree, if_neg hne, h.free m hm, Int.add_zero]
  armed m hm := by
    rw [hw.isArmed]
    exact h.armed m (by rwa [hw.claimed] at hm)
  claimed_of_load m hm := by
    rw [hw.claimed]
    exact h.claimed_of_load m hm
  load_le m := by
    rw [hw.parts]
    exact h.load_le m
  isComplete_iff m := by
    rw [hw.isComplete, hw.parts]
    exact h.isComplete_iff m
  claimed_of_isComplete m hm := by
    rw [hw.claimed]
    exact h.claimed_of_isComplete m (by rwa [hw.isComplete] at hm)

/-- Claiming a node that waits for nothing lets it have a job. -/
theorem claim (h : g.Coherent load) {n : Nat} (hn : n < g.nodes.size)
    (hfree : (g.node n).inDegree = 0) (harmed : g.isArmed n = true)
    (hunclaimed : (g.node n).claimed = false) : (g.claim n).1.Coherent (addLoad load n) := by
  have hself : (g.claim n).1.node n = { g.node n with claimed := true } :=
    node_updateNode_self _ hn
  have hother : ∀ m : Nat, n ≠ m → (g.claim n).1.node m = g.node m := fun m hm =>
    node_updateNode_of_ne _ hm
  have hsize : (g.claim n).1.nodes.size = g.nodes.size := size_nodes_updateNode ..
  have hkeep {α : Type} (φ : Node κ → α) (m : Nat)
      (hφ : ∀ x : Node κ, φ { x with claimed := true } = φ x) :
      φ ((g.claim n).1.node m) = φ (g.node m) := field_updateNode φ m hφ
  have hstart := h.of_not_claimed hunclaimed
  refine ⟨fun m hm => ?_, fun i m hm => ?_, fun m => ?_, fun m hm => ?_, fun m hm => ?_,
    fun m hm => ?_, fun m => ?_, fun m => ?_, fun m hm => ?_⟩
  · rw [hkeep Node.batch m fun _ => rfl]
    exact h.batch_lt m (by omega)
  · rw [hsize]
    rw [entries, hkeep Node.successors i fun _ => rfl] at hm
    exact h.entry_lt i m hm
  · have hedge : (g.claim n).1.edgeCount m = g.edgeCount m :=
      total_congr hsize fun i => by rw [hkeep Node.successors i fun _ => rfl]
    rw [hedge, hkeep Node.inDegree m fun _ => rfl]
    exact h.edgeCount_le m
  · rw [hkeep Node.inDegree m fun _ => rfl]
    by_cases hm' : n = m
    · rw [← hm', hfree]
    · exact h.free m (by rwa [hother m hm'] at hm)
  · have harmed' : (g.claim n).1.isArmed m = g.isArmed m := isArmed_updateNode m
    rw [harmed']
    by_cases hm' : n = m
    · rw [← hm', harmed]
    · exact h.armed m (by rwa [hother m hm'] at hm)
  · by_cases hm' : n = m
    · rw [← hm', hself]
    · rw [hother m hm']
      rw [addLoad, if_neg (Ne.symm hm')] at hm
      exact h.claimed_of_load m hm
  · rw [hkeep Node.parts m fun _ => rfl]
    have hle := h.load_le m
    unfold addLoad
    split
    · next heq =>
      rw [heq, hstart.1]
      omega
    · omega
  · have hcomplete : (g.claim n).1.isComplete m = g.isComplete m := by
      unfold isComplete Node.isComplete
      rw [hkeep Node.successors m fun _ => rfl]
    rw [hcomplete, hkeep Node.parts m fun _ => rfl]
    exact h.isComplete_iff m
  · by_cases hm' : n = m
    · rw [← hm', hself]
    · rw [hother m hm']
      rw [isComplete, hother m hm'] at hm
      exact h.claimed_of_isComplete m hm

/-- Changing the work of a node keeps a graph coherent. -/
theorem setWork (h : g.Coherent load) (n : Nat) (work : Option (Work κ)) :
    (g.updateNode n ({ · with work })).Coherent load := by
  refine h.of_alike (size_nodes_updateNode ..) rfl (fun _ => rfl) fun m => ?_
  by_cases hm : n = m
  · subst hm
    by_cases hn : n < g.nodes.size
    · rw [node_updateNode_self _ hn]
    · rw [node_of_size_le (by simpa using hn), node_of_size_le (by omega)]
  · rw [node_updateNode_of_ne _ hm]

/-- Handing on a node keeps a graph coherent. -/
theorem hand {hand : Hand κ β} {nodeOf : β → NodeId} (hhand : hand.Faithful nodeOf)
    (h : g.Coherent load) (n : Nat) : (hand g n).state.Coherent load := by
  rcases hhand.state g n with heq | heq
  · rwa [heq]
  · rw [heq]
    exact h.setWork n none

/-- Changing the number of parts of an incomplete node keeps a graph coherent, while some part is
left and the load fits. -/
theorem setParts (h : g.Coherent load) {load' : NodeId → Nat} {n : Nat} {f : Int → Int}
    (hn : n < g.nodes.size) (hclaimed : (g.node n).claimed = true)
    (hopen : g.isComplete n = false) (hparts : f (g.node n).parts ≠ 0)
    (hload : (load' n : Int) ≤ f (g.node n).parts) (hother : ∀ m : Nat, m ≠ n → load' m = load m) :
    (g.updateNode n fun m => { m with parts := f m.parts }).Coherent load' := by
  set changed := g.updateNode n fun m => { m with parts := f m.parts } with hchanged
  have hkeep {α : Type} (φ : Node κ → α) (m : Nat)
      (hφ : ∀ x : Node κ, φ { x with parts := f x.parts } = φ x) :
      φ (changed.node m) = φ (g.node m) := field_updateNode φ m hφ
  have hself : changed.node n = { g.node n with parts := f (g.node n).parts } := by
    rw [hchanged, node_updateNode_self _ hn]
  have hrest : ∀ m : Nat, n ≠ m → changed.node m = g.node m := fun m hm => by
    rw [hchanged, node_updateNode_of_ne _ hm]
  have hsize : changed.nodes.size = g.nodes.size := by rw [hchanged, size_nodes_updateNode]
  have hcomplete (m : Nat) : changed.isComplete m = g.isComplete m := by
    unfold isComplete Node.isComplete
    rw [hkeep Node.successors m fun _ => rfl]
  refine ⟨fun m hm => ?_, fun i m hm => ?_, fun m => ?_, fun m hm => ?_, fun m hm => ?_,
    fun m hm => ?_, fun m => ?_, fun m => ?_, fun m hm => ?_⟩
  · rw [hkeep Node.batch m fun _ => rfl]
    exact h.batch_lt m (by omega)
  · rw [entries, hkeep Node.successors i fun _ => rfl] at hm
    rw [hsize]
    exact h.entry_lt i m hm
  · have hedge : changed.edgeCount m = g.edgeCount m :=
      total_congr hsize fun i => by rw [hkeep Node.successors i fun _ => rfl]
    rw [hedge, hkeep Node.inDegree m fun _ => rfl]
    exact h.edgeCount_le m
  · rw [hkeep Node.claimed m fun _ => rfl] at hm
    rw [hkeep Node.inDegree m fun _ => rfl]
    exact h.free m hm
  · rw [hkeep Node.claimed m fun _ => rfl] at hm
    exact (isArmed_updateNode m).trans (h.armed m hm)
  · rw [hkeep Node.claimed m fun _ => rfl]
    by_cases hm' : m = n
    · rw [hm', hclaimed]
    · exact h.claimed_of_load m (by rwa [← hother m hm'])
  · by_cases hm' : m = n
    · rw [hm', hself]
      exact hload
    · rw [hrest m (Ne.symm hm'), hother m hm']
      exact h.load_le m
  · rw [hcomplete]
    by_cases hm' : m = n
    · rw [hm', hopen, hself]
      exact iff_of_false Bool.false_ne_true hparts
    · rw [hrest m (Ne.symm hm')]
      exact h.isComplete_iff m
  · rw [hkeep Node.claimed m fun _ => rfl]
    exact h.claimed_of_isComplete m (by rwa [hcomplete] at hm)

/-- Splitting a job gives its node another part. -/
theorem splitPart (h : g.Coherent load) {n : Nat} (hn : 0 < load n) :
    (g.updateNode n fun m => { m with parts := m.parts + 1 }).Coherent (addLoad load n) := by
  obtain ⟨hlt, hclaimed, hopen⟩ := h.of_load_pos hn
  have hle := h.load_le n
  refine h.setParts hlt hclaimed hopen (f := (· + 1)) (by omega) ?_ fun m hm => ?_
  · unfold addLoad
    rw [if_pos rfl]
    push_cast
    omega
  · rw [addLoad, if_neg hm, Nat.add_zero]

/-- Finishing a part that is not the last one keeps a graph coherent. -/
theorem finishPart_of_ne_one (h : g.Coherent load) {n : Nat} (hn : 0 < load n)
    (hparts : (g.node n).parts ≠ 1) :
    (g.updateNode n fun m => { m with parts := m.parts - 1 }).Coherent (dropLoad load n) := by
  obtain ⟨hlt, hclaimed, hopen⟩ := h.of_load_pos hn
  have hle := h.load_le n
  refine h.setParts hlt hclaimed hopen (f := (· - 1)) (by omega) ?_ fun m hm => ?_
  · unfold dropLoad
    rw [if_pos rfl]
    omega
  · rw [dropLoad, if_neg hm, Nat.sub_zero]

/-- Closing the list of a node whose last part finishes keeps a graph coherent. -/
theorem retire (h : g.Coherent load) {n : Nat} (hn : 0 < load n) (hparts : (g.node n).parts = 1) :
    (g.retire n).Coherent (dropLoad load n) := by
  obtain ⟨hlt, hclaimed, hopen⟩ := h.of_load_pos hn
  have hself := node_retire_self hlt
  have hother : ∀ m : Nat, n ≠ m → (g.retire n).node m = g.node m := fun m => node_retire_of_ne
  have hkeep {α : Type} (φ : Node κ → α) (m : Nat)
      (hφ : ∀ x : Node κ, φ { x with parts := x.parts - 1, successors := .closed } = φ x) :
      φ ((g.retire n).node m) = φ (g.node m) := field_updateNode φ m hφ
  refine ⟨fun m hm => ?_, fun i m hm => ?_, fun m => ?_, fun m hm => ?_, fun m hm => ?_,
    fun m hm => ?_, fun m => ?_, fun m => ?_, fun m hm => ?_⟩
  · rw [hkeep Node.batch m fun _ => rfl]
    exact h.batch_lt m (by simpa using hm)
  · rw [size_nodes_retire]
    by_cases hi : n = i
    · rw [entries, ← hi, hself] at hm
      exact absurd hm List.not_mem_nil
    · rw [entries, hother i hi] at hm
      exact h.entry_lt i m hm
  · have hedge := edgeCount_retire hlt m
    have hle := h.edgeCount_le m
    rw [hkeep Node.inDegree m fun _ => rfl]
    omega
  · rw [hkeep Node.claimed m fun _ => rfl] at hm
    rw [hkeep Node.inDegree m fun _ => rfl]
    exact h.free m hm
  · rw [hkeep Node.claimed m fun _ => rfl] at hm
    exact (isArmed_retire g n m).trans (h.armed m hm)
  · rw [hkeep Node.claimed m fun _ => rfl]
    unfold dropLoad at hm
    exact h.claimed_of_load m (by omega)
  · have hle := h.load_le m
    unfold dropLoad
    by_cases hm : n = m
    · subst hm
      rw [hself, if_pos rfl]
      dsimp only
      omega
    · rw [hother m hm, if_neg (Ne.symm hm)]
      exact hle
  · by_cases hm : n = m
    · subst hm
      rw [isComplete, hself, hparts]
      exact ⟨fun _ => rfl, fun _ => rfl⟩
    · rw [isComplete, hother m hm]
      exact h.isComplete_iff m
  · rw [hkeep Node.claimed m fun _ => rfl]
    by_cases hm' : n = m
    · rw [← hm', hclaimed]
    · rw [isComplete, hother m hm'] at hm
      exact h.claimed_of_isComplete m hm

/-- A walk that takes edges no longer listed keeps a graph coherent. Nodes claimed on the way may
have a job each. -/
theorem released (h : g.Coherent load) {walked ready items : List NodeId}
    (hr : Released g walked ready g')
    (hroom : ∀ m : Nat, (g.edgeCount m : Int) + walked.count m ≤ (g.node m).inDegree)
    (hitems : items <+: ready) : g'.Coherent fun m => load m + items.count m where
  batch_lt m hm := by
    rw [hr.batchOf, hr.batches]
    exact h.batch_lt m (by rwa [hr.size] at hm)
  entry_lt i m hm := by
    rw [hr.size]
    exact h.entry_lt i m (by rwa [hr.entries] at hm)
  edgeCount_le m := by
    have hroom' := hroom m
    rw [hr.edgeCount, hr.inDegree]
    omega
  free m hm := by
    have hroom' := hroom m
    rw [hr.inDegree]
    rcases (hr.claimed m).mp hm with hold | hnew
    · have hfree := h.free m hold
      omega
    · have hready := (hr.mem_ready m).mp hnew
      omega
  armed m hm := by
    rw [hr.isArmed]
    rcases (hr.claimed m).mp hm with hold | hnew
    · exact h.armed m hold
    · exact ((hr.mem_ready m).mp hnew).2.1
  claimed_of_load m hm := by
    rw [hr.claimed]
    by_cases hold : 0 < load m
    · exact Or.inl (h.claimed_of_load m hold)
    · exact Or.inr (hitems.subset (List.count_pos_iff.mp (by omega)))
  load_le m := by
    rw [hr.parts]
    have hcount := hitems.sublist.count_le m
    by_cases hnew : m ∈ ready
    · have hfresh := h.of_not_claimed ((hr.mem_ready m).mp hnew).1
      have hone := List.nodup_iff_count_le_one.mp hr.nodup m
      push_cast
      omega
    · have hzero := List.count_eq_zero.mpr hnew
      have hle := h.load_le m
      push_cast
      omega
  isComplete_iff m := by
    rw [hr.isComplete, hr.parts]
    exact h.isComplete_iff m
  claimed_of_isComplete m hm := by
    rw [hr.claimed]
    exact Or.inl (h.claimed_of_isComplete m (by rwa [hr.isComplete] at hm))

/-- What finishing a part of a node with a job or an event under way leaves behind. -/
theorem finished {hand : Hand κ β} {nodeOf : β → NodeId} (hhand : hand.Faithful nodeOf)
    (h : g.Coherent load) {n : Nat} (hn : 0 < load n) :
    Finished hand nodeOf g n (Graph.finishPart hand g n) := by
  obtain ⟨hlt, _, hopen⟩ := h.of_load_pos hn
  exact finished_finishPart hhand hlt hopen (h.entry_lt n)

/-- In the graph with a node retired, the edges still listed and those about to be taken are all
counted. -/
theorem room (h : g.Coherent load) {n : Nat} (hn : n < g.nodes.size) {walked : List NodeId}
    (hwalked : walked <+: g.entries n) (m : Nat) :
    ((g.retire n).edgeCount m : Int) + walked.count m ≤ ((g.retire n).node m).inDegree := by
  have hedge := edgeCount_retire hn m
  have hcount := hwalked.sublist.count_le m
  have hle := h.edgeCount_le m
  have hdegree : ((g.retire n).node m).inDegree = (g.node m).inDegree :=
    field_updateNode Node.inDegree m
  rw [hdegree]
  omega

/-- Finishing a part of a node with a job or an event under way keeps a graph coherent, also when
handing on a ready node stops with a fault. The job is gone, and every node handed on has one. -/
theorem finishPart {hand : Hand κ β} {nodeOf : β → NodeId} (hhand : hand.Faithful nodeOf)
    (h : g.Coherent load) {n : Nat} (hn : 0 < load n) :
    (Graph.finishPart hand g n).graph.Coherent fun m =>
      dropLoad load n m + ((Graph.finishPart hand g n).items.map nodeOf).count m := by
  have hlt := (h.of_load_pos hn).1
  have hfinished := h.finished hhand hn
  generalize Graph.finishPart hand g n = handed at hfinished ⊢
  cases hfinished with
  | part hparts => exact h.finishPart_of_ne_one hn hparts
  | stopped hparts hwalk _ =>
    exact (h.retire hn hparts).released hwalk.released (h.room hlt hwalk.walked_isPrefix)
      hwalk.items_isPrefix
  | last hparts hwalk _ =>
    exact ((h.retire hn hparts).released hwalk.released (h.room hlt hwalk.walked_isPrefix)
      hwalk.items_isPrefix).finishOne _

end HazardFlow.Graph.Coherent

namespace HazardFlow.Graph.Sound

variable {κ β : Type} {g g' : Graph κ} {load load' : NodeId → Nat}

/-- An empty graph is sound. -/
theorem empty : ({} : Graph κ).Sound fun _ => 0 where
  toCoherent := .empty
  older i m hm := by
    rw [entries, node_of_size_le (Nat.zero_le i)] at hm
    exact absurd hm List.not_mem_nil

/-- A graph without new entries stays sound as long as it stays coherent. -/
theorem of_entries (h : g.Sound load) (h' : g'.Coherent load')
    (hentries : ∀ i : Nat, g'.entries i ⊆ g.entries i) : g'.Sound load' where
  toCoherent := h'
  older i m hm := h.older i m (hentries i hm)

theorem startBatch (h : g.Sound load) : g.startBatch.1.Sound load :=
  ⟨h.toCoherent.startBatch, h.older⟩

theorem arm (h : g.Sound load) (b : Nat) : (g.arm b).Sound load := ⟨h.toCoherent.arm b, h.older⟩

theorem finishOne (h : g.Sound load) (b : Nat) : (g.finishOne b).Sound load :=
  ⟨h.toCoherent.finishOne b, h.older⟩

/-- Adding a node to a batch keeps a graph sound. -/
theorem addNode (h : g.Sound load) {b : Nat} (hb : b < g.batches.size) (work : Work κ)
    (profile : Option Profile) : ((g.register b).addNode work b profile).1.Sound load := by
  refine h.of_entries (h.toCoherent.addNode hb work profile) fun i => ?_
  unfold entries
  rw [successors_addNode (g.register b) work b profile]
  exact List.Subset.refl _

/-- Wiring an unclaimed node to older ones keeps a graph sound. -/
theorem wired (h : g.Sound load) {n : Nat} {sources : List NodeId} (hw : Wired g n sources g')
    (hn : n < g.nodes.size) (hunclaimed : (g.node n).claimed = false)
    (hold : ∀ i : Nat, i ∈ sources → i ≠ n → i < n) : g'.Sound load where
  toCoherent := h.toCoherent.wired hw hn hunclaimed
  older i m hm := by
    rcases hw.mem_entries hm with hmem | ⟨rfl, hi, hne⟩
    · exact h.older i m hmem
    · exact hold i hi hne

/-- Changing the work of a node keeps a graph sound. -/
theorem setWork (h : g.Sound load) (n : Nat) (work : Option (Work κ)) :
    (g.updateNode n ({ · with work })).Sound load :=
  h.of_entries (h.toCoherent.setWork n work) fun i => by
    rw [entries_updateNode]
    exact List.Subset.refl _

end HazardFlow.Graph.Sound
