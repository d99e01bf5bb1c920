import HazardFlow.Proofs.Graph.Passing
import Mathlib.Data.List.Perm.Basic

/-!
# Completions in any order

Finishing a part is two things: the node sheds the part, which concerns the node and its batch, and
with the last part it gives up its edges, which one walk takes from its successors. Shedding parts
commutes, and walks that name each node equally often end alike. So the order of the calls decides
which of them claims a node that becomes ready, and nothing else.
-/

namespace HazardFlow.Graph

variable {κ β : Type}

/-- What finishing a part of a node does to the node itself and to its batch. -/
def shed (g : Graph κ) (n : NodeId) : Graph κ :=
  if (g.node n).parts = 1 then (g.retire n).finishOne (g.node n).batch
  else g.updateNode n fun m => { m with parts := m.parts - 1 }

/-- The edges that a node gives up when a part of it finishes. -/
def givenUp (g : Graph κ) (n : NodeId) : List NodeId :=
  if (g.node n).parts = 1 then g.entries n else []

/-- What finishing parts in turn does to their nodes and batches. -/
def shedAll (g : Graph κ) (calls : List NodeId) : Graph κ := calls.foldl shed g

/-- The edges that are given up when parts finish in turn. -/
def givenUpBy (g : Graph κ) : List NodeId → List NodeId
  | [] => []
  | n :: rest => g.givenUp n ++ givenUpBy (g.shed n) rest

/-- Finishes a part for every call in turn. A fault stops it. -/
def finishEach (hand : Hand κ β) (g : Graph κ) : List NodeId → Handed κ β
  | [] => ⟨g, [], none⟩
  | n :: rest =>
    let finished := g.finishPart hand n
    match finished.fault with
    | some _ => finished
    | none =>
      let later := finishEach hand finished.graph rest
      { later with items := finished.items ++ later.items }

section Shedding

variable {hand : Hand κ β} {nodeOf : β → NodeId} {g g' : Graph κ} {n m : NodeId}
  {walked calls calls' : List NodeId} {items : List β}

@[simp] theorem size_nodes_shed (g : Graph κ) (n : NodeId) :
    (g.shed n).nodes.size = g.nodes.size := by
  unfold shed
  split
  · exact size_nodes_retire g n
  · exact size_nodes_updateNode ..

theorem node_shed_of_ne (h : n ≠ m) : (g.shed n).node m = g.node m := by
  unfold shed
  split
  · exact node_retire_of_ne h
  · exact node_updateNode_of_ne _ h

/-- A field that is neither the parts nor the successors is kept. -/
theorem field_shed {α : Type} (φ : Node κ → α) (g : Graph κ) (n m : NodeId)
    (hφ : ∀ x parts successors, φ { x with parts, successors } = φ x := by intros; rfl) :
    φ ((g.shed n).node m) = φ (g.node m) := by
  unfold shed
  split
  · exact field_updateNode φ m fun x => hφ x _ _
  · exact field_updateNode φ m fun x => hφ x _ x.successors

theorem armed_shed (g : Graph κ) (n : NodeId) (b : BatchId) :
    ((g.shed n).batch b).armed = (g.batch b).armed := by
  unfold shed
  split
  · exact field_updateBatch Batch.armed b
  · rfl

theorem isArmed_shed (g : Graph κ) (n m : NodeId) : (g.shed n).isArmed m = g.isArmed m := by
  unfold isArmed
  rw [field_shed Node.batch, armed_shed]

/-- Updates at different places of an array commute. -/
theorem modify_comm {α : Type} (a : Array α) {i j : Nat} (f f' : α → α) (h : i ≠ j ∨ f = f') :
    (a.modify i f).modify j f' = (a.modify j f').modify i f := by
  by_cases hij : i = j
  · rw [hij, h.resolve_left (not_not.mpr hij)]
  · apply Array.toList_inj.mp
    simp only [Array.toList_modify]
    exact List.modify_modify_ne _ _ _ hij

/-- Parts are shed in any order. -/
theorem shed_comm (g : Graph κ) (n m : NodeId) : (g.shed n).shed m = (g.shed m).shed n := by
  by_cases hne : n = m
  · rw [hne]
  · have hm : (g.shed n).node m = g.node m := node_shed_of_ne hne
    have hn : (g.shed m).node n = g.node n := node_shed_of_ne (Ne.symm hne)
    have hnodes (f f' : Node κ → Node κ) := modify_comm g.nodes f f' (Or.inl hne)
    rw [shed, hm, shed.eq_1 (g.shed m), hn]
    unfold shed retire finishOne updateNode updateBatch
    split <;> split
    · simp only [hnodes]
      rw [modify_comm g.batches _ _ (Or.inr rfl)]
    all_goals simp only [hnodes]

theorem shedAll_perm (h : calls.Perm calls') (g : Graph κ) :
    g.shedAll calls = g.shedAll calls' :=
  have : RightCommutative (shed (κ := κ)) := ⟨shed_comm⟩
  h.foldl_eq g

theorem givenUp_shed (h : n ≠ m) : (g.shed n).givenUp m = g.givenUp m := by
  unfold givenUp entries
  rw [node_shed_of_ne h]

/-- The edges that are given up do not depend on the order of the calls. -/
theorem givenUpBy_perm (h : calls.Perm calls') (g : Graph κ) :
    (g.givenUpBy calls).Perm (g.givenUpBy calls') := by
  induction h generalizing g with
  | nil => exact .refl _
  | cons n _ ih => exact (ih _).append_left _
  | swap n m rest =>
    by_cases hne : n = m
    · rw [hne]
    · simp only [givenUpBy]
      rw [shed_comm g m n, givenUp_shed hne, givenUp_shed (Ne.symm hne)]
      exact List.perm_append_comm_assoc ..
  | trans _ _ ih ih' => exact (ih g).trans (ih' g)

/-- Shedding a part of a node. -/
theorem node_shed_self (hn : n < g.nodes.size) : (g.shed n).node n =
    { g.node n with
      parts := (g.node n).parts - 1
      successors := if (g.node n).parts = 1 then .closed else (g.node n).successors } := by
  unfold shed
  split
  · exact node_retire_self hn
  · exact node_updateNode_self _ hn

/-- What a walk does is the same after a part was shed. -/
theorem Released.shed {ready : List NodeId} (h : Released g walked ready g') (n : NodeId) :
    Released (g.shed n) walked ready (g'.shed n) where
  size := by rw [size_nodes_shed, size_nodes_shed, h.size]
  batches := by
    unfold Graph.shed
    rw [h.parts, h.batchOf]
    split
    · unfold finishOne updateBatch
      dsimp only [retire, batches_updateNode]
      rw [h.batches]
    · exact h.batches
  node m := by
    by_cases hne : n = m
    · subst hne
      by_cases hn : n < g.nodes.size
      · rw [node_shed_self hn, node_shed_self (by rw [h.size]; exact hn), h.parts, h.successors,
          h.node n]
      · have hge := Nat.le_of_not_lt hn
        rw [node_of_size_le (g := g'.shed n) (by rwa [size_nodes_shed, h.size]),
          node_of_size_le (g := g.shed n) (by rwa [size_nodes_shed])]
    · rw [node_shed_of_ne hne, node_shed_of_ne hne]
      exact h.node m
  inDegree m := by rw [field_shed Node.inDegree, field_shed Node.inDegree, h.inDegree]
  claimed m := by rw [field_shed Node.claimed, field_shed Node.claimed, h.claimed]
  work m hm := by rw [field_shed Node.work, field_shed Node.work, h.work m hm]
  mem_ready m := by
    rw [field_shed Node.claimed, field_shed Node.inDegree, isArmed_shed]
    exact h.mem_ready m
  nodup := h.nodup

/-- The edges that nodes give up are not affected by a walk. -/
theorem Released.givenUpBy {ready : List NodeId} (h : Released g walked ready g')
    (calls : List NodeId) : g'.givenUpBy calls = g.givenUpBy calls := by
  induction calls generalizing g g' with
  | nil => rfl
  | cons n rest ih =>
    simp only [Graph.givenUpBy, givenUp]
    rw [h.parts, h.entries, ih (h.shed n)]

theorem Passed.shed (hhand : hand.Local nodeOf) (h : Passed hand nodeOf g walked items g')
    (n : NodeId) : Passed hand nodeOf (g.shed n) walked items (g'.shed n) where
  toReleased := h.toReleased.shed n
  made item hitem := by
    rw [hhand.result (field_shed Node.work g n _)]
    exact h.made item hitem
  taken m hm := by
    rw [field_shed Node.work, h.taken m hm]
    exact hhand.work (size_nodes_shed g n).symm (field_shed Node.work g n m).symm

theorem Passed.shedAll (hhand : hand.Local nodeOf) (h : Passed hand nodeOf g walked items g')
    (calls : List NodeId) :
    Passed hand nodeOf (g.shedAll calls) walked items (g'.shedAll calls) := by
  induction calls generalizing g g' with
  | nil => exact h
  | cons n rest ih => exact ih (h.shed hhand n)

/-- Shedding parts makes no difference to whether nodes can be handed on. -/
theorem serves_shed (hhand : hand.Local nodeOf) (n : NodeId) :
    Serves hand (g.shed n) walked ↔ Serves hand g walked := by
  have hkept (m : NodeId) := (⟨field_shed Node.claimed g n m, field_shed Node.inDegree g n m,
    field_shed Node.work g n m⟩ : _ ∧ _ ∧ _)
  constructor
  · intro h
    exact h.of_kept hhand (fun m => ⟨(hkept m).1.symm, (hkept m).2.1.symm, (hkept m).2.2.symm⟩)
      fun m => (isArmed_shed g n m).symm
  · intro h
    exact h.of_kept hhand hkept (isArmed_shed g n)

theorem serves_shedAll (hhand : hand.Local nodeOf) (calls : List NodeId) :
    Serves hand (g.shedAll calls) walked ↔ Serves hand g walked := by
  induction calls generalizing g with
  | nil => rfl
  | cons n rest ih => exact ih.trans (serves_shed hhand n)

/-- Every call has a part to finish, of a node that is not complete. -/
def Finishable (g : Graph κ) (calls : List NodeId) : Prop :=
  ∀ n ∈ calls, n < g.nodes.size ∧ g.isComplete n = false ∧
    (calls.count n : Int) ≤ (g.node n).parts ∧ ∀ m ∈ g.entries n, m < g.nodes.size

theorem Finishable.of_perm (h : Finishable g calls) (hperm : calls.Perm calls') :
    Finishable g calls' := by
  intro n hn
  rw [← hperm.count_eq]
  exact h n (hperm.mem_iff.mpr hn)

/-- The calls that are left have parts left. -/
theorem Finishable.shed (h : Finishable g (n :: calls)) : Finishable (g.shed n) calls := by
  intro m hm
  obtain ⟨hlt, hopen, hle, hentries⟩ := h m (List.mem_cons_of_mem n hm)
  rw [size_nodes_shed]
  by_cases hne : n = m
  · subst hne
    have hpos := List.count_pos_iff.mpr hm
    rw [List.count_cons_self] at hle
    push_cast at hle
    have hlists : ((g.shed n).node n).successors = (g.node n).successors := by
      rw [node_shed_self hlt]
      exact if_neg (by omega)
    unfold isComplete Node.isComplete entries
    rw [hlists]
    refine ⟨hlt, hopen, ?_, hentries⟩
    rw [node_shed_self hlt]
    dsimp only
    omega
  · rw [List.count_cons_of_ne hne] at hle
    unfold isComplete entries
    rw [node_shed_of_ne hne]
    exact ⟨hlt, hopen, hle, hentries⟩

/-- A walk takes no parts. -/
theorem Finishable.of_released {ready : List NodeId} (h : Finishable g calls)
    (hr : Released g walked ready g') : Finishable g' calls := by
  intro n hn
  rw [hr.size, hr.isComplete, hr.parts, hr.entries]
  exact h n hn

/-- What a batch counts is no concern of a walk. -/
theorem Passed.finishOne (h : Passed hand nodeOf g walked items g') (hhand : hand.Local nodeOf)
    (b : BatchId) : Passed hand nodeOf (g.finishOne b) walked items (g'.finishOne b) where
  size := h.size
  batches := by
    unfold Graph.finishOne updateBatch
    rw [h.batches]
  node := h.node
  inDegree := h.inDegree
  claimed := h.claimed
  work := h.work
  mem_ready m := by
    have harmed : (g.finishOne b).isArmed m = g.isArmed m :=
      field_updateBatch Batch.armed (g.node m).batch
    rw [harmed]
    exact h.mem_ready m
  nodup := h.nodup
  made item hitem := by
    have hsame : (hand (g.finishOne b) (nodeOf item)).result = (hand g (nodeOf item)).result :=
      hhand.result rfl
    exact hsame.trans (h.made item hitem)
  taken m hm := (h.taken m hm).trans (hhand.work rfl rfl)

/-- Finishing a part without a fault sheds it and walks through what the node gives up. -/
theorem passed_finishPart (hhand : hand.Local nodeOf) (hn : n < g.nodes.size)
    (hopen : g.isComplete n = false) (hentries : ∀ m ∈ g.entries n, m < g.nodes.size)
    (hfault : (finishPart hand g n).fault = none) :
    Passed hand nodeOf (g.shed n) (g.givenUp n) (finishPart hand g n).items
      (finishPart hand g n).graph := by
  have hfinished := finished_finishPart hhand.toFaithful hn hopen hentries
  unfold shed givenUp
  generalize finishPart hand g n = handed at hfinished hfault ⊢
  cases hfinished with
  | part hparts =>
    rw [if_neg hparts, if_neg hparts]
    exact .refl _
  | stopped _ _ hyes => exact absurd hfault hyes
  | last hparts _ hnone =>
    rw [if_pos hparts, if_pos hparts]
    refine (passed_releaseAll hhand (fun m hm => ?_) hnone).finishOne hhand _
    rw [size_nodes_retire]
    exact hentries m hm

/-- No fault comes up when every node that the walk claims can be handed on. -/
theorem Serves.fault_finishPart (hhand : hand.Local nodeOf) (hn : n < g.nodes.size)
    (hopen : g.isComplete n = false) (hentries : ∀ m ∈ g.entries n, m < g.nodes.size)
    (h : Serves hand g (g.givenUp n)) : (finishPart hand g n).fault = none := by
  have hfinished := finished_finishPart hhand.toFaithful hn hopen hentries
  unfold givenUp at h
  generalize finishPart hand g n = handed at hfinished ⊢
  cases hfinished with
  | part _ => rfl
  | stopped hparts _ hfault =>
    rw [if_pos hparts] at h
    have hretired : Serves hand (g.retire n) (g.entries n) :=
      h.of_kept hhand (fun m => ⟨claimed_retire g n m, field_updateNode Node.inDegree m,
        field_updateNode Node.work m⟩) (isArmed_retire g n)
    refine absurd (hretired.fault_releaseAll hhand fun m hm => ?_) hfault
    rw [size_nodes_retire]
    exact hentries m hm
  | last _ _ hfault => exact hfault

/-- Calls that meet no fault shed their parts, and take the edges given up in one walk. -/
theorem passed_finishEach (hhand : hand.Local nodeOf) (h : Finishable g calls)
    (hfault : (finishEach hand g calls).fault = none) :
    Passed hand nodeOf (g.shedAll calls) (g.givenUpBy calls) (finishEach hand g calls).items
      (finishEach hand g calls).graph := by
  induction calls generalizing g with
  | nil => exact .refl g
  | cons n rest ih =>
    obtain ⟨hn, hopen, _, hentries⟩ := h n List.mem_cons_self
    have hfirst := passed_finishPart hhand hn hopen hentries
    unfold finishEach at hfault ⊢
    cases hf : (finishPart hand g n).fault with
    | some fault => simp [hf] at hfault
    | none =>
      have hp := hfirst hf
      simp only [hf] at hfault ⊢
      have hrest := ih (h.shed.of_released hp.toReleased) hfault
      rw [hp.givenUpBy] at hrest
      exact (hp.shedAll hhand rest).trans hhand hrest

/-- No fault stops the calls when every node that they claim together can be handed on. -/
theorem Serves.fault_finishEach (hhand : hand.Local nodeOf) (h : Finishable g calls)
    (hs : Serves hand g (g.givenUpBy calls)) : (finishEach hand g calls).fault = none := by
  induction calls generalizing g with
  | nil => rfl
  | cons n rest ih =>
    obtain ⟨hn, hopen, _, hentries⟩ := h n List.mem_cons_self
    have hf := hs.of_append.fault_finishPart hhand hn hopen hentries
    have hp := passed_finishPart hhand hn hopen hentries hf
    unfold finishEach
    simp only [hf]
    refine ih (h.shed.of_released hp.toReleased) ?_
    rw [hp.givenUpBy]
    exact ((serves_shed hhand n).mpr hs).of_passed hhand hp

/-- Both met no fault, left the same graph, and handed on the same things, none of them twice. -/
structure Alike (nodeOf : β → NodeId) (handed handed' : Handed κ β) : Prop where
  fault : handed.fault = none ∧ handed'.fault = none
  graph : handed.graph = handed'.graph
  items : handed.items.Perm handed'.items
  once : (handed.items.map nodeOf).Nodup

/-- When no fault comes up in one order of the calls, none does in any other, and both orders end
alike. -/
theorem alike_finishEach (hhand : hand.Local nodeOf) (h : Finishable g calls)
    (hperm : calls.Perm calls') (hfault : (finishEach hand g calls).fault = none) :
    Alike nodeOf (finishEach hand g calls) (finishEach hand g calls') := by
  have h' := h.of_perm hperm
  have hp := passed_finishEach hhand h hfault
  have hwalked := givenUpBy_perm hperm g
  have hserves := ((serves_shedAll hhand calls).mp hp.serves).of_perm hwalked
  have hfault' := hserves.fault_finishEach hhand h'
  have hp' := passed_finishEach hhand h' hfault'
  rw [← shedAll_perm hperm] at hp'
  obtain ⟨hgraph, hitems⟩ := hp.alike hp' hwalked
  exact ⟨⟨hfault, hfault'⟩, hgraph, hitems, hp.nodup⟩

end Shedding

end HazardFlow.Graph
