import HazardFlow.Proofs.Graph.Preservation
import Mathlib.Logic.Relation

/-!
# What a node waits for

A node waits for another one along an edge until the source is complete, and along chains of such
edges. Whatever happens to the graph, a chain stays a chain: an edge is lost only when its source
completes, and a complete source holds nothing up. In a coherent graph every node at the start of a
chain is complete once the node at its end has been claimed.
-/

namespace HazardFlow.Graph

variable {κ β : Type}

/-- A complete node holds nothing up, and any other holds up the nodes in its list. -/
def HoldsUp (g : Graph κ) (i j : NodeId) : Prop := g.isComplete i = true ∨ j ∈ g.entries i

/-- A chain of nodes each of which holds up the next one. -/
def Reaches (g : Graph κ) : NodeId → NodeId → Prop := Relation.ReflTransGen g.HoldsUp

/-- The second graph comes later than the first: complete nodes stay complete, and entries are
lost only when their node completes. -/
structure Later (g g' : Graph κ) : Prop where
  isComplete : ∀ i : Nat, g.isComplete i = true → g'.isComplete i = true
  entries : ∀ i m : Nat, m ∈ g.entries i → g'.isComplete i = true ∨ m ∈ g'.entries i

namespace Later

variable {g g' g'' : Graph κ}

theorem refl (g : Graph κ) : Later g g := ⟨fun _ h => h, fun _ _ h => Or.inr h⟩

theorem trans (h : Later g g') (h' : Later g' g'') : Later g g'' where
  isComplete i hi := h'.isComplete i (h.isComplete i hi)
  entries i m hm := by
    rcases h.entries i m hm with hdone | hmem
    · exact Or.inl (h'.isComplete i hdone)
    · exact h'.entries i m hmem

/-- A graph with the same lists of successors comes later. -/
theorem of_successors (h : ∀ i : Nat, (g'.node i).successors = (g.node i).successors) :
    Later g g' where
  isComplete i hi := by
    unfold Graph.isComplete Node.isComplete at hi ⊢
    rwa [h i]
  entries i m hm := by
    right
    unfold Graph.entries at hm ⊢
    rwa [h i]

/-- What holds up a node goes on to do so. -/
theorem holdsUp (h : Later g g') {i j : Nat} (hij : g.HoldsUp i j) : g'.HoldsUp i j := by
  rcases hij with hdone | hmem
  · exact Or.inl (h.isComplete i hdone)
  · exact h.entries i j hmem

/-- Chains last. -/
theorem reaches (h : Later g g') {i j : Nat} (hij : g.Reaches i j) : g'.Reaches i j :=
  Relation.ReflTransGen.mono (fun _ _ hstep => h.holdsUp hstep) i j hij

/-- An update that touches no list of successors comes later. -/
theorem updateNode (n : Nat) {f : Node κ → Node κ} (hf : ∀ x, (f x).successors = x.successors := by
    intro x; rfl) : Later g (g.updateNode n f) :=
  of_successors fun i => field_updateNode Node.successors i hf

theorem startBatch (g : Graph κ) : Later g g.startBatch.1 := of_successors fun _ => rfl

theorem register (g : Graph κ) (b : Nat) : Later g (g.register b) := of_successors fun _ => rfl

theorem finishOne (g : Graph κ) (b : Nat) : Later g (g.finishOne b) := of_successors fun _ => rfl

theorem arm (g : Graph κ) (b : Nat) : Later g (g.arm b) := of_successors fun _ => rfl

theorem addNode (g : Graph κ) (work : Work κ) (b : Nat) (profile : Option Profile) :
    Later g (g.addNode work b profile).1 :=
  of_successors (successors_addNode g work b profile)

theorem wired {n : Nat} {sources : List NodeId} (h : Wired g n sources g') : Later g g' where
  isComplete i hi := by rwa [h.isComplete]
  entries i _ hm := Or.inr (h.entries_subset i hm)

theorem released {walked ready : List NodeId} (h : Released g walked ready g') : Later g g' :=
  of_successors h.successors

/-- Closing a list completes its node. -/
theorem retire {n : Nat} (hn : n < g.nodes.size) : Later g (g.retire n) where
  isComplete i hi := by
    by_cases h : n = i
    · rw [← h, Graph.isComplete, node_retire_self hn]
      rfl
    · rwa [Graph.isComplete, node_retire_of_ne h]
  entries i m hm := by
    by_cases h : n = i
    · left
      rw [← h, Graph.isComplete, node_retire_self hn]
      rfl
    · right
      rwa [Graph.entries, node_retire_of_ne h]

end Later

/-- Wiring puts every source before the node. -/
theorem Wired.holdsUp {g g' : Graph κ} {n : Nat} {sources : List NodeId}
    (h : Wired g n sources g') {i : Nat} (hi : i ∈ sources) (hne : i ≠ n) : g'.HoldsUp i n := by
  cases hopen : g.isComplete i with
  | true => exact Or.inl (by rw [h.isComplete, hopen])
  | false => exact Or.inr (h.mem_entries_of_mem hi hne hopen)

/-- Every source reaches the node that is wired. -/
theorem Wired.reaches {g g' : Graph κ} {n : Nat} {sources : List NodeId}
    (h : Wired g n sources g') {i : Nat} (hi : i ∈ sources) : g'.Reaches i n := by
  by_cases hne : i = n
  · rw [hne]
    exact Relation.ReflTransGen.refl
  · exact Relation.ReflTransGen.single (h.holdsUp hi hne)

namespace Coherent

variable {g : Graph κ} {load : NodeId → Nat}

/-- Once a node has been claimed, whatever holds it up is complete. -/
theorem isComplete_of_holdsUp (h : g.Coherent load) {i j : Nat} (hij : g.HoldsUp i j)
    (hj : (g.node j).claimed = true) : g.isComplete i = true := by
  rcases hij with hdone | hmem
  · exact hdone
  · have hunclaimed := h.not_claimed_of_mem hmem
    rw [hj] at hunclaimed
    cases hunclaimed

/-- Once the end of a chain has been claimed, so have all of its nodes. -/
theorem claimed_of_reaches (h : g.Coherent load) {i j : Nat} (hij : g.Reaches i j)
    (hj : (g.node j).claimed = true) : (g.node i).claimed = true := by
  induction hij using Relation.ReflTransGen.head_induction_on with
  | refl => exact hj
  | head hstep _ ih => exact h.claimed_of_isComplete _ (h.isComplete_of_holdsUp hstep ih)

/-- Once the end of a chain has been claimed, the nodes before it are complete. -/
theorem isComplete_of_reaches (h : g.Coherent load) {i j : Nat} (hij : g.Reaches i j) (hne : i ≠ j)
    (hj : (g.node j).claimed = true) : g.isComplete i = true := by
  rcases Relation.ReflTransGen.cases_head hij with heq | ⟨m, hstep, hrest⟩
  · exact absurd heq hne
  · exact h.isComplete_of_holdsUp hstep (h.claimed_of_reaches hrest hj)

end Coherent

end HazardFlow.Graph
