import HazardFlow.Proofs.Graph.FirstJobs
import HazardFlow.Proofs.Graph.Precedence
import Mathlib.Data.Fintype.EquivFin

/-!
# Nodes that wait in vain

A node waits in vain when a chain of edges leads to it from a node that nothing can bring on, or from
a cycle. Since there are finitely many nodes, this is the case for every node that waits, along with
others, for nothing but each other and such nodes. Chains last for as long as none of their nodes
completes.
-/

namespace HazardFlow.Graph

variable {κ β : Type} {g g' : Graph κ} {blocked blocked' : NodeId → Prop} {n : NodeId}

/-- A node stands in the list of successors of another one. -/
def Edge (g : Graph κ) (i j : NodeId) : Prop := j ∈ g.entries i

/-- A chain of edges leads to a node from one that is blocked, or from a cycle. -/
def Jammed (g : Graph κ) (blocked : NodeId → Prop) (n : NodeId) : Prop :=
  ∃ i, Relation.ReflTransGen g.Edge i n ∧ (blocked i ∨ Relation.TransGen g.Edge i i)

/-- A node with an edge exists, since only its list can hold edges. -/
theorem Edge.lt {i j : NodeId} (h : g.Edge i j) : i < g.nodes.size := by
  by_contra hge
  unfold Edge entries at h
  rw [node_of_size_le (Nat.not_lt.mp hge)] at h
  exact absurd h List.not_mem_nil

/-- A jammed node is blocked, or has an edge from a jammed one. -/
theorem Jammed.cases (h : g.Jammed blocked n) : blocked n ∨ ∃ i, g.Edge i n := by
  obtain ⟨i, hchain, hstart⟩ := h
  rcases Relation.ReflTransGen.cases_tail hchain with rfl | ⟨j, _, hlast⟩
  · rcases hstart with hblocked | hcycle
    · exact Or.inl hblocked
    · obtain ⟨j, _, hlast⟩ := Relation.TransGen.tail'_iff.mp hcycle
      exact Or.inr ⟨j, hlast⟩
  · exact Or.inr ⟨j, hlast⟩

/-- As long as there is no cycle among certain nodes, one of them always comes first. -/
theorem wellFounded_leads (before : NodeId → Prop)
    (hfree : ∀ i : Nat, before i → ¬ Relation.TransGen g.Edge i i) :
    WellFounded fun i j : { i : Fin g.nodes.size // before i } =>
      Relation.TransGen g.Edge i.val j.val := by
  have : IsTrans { i : Fin g.nodes.size // before i }
      fun i j => Relation.TransGen g.Edge i.val j.val := ⟨fun _ _ _ hij hjk => hij.trans hjk⟩
  have : Std.Irrefl fun i j : { i : Fin g.nodes.size // before i } =>
      Relation.TransGen g.Edge i.val j.val := ⟨fun i => hfree i.val i.property⟩
  exact Finite.wellFounded_of_trans_of_irrefl _

/-- Nodes each of which is blocked or has an edge from another of them are jammed. -/
theorem jammed_of_forall (stuck : NodeId → Prop)
    (hwaits : ∀ n : Nat, stuck n → blocked n ∨ ∃ i, stuck i ∧ g.Edge i n) (hn : stuck n) :
    g.Jammed blocked n := by
  by_contra hno
  have hfree (i : NodeId) (hi : Relation.ReflTransGen g.Edge i n) :
      ¬ blocked i ∧ ¬ Relation.TransGen g.Edge i i :=
    ⟨fun hblocked => hno ⟨i, hi, Or.inl hblocked⟩, fun hcycle => hno ⟨i, hi, Or.inr hcycle⟩⟩
  -- The stuck nodes before `n` have no cycle, so that one of them comes first.
  have hwf := wellFounded_leads (fun i => stuck i ∧ Relation.ReflTransGen g.Edge i n)
    fun i hi => (hfree i hi.2).2
  have hnone (i : { i : Fin g.nodes.size // stuck i ∧ Relation.ReflTransGen g.Edge i n }) :
      False := by
    induction i using hwf.induction with
    | _ i ih =>
      obtain ⟨hstuck, hchain⟩ := i.property
      rcases hwaits _ hstuck with hblocked | ⟨j, hj, hedge⟩
      · exact (hfree _ hchain).1 hblocked
      · exact ih ⟨⟨j, hedge.lt⟩, hj, .head hedge hchain⟩ (.single hedge)
  rcases hwaits n hn with hblocked | ⟨i, hi, hedge⟩
  · exact (hfree n .refl).1 hblocked
  · exact hnone ⟨⟨i, hedge.lt⟩, hi, .single hedge⟩

/-- Jammed nodes stay jammed, as long as blocked nodes stay blocked, and neither these nor nodes that
wait for others complete. -/
theorem Jammed.later (h : g.Jammed blocked n) (hlater : Later g g')
    (hblocked : ∀ i : Nat, blocked i → blocked' i)
    (hopen : ∀ i : Nat, (blocked i ∨ ∃ j, g.Edge j i) → g'.isComplete i = false) :
    g'.Jammed blocked' n := by
  have hedge {i j : NodeId} (hi : blocked i ∨ ∃ k, g.Edge k i) (hij : g.Edge i j) :
      g'.Edge i j := by
    apply (hlater.entries i j hij).resolve_left
    intro hcomplete
    rw [hopen i hi] at hcomplete
    cases hcomplete
  have hchain {i j : NodeId} (hi : blocked i ∨ ∃ k, g.Edge k i)
      (hij : Relation.ReflTransGen g.Edge i j) :
      Relation.ReflTransGen g'.Edge i j ∧ (blocked j ∨ ∃ k, g.Edge k j) := by
    induction hij with
    | refl => exact ⟨.refl, hi⟩
    | tail _ hlast ih => exact ⟨ih.1.tail (hedge ih.2 hlast), Or.inr ⟨_, hlast⟩⟩
  obtain ⟨i, hin, hstart⟩ := h
  rcases hstart with hi | hcycle
  · exact ⟨i, (hchain (Or.inl hi) hin).1, Or.inl (hblocked i hi)⟩
  · obtain ⟨j, hij, hlast⟩ := Relation.TransGen.tail'_iff.mp hcycle
    have hi : blocked i ∨ ∃ k, g.Edge k i := Or.inr ⟨j, hlast⟩
    obtain ⟨hij', hj⟩ := hchain hi hij
    exact ⟨i, (hchain hi hin).1, Or.inr (.tail' hij' (hedge hj hlast))⟩

/-- Edges onto a node are made and taken. Those that are left are counted by the node, although no
list holds them any more. -/
structure EdgesChange (g g' : Graph κ) (n : NodeId) (made taken left : Nat) : Prop where
  inDegree : (g'.node n).inDegree = (g.node n).inDegree + made - taken
  edgeCount : g'.edgeCount n + taken + left = g.edgeCount n + made

namespace EdgesChange

/-- Nothing changes for the edges. -/
theorem of_same (hdegree : (g'.node n).inDegree = (g.node n).inDegree)
    (hedge : g'.edgeCount n = g.edgeCount n) : EdgesChange g g' n 0 0 0 := by
  constructor
  · omega
  · omega

/-- An update that touches no edges. -/
theorem updateNode (m : NodeId) {f : Node κ → Node κ}
    (hdegree : ∀ x, (f x).inDegree = x.inDegree := by intro x; rfl)
    (hlist : ∀ x, (f x).successors = x.successors := by intro x; rfl) :
    EdgesChange g (g.updateNode m f) n 0 0 0 :=
  .of_same (field_updateNode Node.inDegree n hdegree) (edgeCount_updateNode n hlist)

/-- Handing on a node takes no edges. -/
theorem hand {hand : Hand κ β} {nodeOf : β → NodeId} (hhand : hand.Faithful nodeOf)
    (g : Graph κ) (m : NodeId) : EdgesChange g (hand (g.claim m).1 m).state n 0 0 0 := by
  apply of_same
  · exact (hhand.field _ Node.inDegree m n).trans (field_updateNode Node.inDegree n)
  · have hclaim : (g.claim m).1.edgeCount n = g.edgeCount n := edgeCount_updateNode n
    rw [← hclaim]
    exact total_congr (hand_of_ne hhand _ m).1 fun i => by rw [hhand.field _ Node.successors m i]

/-- Wiring a node makes edges. -/
theorem wired {m : NodeId} {sources : List NodeId} (h : Wired g m sources g') :
    EdgesChange g g' n (if n = m then sources.countP (g.records · m) else 0) 0 0 := by
  constructor
  · rw [h.inDegree]
    split <;> simp
  · exact h.edgeCount n

/-- A walk takes the edges of the entries that it goes through, and leaves those of the others. -/
theorem released {m : NodeId} {walked left ready : List NodeId}
    (h : Released (g.retire m) walked ready g') (hm : m < g.nodes.size)
    (hentries : walked ++ left = g.entries m) :
    EdgesChange g g' n 0 (walked.count n) (left.count n) := by
  have hdegree : ((g.retire m).node n).inDegree = (g.node n).inDegree :=
    field_updateNode Node.inDegree n
  have hclosed := edgeCount_retire hm n
  rw [← hentries, List.count_append] at hclosed
  constructor
  · rw [h.inDegree, hdegree]
    omega
  · rw [h.edgeCount]
    omega

end EdgesChange

/-- Finishing a part takes the edges of some of the entries of its node, and leaves edges only if a
fault comes up. -/
theorem Finished.exists_edgesChange {hand : Hand κ β} {nodeOf : β → NodeId} {handed : Handed κ β}
    (h : Finished hand nodeOf g n handed) (hn : n < g.nodes.size) :
    ∃ walked left : List NodeId, (handed.fault = none → left = []) ∧
      ∀ m : Nat, EdgesChange g handed.graph m 0 (walked.count m) (left.count m) := by
  cases h with
  | part _ => exact ⟨[], [], fun _ => rfl, fun m => .updateNode n⟩
  | stopped _ hwalk hfault =>
    obtain ⟨left, hentries⟩ := hwalk.walked_isPrefix
    exact ⟨_, left, fun hnone => absurd hnone hfault, fun m => .released hwalk.released hn hentries⟩
  | last _ hwalk hfault =>
    obtain ⟨rfl, _⟩ := hwalk.complete hfault
    refine ⟨g.entries n, [], fun _ => rfl, fun m => ?_⟩
    have hchange : EdgesChange g _ m 0 _ _ :=
      .released hwalk.released hn (List.append_nil _)
    exact ⟨hchange.inDegree, hchange.edgeCount⟩

/-- The nodes that finishing a part passes on have been waiting for something. -/
theorem Finished.one_le_inDegree {hand : Hand κ β} {nodeOf : β → NodeId} {handed : Handed κ β}
    (h : Finished hand nodeOf g n handed) {m : Nat} (hm : m ∈ passedOnBy hand g n) :
    1 ≤ (g.node m).inDegree := by
  have hdegree : ((g.retire n).node m).inDegree = (g.node m).inDegree :=
    field_updateNode Node.inDegree m
  rw [← hdegree]
  unfold passedOnBy at hm
  cases h with
  | part hparts =>
    rw [if_neg hparts] at hm
    exact absurd hm List.not_mem_nil
  | stopped hparts hwalk _ =>
    rw [if_pos hparts, hwalk.released.mem_ready] at hm
    exact hm.2.2.1
  | last hparts hwalk _ =>
    rw [if_pos hparts, hwalk.released.mem_ready] at hm
    exact hm.2.2.1

end HazardFlow.Graph
