import HazardFlow.Proofs.Watching.Questions
import HazardFlow.Proofs.Yard.Signal

/-!
# The order of completions

In every state that a yard can reach, any parts of dispatched nodes may finish in any order: one
after the other, in the order of a watcher's poll, in which the last entry takes the place of one
that completed, or in the order in which a watcher is drained. The graph that is left and the nodes
that become ready are the same.
-/

namespace HazardFlow

variable {κ ε β : Type}

namespace Watcher

/-- The nodes of the entries whose events have completed. -/
def completing (query : ε → Bool × ε) (entries : List (Watched ε)) : List NodeId :=
  (entries.filter fun entry => (query entry.event).1).map Watched.node

/-- Moving the last entry to the front changes the order only. -/
theorem completing_lastFirst_perm (query : ε → Bool × ε) (entries : List (Watched ε)) :
    (completing query (lastFirst entries)).Perm (completing query entries) :=
  ((perm_lastFirst entries).filter _).map _

/-- A scan finishes parts in some order of the entries that have completed. -/
theorem exists_finishEach_scan (query : ε → Bool × ε) (hand : Hand κ β) (g : Graph κ)
    (kept rest : List (Watched ε)) :
    ∃ order, order.Perm (completing query rest) ∧
      (scan query hand g kept rest).handed = g.finishEach hand order := by
  fun_induction scan query hand g kept rest with
  | case1 => exact ⟨[], .refl _, rfl⟩
  | case2 g kept entry rest event hquery ih =>
    obtain ⟨order, hperm, heq⟩ := ih
    refine ⟨order, ?_, heq⟩
    unfold completing
    rw [List.filter_cons_of_neg (by simp [hquery])]
    exact hperm
  | case3 g kept entry rest event hquery finished fault hfault =>
    refine ⟨completing query (entry :: rest), .refl _, ?_⟩
    unfold completing
    rw [List.filter_cons_of_pos (by simp [hquery]), List.map_cons, Graph.finishEach]
    simp only [finished] at hfault
    simp only [hfault, finished]
  | case4 g kept entry rest event hquery finished hfault later ih =>
    obtain ⟨order, hperm, heq⟩ := ih
    refine ⟨entry.node :: order, ?_, ?_⟩
    · unfold completing
      rw [List.filter_cons_of_pos (by simp [hquery])]
      exact (hperm.trans (completing_lastFirst_perm query rest)).cons _
    · simp only [finished] at hfault
      simp only [Graph.finishEach, hfault, later, heq, finished]

/-- A poll finishes parts in some order of the entries that have completed. -/
theorem exists_finishEach_poll (query : ε → Bool × ε) (hand : Hand κ β) (g : Graph κ)
    {w : Watcher ε} (hskip : w.skip = 0) :
    ∃ order, order.Perm (completing query w.pending) ∧
      (w.poll query hand g).handed = g.finishEach hand order := by
  obtain ⟨order, hperm, heq⟩ := exists_finishEach_scan query hand g [] w.pending
  refine ⟨order, hperm, ?_⟩
  unfold poll
  rw [if_neg (by omega : ¬ 0 < w.skip)]
  split
  · next hnone =>
    rw [List.isEmpty_iff] at hnone
    rw [hnone] at hperm
    rw [hperm.eq_nil]
    rfl
  · rw [← heq]
    dsimp only
    cases (scan query hand g [] w.pending).handed.fault <;> rfl

end Watcher

namespace Graph

variable {g : Graph κ} {calls : List NodeId} {hand : Hand κ β} {nodeOf : β → NodeId}

/-- Every call finishes a part of its own, of a node that has been dispatched. -/
def Due (g : Graph κ) (calls : List NodeId) : Prop :=
  ∀ n ∈ calls, (g.node n).claimed = true ∧ (calls.count n : Int) ≤ (g.node n).parts

/-- In a coherent graph, parts of dispatched nodes are there to be finished. -/
theorem Due.finishable {load : NodeId → Nat} (h : g.Due calls) (hs : g.Coherent load) :
    g.Finishable calls := by
  intro n hn
  obtain ⟨hclaimed, hle⟩ := h n hn
  have hpos : (0 : Int) < calls.count n := by exact_mod_cast List.count_pos_iff.mpr hn
  refine ⟨lt_size_of_claimed hclaimed, ?_, hle, fun m hm => hs.entry_lt n m hm⟩
  rw [← Bool.not_eq_true, hs.isComplete_iff]
  omega

/-- The order in which calls finish parts makes no difference. -/
structure OrderFree (hand : Hand κ β) (nodeOf : β → NodeId) (g : Graph κ)
    (calls : List NodeId) : Prop where
  /-- Neither to calls one after the other. -/
  turns : ∀ order order', order.Perm calls → order'.Perm calls →
    Alike nodeOf (finishEach hand g order) (finishEach hand g order')
  /-- Nor to a poll that finds the events of these parts complete. -/
  polls : ∀ {ε : Type} (query : ε → Bool × ε) (w : Watcher ε) (order : List NodeId),
    w.skip = 0 → (Watcher.completing query w.pending).Perm calls → order.Perm calls →
      Alike nodeOf (w.poll query hand g).handed (finishEach hand g order)
  /-- Nor to draining a watcher of these parts. -/
  drains : ∀ {ε : Type} (w : Watcher ε) (order : List NodeId),
    (w.pending.map Watched.node).Perm calls → order.Perm calls →
      Alike nodeOf (w.drain hand g).handed (finishEach hand g order)

/-- Calls that meet no fault in one order may be made in any order. -/
theorem Finishable.orderFree (h : g.Finishable calls) (hhand : hand.Local nodeOf)
    {first : List NodeId} (hfirst : first.Perm calls)
    (hfault : (finishEach hand g first).fault = none) : OrderFree hand nodeOf g calls := by
  have hturns : ∀ order order', order.Perm calls → order'.Perm calls →
      Alike nodeOf (finishEach hand g order) (finishEach hand g order') := by
    intro order order' horder horder'
    have hfirst' := alike_finishEach hhand (h.of_perm hfirst.symm) (hfirst.trans horder.symm) hfault
    exact alike_finishEach hhand (h.of_perm horder.symm) (horder.trans horder'.symm) hfirst'.fault.2
  refine ⟨hturns, fun query w order hskip hcalls horder => ?_, fun w order hcalls horder => ?_⟩
  · obtain ⟨polled, hperm, heq⟩ := Watcher.exists_finishEach_poll query hand g hskip
    rw [heq]
    exact hturns polled order (hperm.trans hcalls) horder
  · rw [Watcher.handed_drain]
    exact hturns _ order hcalls horder

/-- Handing on nodes as they are meets no fault. -/
theorem serves_handNode (g : Graph κ) (walked : List NodeId) : Serves handNode g walked :=
  fun n _ _ _ _ => ⟨n, rfl⟩

/-- In a stocked graph the first job of every node that a walk claims can be made. -/
theorem Stocked.serves_handJob {grain : Nat} (hgrain : 0 < grain) (h : g.Stocked)
    (walked : List NodeId) : Serves (handJob grain) g walked := by
  intro n hc _ hone _
  have hn : n < g.nodes.size := by
    by_contra hge
    rw [node_of_size_le (Nat.le_of_not_lt hge)] at hone
    exact absurd (show (1 : Int) ≤ 0 from hone) (by decide)
  obtain ⟨work, hwork, hordered⟩ := h n hn hc
  obtain ⟨job, hjob⟩ := exists_takeJob hgrain hwork hordered
  exact ⟨job, by rw [handJob, hjob]; rfl⟩

/-- The nodes that become ready do not depend on the order of the calls. Nor do their first jobs,
unless a fault stops the calls in every order, as it does when one of these nodes holds an inverted
range. -/
structure CompletesAlike (grain : Nat) (g : Graph κ) (calls : List NodeId) : Prop where
  nodes : OrderFree handNode id g calls
  jobs : OrderFree (handJob grain) Job.node g calls ∨
    ∀ order, order.Perm calls → (finishEach (handJob grain) g order).fault ≠ none

theorem Finishable.completesAlike (h : g.Finishable calls) (grain : Nat) :
    CompletesAlike grain g calls where
  nodes := h.orderFree local_handNode (.refl calls)
    ((serves_handNode g _).fault_finishEach local_handNode h)
  jobs := by
    rw [or_iff_not_imp_right]
    intro hsome
    push Not at hsome
    obtain ⟨first, hfirst, hfault⟩ := hsome
    exact h.orderFree (local_takeJob grain) hfirst hfault

end Graph

namespace Yard

/-- In every state of a yard, parts of dispatched nodes may finish in any order. Without inverted
ranges no fault comes up in any of them. -/
theorem completesAlike_run {tracker : Tracker} {count grain : Nat}
    (htracker : Tracker.create count = .ok tracker) (moves : List (Move κ)) {calls : List NodeId}
    (hcalls : ((start tracker grain : Yard κ ε).run moves).graph.Due calls) :
    Graph.CompletesAlike grain ((start tracker grain : Yard κ ε).run moves).graph calls ∧
      (0 < grain → (∀ move ∈ moves, move.Ordered) → Graph.OrderFree (Graph.handJob grain) Job.node
        ((start tracker grain : Yard κ ε).run moves).graph calls) := by
  obtain ⟨hs, -⟩ := (Orderly.start htracker grain).run (fun _ : Yard κ ε => True) moves trivial
    fun _ _ _ _ _ _ _ => trivial
  have hfinishable := hcalls.finishable hs.coherent
  refine ⟨hfinishable.completesAlike grain, fun hgrain hordered => ?_⟩
  obtain ⟨_, hexact, _⟩ := exact_run (ε := ε) htracker hgrain hordered
  exact hfinishable.orderFree (Graph.local_takeJob grain) (.refl calls)
    ((hexact.graph.stocked.serves_handJob hgrain _).fault_finishEach (Graph.local_takeJob grain)
      hfinishable)

/-- Nodes 2 and 3 wait for nodes 0 and 1, node 2 twice for node 0, which is split in two. Node 3 is
of a batch that has not been submitted. -/
def sharedSuccessors : List (Move Unit) :=
  [.newBuilder, .newBuilder, .add 0 (.range ⟨0, 8⟩ ()) none, .add 0 (.host ()) none,
    .add 0 (.host ()) none, .add 1 (.host ()) none, .wire 2 (.edge 0), .wire 2 (.edge 1),
    .wire 2 (.edge 0), .wire 3 (.edge 0), .wire 3 (.edge 1), .execute 0, .dispatch 0, .dispatch 0,
    .dispatch 0, .close 0, .split 0]

/-- Node 2 becomes ready with the last of the three parts, whichever that is. -/
theorem completesAlike_sharedSuccessors :
    Graph.OrderFree (Graph.handJob 2) Job.node
        ((start { shards := #[{}] } 2 : Yard Unit Unit).run sharedSuccessors).graph [0, 1, 0] ∧
      (Graph.finishEach Graph.handNode
        ((start { shards := #[{}] } 2 : Yard Unit Unit).run sharedSuccessors).graph
          [0, 0, 1]).items = [2] := by
  have htracker : Tracker.create 1 = .ok { shards := #[{}] } := rfl
  have hdue : ((start { shards := #[{}] } 2 : Yard Unit Unit).run sharedSuccessors).graph.Due
      [0, 1, 0] := by
    unfold Graph.Due
    decide +kernel
  obtain ⟨-, hjobs⟩ := completesAlike_run (ε := Unit) htracker sharedSuccessors hdue
  exact ⟨hjobs Nat.two_pos (by simp [sharedSuccessors, Move.Ordered, Work.Ordered]),
    by decide +kernel⟩

end Yard

end HazardFlow
