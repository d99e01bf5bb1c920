import HazardFlow.Proofs.Graph.Readying
import HazardFlow.Proofs.Yard.Uninterrupted

/-!
# Finishing a part is exact

Lists of successors grow at their front, by entries that name one node at a time, until they are
closed. So the order of the entries tells in which order nodes were registered first, and in every
state that a yard can reach the last part of a node hands on the nodes that it makes ready in the
reverse of that order.
-/

namespace HazardFlow

variable {κ ε β : Type}

/-- Finishing a part leaves the lists of nodes alone that are not complete. -/
theorem Graph.Finished.entries {hand : Hand κ β} {nodeOf : β → NodeId} {g : Graph κ} {n : NodeId}
    {handed : Handed κ β} (h : Finished hand nodeOf g n handed) (hn : n < g.nodes.size)
    (i : NodeId) : handed.graph.isComplete i = true ∨ handed.graph.entries i = g.entries i := by
  have hretired (hlast : (g.node n).parts = 1) (hopen : handed.graph.isComplete i ≠ true) :
      (g.retire n).entries i = g.entries i := by
    have hne : n ≠ i := fun heq =>
      hopen ((h.isComplete hn i).mpr (Or.inr ⟨heq.symm, hlast⟩))
    unfold Graph.entries
    rw [node_retire_of_ne hne]
  rw [or_iff_not_imp_left]
  intro hopen
  cases h with
  | part _ => exact entries_updateNode i
  | stopped hlast hwalk _ => exact (hwalk.released.entries i).trans (hretired hlast hopen)
  | last hlast hwalk _ => exact (hwalk.released.entries i).trans (hretired hlast hopen)

namespace Yard

variable {s s' : Yard κ ε} {move : Move κ}

/-- A move puts entries that name one node before those that are there, unless it completes the node
that holds the list. -/
theorem Does.exists_entries (h : Does s move s') (hs : s.Orderly) (n : NodeId) :
    s'.graph.isComplete n = true ∨
      ∃ (m : NodeId) (k : Nat), s'.graph.entries n = List.replicate k m ++ s.graph.entries n := by
  have hsame (heq : s'.graph.entries n = s.graph.entries n) : s'.graph.isComplete n = true ∨
      ∃ (m : NodeId) (k : Nat), s'.graph.entries n = List.replicate k m ++ s.graph.entries n :=
    Or.inr ⟨n, 0, heq⟩
  have hhand := Graph.faithful_handJob (κ := κ) s.system.grain
  cases h with
  | @add i b _ work profile =>
    exact hsame (congrArg SealableList.entries
      (Graph.successors_addNode (s.graph.register b.batch) work b.batch profile n))
  | wire _ _ hwired _ => exact Or.inr ⟨_, _, hwired.entries n⟩
  | discard _ _ => exact hsame (Graph.entries_updateNode n)
  | put _ _ _ _ => exact hsame ((hhand.entries _ _ n).trans (Graph.entries_updateNode n))
  | stall _ _ _ _ => exact hsame ((hhand.entries _ _ n).trans (Graph.entries_updateNode n))
  | split _ hsplit =>
    obtain ⟨rfl, _, _⟩ := Graph.splitJob_spec hsplit
    exact hsame (Graph.entries_updateNode n)
  | @finish stage position job hjob =>
    have hpos : 0 < s.load job.node := load_pos_of_jobsAt hjob
    have hentries := (hs.coherent.finished hhand hpos).entries (hs.coherent.of_load_pos hpos).1 n
    rw [(finishAt_eq s stage position job).1]
    exact hentries.imp id fun heq => ⟨n, 0, heq⟩
  | _ => exact hsame rfl

/-- What is listed stays listed, until the node that lists it is complete. -/
theorem Orderly.entries_subset_run (hs : s.Orderly) (n : NodeId) (moves : List (Move κ)) :
    (s.run moves).graph.isComplete n = true ∨
      s.graph.entries n ⊆ (s.run moves).graph.entries n := by
  refine (hs.run (fun t => t.graph.isComplete n = true ∨ s.graph.entries n ⊆ t.graph.entries n)
    moves (Or.inr (List.Subset.refl _)) fun t t' move _ ht hkept hdoes => ?_).2
  rcases hkept with hcomplete | hsubset
  · exact Or.inl ((ht.grows hdoes).later.isComplete n hcomplete)
  · refine (hdoes.exists_entries ht n).imp id fun ⟨m, k, hentries⟩ => ?_
    rw [hentries]
    exact List.subset_append_of_subset_right _ hsubset

/-- One node had been registered on another at some time before the end of a run, when a third one
had never been. -/
def RegisteredBefore (s : Yard κ ε) (moves : List (Move κ)) (n first later : NodeId) : Prop :=
  ∃ before, before <+: moves ∧ first ∈ (s.run before).graph.entries n ∧
    ∀ earlier, earlier <+: before → later ∉ (s.run earlier).graph.entries n

/-- Entries of one node put before others change the order of oldest entries only if there was none of
that node. -/
theorem pairwise_dedup_replicate_append {α : Type} [DecidableEq α] {related : α → α → Prop}
    {entries : List α} {a : α} (k : Nat) (hold : entries.dedup.Pairwise related)
    (hnew : a ∉ entries → ∀ b ∈ entries, related a b) :
    (List.replicate k a ++ entries).dedup.Pairwise related := by
  induction k with
  | zero => exact hold
  | succ k ih =>
    rw [List.replicate_succ, List.cons_append]
    by_cases hmem : a ∈ List.replicate k a ++ entries
    · rwa [List.dedup_cons_of_mem hmem]
    · rw [List.dedup_cons_of_notMem hmem, List.pairwise_cons]
      rw [List.mem_append, not_or] at hmem
      refine ⟨fun b hb => ?_, ih⟩
      rw [List.mem_dedup, List.mem_append] at hb
      refine hnew hmem.2 b (hb.resolve_left fun hcopy => hmem.1 ?_)
      rwa [List.eq_of_mem_replicate hcopy] at hcopy

/-- The oldest entries of nodes are in the reverse order of their registration. -/
theorem Orderly.pairwise_registered (hs : s.Orderly) {n : NodeId} (hnone : s.graph.entries n = [])
    (moves : List (Move κ)) : ((s.run moves).graph.entries n).dedup.Pairwise fun later first =>
      s.RegisteredBefore moves n first later := by
  induction moves using List.reverseRecOn with
  | nil =>
    change (s.graph.entries n).dedup.Pairwise _
    rw [hnone]
    exact List.Pairwise.nil
  | append_singleton before move ih =>
    have hthere := hs.orderly_run before
    have hrun : s.run (before ++ [move]) = (s.run before).act move := run_append s before [move]
    have hold : ((s.run before).graph.entries n).dedup.Pairwise fun later first =>
        s.RegisteredBefore (before ++ [move]) n first later :=
      ih.imp fun ⟨earlier, hinit, hfirst⟩ =>
        ⟨earlier, hinit.trans (List.prefix_append ..), hfirst⟩
    rw [hrun]
    rcases (hthere.does_act move).exists_entries hthere n with hcomplete | ⟨m, k, hentries⟩
    · rw [Graph.entries_of_isComplete hcomplete]
      exact List.Pairwise.nil
    · rw [hentries]
      refine pairwise_dedup_replicate_append k hold fun hnew b hb =>
        ⟨before, List.prefix_append .., hb, fun earlier hearlier hm => ?_⟩
      obtain ⟨rest, rfl⟩ := hearlier
      rw [run_append] at hnew hb
      rcases (hs.orderly_run earlier).entries_subset_run n rest with hcomplete | hsubset
      · rw [Graph.entries_of_isComplete hcomplete] at hb
        exact absurd hb List.not_mem_nil
      · exact hnew (hsubset hm)

/-- The last part of a node completes it, and other parts only lower its count of parts. -/
structure FinishesExactly (hand : Hand κ β) (nodeOf : β → NodeId) (s : Yard κ ε)
    (moves : List (Move κ)) (n : NodeId) : Prop where
  last : ((s.run moves).graph.node n).parts = 1 →
    Graph.Completes hand nodeOf (s.run moves).graph n ((s.run moves).graph.finishPart hand n)
  /-- Nothing stops it when every node that becomes ready can be handed on. -/
  served : (∀ m ∈ (s.run moves).graph.readied ((s.run moves).graph.entries n),
      ∃ item, (hand (s.run moves).graph m).result = .ok item) →
    ((s.run moves).graph.finishPart hand n).fault = none
  /-- Every node is handed on once, and one that was registered first later than others. -/
  once : ((s.run moves).graph.readied ((s.run moves).graph.entries n)).Nodup
  order : ((s.run moves).graph.readied ((s.run moves).graph.entries n)).Pairwise fun later first =>
    s.RegisteredBefore moves n first later
  part : 1 < ((s.run moves).graph.node n).parts → (s.run moves).graph.finishPart hand n =
    ⟨(s.run moves).graph.updateNode n fun m => { m with parts := m.parts - 1 }, [], none⟩

/-- In every state of a yard, finishing a part of any node is exact. -/
theorem finishesExactly_run {tracker : Tracker} {count grain : Nat}
    (htracker : Tracker.create count = .ok tracker) (moves : List (Move κ)) {hand : Hand κ β}
    {nodeOf : β → NodeId} (hhand : hand.Local nodeOf) {n : NodeId}
    (hn : n < ((start tracker grain : Yard κ ε).run moves).graph.nodes.size) :
    FinishesExactly hand nodeOf (start tracker grain : Yard κ ε) moves n := by
  have hstart := Orderly.start (κ := κ) (ε := ε) htracker grain
  have hs := hstart.orderly_run moves
  have hlast := fun hparts => Graph.completes_finishPart hs.coherent hhand hn hparts
  have hpart := Graph.finishPart_of_ne_one hand
    (g := ((start tracker grain : Yard κ ε).run moves).graph) (n := n)
  refine ⟨hlast, fun hserved => ?_, Graph.nodup_readied _ _,
    (hstart.pairwise_registered rfl moves).sublist List.filter_sublist, fun hmore => ?_⟩
  · by_cases hparts : (((start tracker grain : Yard κ ε).run moves).graph.node n).parts = 1
    · exact (hlast hparts).toHandsOn.fault_eq_none hserved
    · rw [hpart hparts]
  · exact hpart (by omega)

/-- Node 0 is listed twice by node 2, and once by each of nodes 3, 4 and 5. Node 4 also waits for
node 1, and node 5 is of a batch that has not been submitted. -/
def mixedSuccessors : List (Move Unit) :=
  [.newBuilder, .newBuilder, .add 0 (.host ()) none, .add 0 (.host ()) none,
    .add 0 (.host ()) none, .add 0 (.host ()) none, .add 0 (.host ()) none,
    .add 1 (.host ()) none, .wire 2 (.edge 0), .wire 3 (.edge 0), .wire 2 (.edge 0),
    .wire 4 (.edge 0), .wire 4 (.edge 1), .wire 5 (.edge 0), .execute 0]

/-- Node 3 is handed on before node 2, which was registered before it. -/
theorem finishesExactly_mixedSuccessors :
    FinishesExactly Graph.handNode id (start { shards := #[{}] } 2 : Yard Unit Unit)
        mixedSuccessors 0 ∧
      (((start { shards := #[{}] } 2 : Yard Unit Unit).run mixedSuccessors).graph.node 0).parts =
        1 ∧
      (((start { shards := #[{}] } 2 : Yard Unit Unit).run mixedSuccessors).graph.finishPart
        Graph.handNode 0).items = [3, 2] := by
  have htracker : Tracker.create 1 = .ok { shards := #[{}] } := rfl
  exact ⟨finishesExactly_run htracker mixedSuccessors Graph.local_handNode (by decide +kernel),
    by decide +kernel, by decide +kernel⟩

end Yard

end HazardFlow
