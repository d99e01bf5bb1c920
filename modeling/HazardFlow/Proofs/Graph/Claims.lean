import HazardFlow.Proofs.Graph.Exactness
import HazardFlow.Proofs.Graph.Steady

/-!
# Nodes that are claimed on the way

While one graph goes on to another, nodes are claimed, each of them once. The nodes that a part hands
on when it finishes are those that it claims, as long as no fault stops it. Since every claim uses
up a node that nobody had claimed, the claims to come are bounded.
-/

namespace HazardFlow.Graph

variable {κ β : Type} {g g' g'' : Graph κ} {nodes more : List NodeId} {load : NodeId → Nat}

/-- The second graph came from the first by claims of these nodes, which nobody had claimed. -/
structure Claims (g g' : Graph κ) (nodes : List NodeId) : Prop where
  claimed : ∀ n : Nat, (g'.node n).claimed = true ↔ (g.node n).claimed = true ∨ n ∈ nodes
  fresh : ∀ n ∈ nodes, (g.node n).claimed = false
  nodup : nodes.Nodup

namespace Claims

/-- Nothing is claimed when no flag changes. -/
theorem of_same (h : ∀ n : Nat, (g'.node n).claimed = (g.node n).claimed) : Claims g g' [] where
  claimed n := by rw [h, or_iff_left List.not_mem_nil]
  fresh _ hn := absurd hn List.not_mem_nil
  nodup := List.nodup_nil

theorem refl (g : Graph κ) : Claims g g [] := of_same fun _ => rfl

theorem trans (h : Claims g g' nodes) (h' : Claims g' g'' more) :
    Claims g g'' (nodes ++ more) where
  claimed n := by rw [h'.claimed, h.claimed, List.mem_append, or_assoc]
  fresh n hn := by
    rcases List.mem_append.mp hn with hfirst | hlater
    · exact h.fresh n hfirst
    · have hfree := h'.fresh n hlater
      rw [← Bool.not_eq_true, h.claimed, not_or] at hfree
      exact Bool.eq_false_of_not_eq_true hfree.1
  nodup := by
    rw [List.nodup_append]
    refine ⟨h.nodup, h'.nodup, fun n hn m hm heq => ?_⟩
    subst heq
    have hfree := h'.fresh n hm
    rw [(h.claimed n).mpr (Or.inr hn)] at hfree
    cases hfree

/-- Claiming a node and handing it on. -/
theorem hand {hand : Hand κ β} {nodeOf : β → NodeId} (hhand : hand.Faithful nodeOf) {n : Nat}
    (hn : n < g.nodes.size) (hunclaimed : (g.node n).claimed = false) :
    Claims g (hand (g.claim n).1 n).state [n] where
  claimed m := by rw [hhand.claimed, claimed_claim hn, List.mem_singleton]
  fresh m hm := by rwa [List.mem_singleton.mp hm]
  nodup := List.nodup_singleton n

/-- A part that finishes without a fault claims the nodes that it hands on. -/
theorem finishPart {hand : Hand κ β} {nodeOf : β → NodeId} (hhand : hand.Faithful nodeOf)
    (hs : g.Coherent load) {n : Nat} (hn : 0 < load n)
    (hfault : (Graph.finishPart hand g n).fault = none) :
    Claims g (Graph.finishPart hand g n).graph
      ((Graph.finishPart hand g n).items.map nodeOf) := by
  have hfinished := hs.finished hhand hn
  obtain ⟨hclaimed, hnodup, hfresh⟩ := hfinished.claimed
  obtain ⟨hleading, hlength⟩ := hfinished.items
  rw [hfault, Option.toList_none, List.length_nil, Nat.add_zero] at hlength
  have hall := hleading.eq_of_length (by rw [List.length_map, hlength])
  rw [← hall] at hclaimed hnodup hfresh
  exact ⟨hclaimed, hfresh, hnodup⟩

end Claims

/-- The number of nodes that nobody has claimed. -/
def unclaimed (g : Graph κ) : Nat :=
  ((List.range g.nodes.size).filter fun n => !(g.node n).claimed).length

/-- There are no more of them than nodes. -/
theorem unclaimed_le (g : Graph κ) : g.unclaimed ≤ g.nodes.size :=
  (List.length_filter_le ..).trans (Nat.le_of_eq List.length_range)

/-- Every claim takes one of them. -/
theorem Claims.unclaimed (h : Claims g g' nodes) (hsize : g'.nodes.size = g.nodes.size) :
    g'.unclaimed + nodes.length = g.unclaimed := by
  have hlt : ∀ n ∈ nodes, n < g.nodes.size := fun n hn => by
    rw [← hsize]
    exact lt_size_of_claimed ((h.claimed n).mpr (Or.inr hn))
  have hclaims : ((List.range g.nodes.size).filter fun n => !(g.node n).claimed).Perm
      (nodes ++ (List.range g'.nodes.size).filter fun n => !(g'.node n).claimed) := by
    rw [hsize]
    refine (List.perm_ext_iff_of_nodup (List.nodup_range.filter _) ?_).mpr fun n => ?_
    · refine List.nodup_append.mpr ⟨h.nodup, List.nodup_range.filter _, fun n hn m hm heq => ?_⟩
      subst heq
      have hfree := (List.mem_filter.mp hm).2
      rw [(h.claimed n).mpr (Or.inr hn)] at hfree
      cases hfree
    · simp only [List.mem_append, List.mem_filter, List.mem_range, Bool.not_eq_true',
        ← Bool.not_eq_true, h.claimed, not_or]
      by_cases hn : n ∈ nodes
      · have hfresh := h.fresh n hn
        exact iff_of_true ⟨hlt n hn, by simp [hfresh]⟩ (Or.inl hn)
      · simp [hn]
  have hlength := hclaims.length_eq
  rw [List.length_append] at hlength
  unfold Graph.unclaimed
  omega

/-- The number of nodes that were claimed. -/
def claimedCount (g : Graph κ) : Nat :=
  ((List.range g.nodes.size).filter fun n => (g.node n).claimed).length

/-- Every claim adds to them. -/
theorem Claims.claimedCount (h : Claims g g' nodes) :
    g'.claimedCount = g.claimedCount + nodes.length := by
  have hmem (g : Graph κ) (n : Nat) :
      n ∈ (List.range g.nodes.size).filter (fun n => (g.node n).claimed) ↔
        (g.node n).claimed = true := by
    rw [List.mem_filter, List.mem_range]
    exact ⟨And.right, fun hclaimed => ⟨lt_size_of_claimed hclaimed, hclaimed⟩⟩
  have hclaims : ((List.range g'.nodes.size).filter fun n => (g'.node n).claimed).Perm
      (((List.range g.nodes.size).filter fun n => (g.node n).claimed) ++ nodes) := by
    refine (List.perm_ext_iff_of_nodup (List.nodup_range.filter _) ?_).mpr fun n => ?_
    · refine List.nodup_append.mpr ⟨List.nodup_range.filter _, h.nodup, fun n hn m hm heq => ?_⟩
      subst heq
      have hfresh := h.fresh n hm
      rw [(hmem g n).mp hn] at hfresh
      cases hfresh
    · rw [List.mem_append, hmem, hmem, h.claimed]
  unfold Graph.claimedCount
  rw [hclaims.length_eq, List.length_append]

end HazardFlow.Graph
