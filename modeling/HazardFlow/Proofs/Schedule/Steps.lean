import HazardFlow.Proofs.Graph.Steady
import HazardFlow.Proofs.Schedule.Load

/-!
# Steps of a system

Whatever workers do, and every dispatch, amounts to one of a few steps of the graph and its load.
They are listed here once, with everything that a step can do, faults included. What is to be
shown of all runs is then shown of these steps.
-/

namespace HazardFlow

variable {κ ε : Type}

namespace Graph

/-- Ready nodes are handed on as jobs of theirs. -/
theorem faithful_handJob (grain : Nat) : (handJob (κ := κ) grain).Faithful Job.node :=
  faithful_takeJob grain

/-- What a step can do to a graph and its load. -/
inductive Step (grain : Nat) : Graph κ → (NodeId → Nat) → Graph κ → (NodeId → Nat) → Prop where
  /-- A job is split in two. -/
  | split {g : Graph κ} {load : NodeId → Nat} {n : Nat} (hn : 0 < load n) :
      Step grain g load (g.updateNode n fun m => { m with parts := m.parts + 1 }) (addLoad load n)
  /-- A part of a node finishes, and the nodes made ready by it are handed on. -/
  | finish {g : Graph κ} {load : NodeId → Nat} {n : Nat} (hn : 0 < load n)
      (hfault : (finishPart (handJob grain) g n).fault = none) :
      Step grain g load (finishPart (handJob grain) g n).graph fun m =>
        dropLoad load n m + ((finishPart (handJob grain) g n).items.map Job.node).count m
  /-- A part of a node finishes, but handing on stops with a fault and the worker dies of it. -/
  | die {g : Graph κ} {load load' : NodeId → Nat} {n : Nat} (hn : 0 < load n)
      (hfault : (finishPart (handJob grain) g n).fault ≠ none)
      (hle : ∀ m : Nat, load' m ≤
        dropLoad load n m + ((finishPart (handJob grain) g n).items.map Job.node).count m) :
      Step grain g load (finishPart (handJob grain) g n).graph load'
  /-- A node that waits for nothing is claimed and has a job made of it. -/
  | dispatch {g : Graph κ} {load : NodeId → Nat} {n : Nat} {job : Job κ} (hn : n < g.nodes.size)
      (harmed : g.isArmed n = true) (hfree : (g.node n).inDegree = 0)
      (hunclaimed : (g.node n).claimed = false)
      (hjob : (handJob grain (g.claim n).1 n).result = .ok job) :
      Step grain g load (handJob grain (g.claim n).1 n).state (addLoad load n)
  /-- A node that waits for nothing is claimed, but no job can be made of it. -/
  | stall {g : Graph κ} {load : NodeId → Nat} {n : Nat} {fault : Fault} (hn : n < g.nodes.size)
      (harmed : g.isArmed n = true) (hfree : (g.node n).inDegree = 0)
      (hunclaimed : (g.node n).claimed = false)
      (hjob : (handJob grain (g.claim n).1 n).result = .error fault) :
      Step grain g load (handJob grain (g.claim n).1 n).state load

namespace Step

variable {grain : Nat} {g g' : Graph κ} {load load' : NodeId → Nat}

/-- A step keeps the places of nodes and batches. -/
theorem steady (h : Step grain g load g' load') (hs : g.Coherent load) : Steady g g' := by
  cases h with
  | split _ => exact .updateNode _
  | finish hn _ => exact .finishPart (faithful_handJob grain) hs hn
  | die hn _ _ => exact .finishPart (faithful_handJob grain) hs hn
  | dispatch _ _ _ _ _ => exact (Steady.claim g _).trans (.hand (faithful_handJob grain) _ _)
  | stall _ _ _ _ _ => exact (Steady.claim g _).trans (.hand (faithful_handJob grain) _ _)

/-- A step keeps a graph coherent. -/
theorem coherent (h : Step grain g load g' load') (hs : g.Coherent load) : g'.Coherent load' := by
  have hhand := faithful_handJob (κ := κ) grain
  cases h with
  | split hn => exact hs.splitPart hn
  | finish hn _ => exact hs.finishPart hhand hn
  | die hn _ hle => exact (hs.finishPart hhand hn).mono hle
  | dispatch hn harmed hfree hunclaimed _ =>
    exact (hs.claim hn hfree harmed hunclaimed).hand hhand _
  | stall hn harmed hfree hunclaimed _ =>
    refine ((hs.claim hn hfree harmed hunclaimed).hand hhand _).mono fun m => ?_
    exact Nat.le_add_right _ _

/-- A step adds no edges. -/
theorem entries_subset (h : Step grain g load g' load') (hs : g.Coherent load) (i : Nat) :
    g'.entries i ⊆ g.entries i := by
  have hhand := faithful_handJob (κ := κ) grain
  cases h with
  | split _ =>
    rw [entries_updateNode]
    exact List.Subset.refl _
  | finish hn _ => exact (hs.finished hhand hn).entries_subset (hs.of_load_pos hn).1 i
  | die hn _ _ => exact (hs.finished hhand hn).entries_subset (hs.of_load_pos hn).1 i
  | dispatch _ _ _ _ _ =>
    rw [hhand.entries, claim, entries_updateNode]
    exact List.Subset.refl _
  | stall _ _ _ _ _ =>
    rw [hhand.entries, claim, entries_updateNode]
    exact List.Subset.refl _

/-- A step keeps a graph sound. -/
theorem sound (h : Step grain g load g' load') (hs : g.Sound load) : g'.Sound load' :=
  hs.of_entries (h.coherent hs.toCoherent) (h.entries_subset hs.toCoherent)

/-- Whether or not a fault ends it, finishing a part is a step. -/
theorem finishPart {n : Nat} (hn : 0 < load n) :
    Step grain g load (Graph.finishPart (handJob grain) g n).graph fun m =>
      dropLoad load n m + ((Graph.finishPart (handJob grain) g n).items.map Job.node).count m := by
  by_cases hfault : (Graph.finishPart (handJob grain) g n).fault = none
  · exact .finish hn hfault
  · exact .die hn hfault fun _ => Nat.le_refl _

end Step

/-- Any number of steps, one after the other. -/
inductive Steps (grain : Nat) (g : Graph κ) (load : NodeId → Nat) :
    Graph κ → (NodeId → Nat) → Prop where
  | refl : Steps grain g load g load
  | tail {g' g'' : Graph κ} {load' load'' : NodeId → Nat} (h : Steps grain g load g' load')
      (hlast : Step grain g' load' g'' load'') : Steps grain g load g'' load''

namespace Steps

variable {grain : Nat} {g g' g'' : Graph κ} {load load' load'' : NodeId → Nat}

theorem single (h : Step grain g load g' load') : Steps grain g load g' load' := .tail .refl h

theorem trans (h : Steps grain g load g' load') (h' : Steps grain g' load' g'' load'') :
    Steps grain g load g'' load'' := by
  induction h' with
  | refl => exact h
  | tail _ hlast ih => exact .tail ih hlast

/-- Steps keep a graph coherent, and the places of nodes and batches. -/
theorem coherent_steady (h : Steps grain g load g' load') (hs : g.Coherent load) :
    g'.Coherent load' ∧ Steady g g' := by
  induction h with
  | refl => exact ⟨hs, .refl g⟩
  | tail _ hlast ih => exact ⟨hlast.coherent ih.1, ih.2.trans (hlast.steady ih.1)⟩

/-- Steps keep a graph sound. -/
theorem sound (h : Steps grain g load g' load') (hs : g.Sound load) : g'.Sound load' := by
  induction h with
  | refl => exact hs
  | tail _ hlast ih => exact hlast.sound ih

end Steps

end Graph

end HazardFlow
