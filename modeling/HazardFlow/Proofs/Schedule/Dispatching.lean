import HazardFlow.Proofs.Schedule.Turns
import HazardFlow.Schedule.Submission

/-!
# Submitting a batch

A batch is submitted by arming it, dispatching those of its nodes that wait for nothing, and
counting the submission as finished. Each dispatch is a step or changes nothing. A fault ends the
submission early, and what was done until then is still made of steps.
-/

namespace HazardFlow

variable {κ ε : Type}

namespace System

open HazardFlow.Graph (addLoad)

variable {s s' s'' : System κ ε}

/-- The graph of a system is sound for its load. -/
def Sound (s : System κ ε) : Prop := s.graph.Sound s.load

/-- In particular it is coherent. -/
theorem Sound.coherent (hs : s.Sound) : s.graph.Coherent s.load := Graph.Sound.toCoherent hs

/-- What can come of dispatching a node. -/
inductive Dispatched (s : System κ ε) (n : Nat) : Outcome (System κ ε) Bool → Prop where
  /-- The node waits for something or was claimed before. -/
  | skip (h : (s.graph.node n).inDegree ≠ 0 ∨ (s.graph.node n).claimed = true) :
      Dispatched s n (.pure s false)
  | put {job : Job κ} (hfree : (s.graph.node n).inDegree = 0)
      (hunclaimed : (s.graph.node n).claimed = false)
      (hjob : (Graph.handJob s.grain (s.graph.claim n).1 n).result = .ok job) :
      Dispatched s n (.pure
        { s with
          graph := (Graph.handJob s.grain (s.graph.claim n).1 n).state
          inbox := s.inbox.put job } true)
  | stall {fault : Fault} (hfree : (s.graph.node n).inDegree = 0)
      (hunclaimed : (s.graph.node n).claimed = false)
      (hjob : (Graph.handJob s.grain (s.graph.claim n).1 n).result = .error fault) :
      Dispatched s n
        (.fail { s with graph := (Graph.handJob s.grain (s.graph.claim n).1 n).state } fault)

theorem dispatched_dispatch (s : System κ ε) (n : Nat) : Dispatched s n (s.dispatch n) := by
  unfold dispatch
  split
  · next hfree =>
    cases hclaimed : (s.graph.node n).claimed with
    | true =>
      have hclaim : s.graph.claim n = (s.graph, false) := by
        rw [Prod.ext_iff]
        exact ⟨Graph.claim_of_claimed hclaimed, by simp [Graph.claim, hclaimed]⟩
      rw [hclaim]
      exact .skip (Or.inr hclaimed)
    | false =>
      have hclaim : s.graph.claim n = ((s.graph.claim n).1, true) := by
        rw [Prod.ext_iff]
        exact ⟨rfl, by simp [Graph.claim, hclaimed]⟩
      rw [hclaim]
      dsimp only
      cases hjob : ((s.graph.claim n).1.takeJob n s.grain).result with
      | ok job =>
        have hput := Dispatched.put hfree hclaimed hjob
        unfold Outcome.lift Outcome.bind
        rw [hjob]
        exact hput
      | error fault =>
        have hstall := Dispatched.stall hfree hclaimed hjob
        unfold Outcome.lift Outcome.bind
        rw [hjob]
        exact hstall
  · next hwaits => exact .skip (Or.inl hwaits)

/-- Dispatching a node of an armed batch is a step. -/
theorem goes_dispatch {n : Nat} (hn : n < s.graph.nodes.size) (harmed : s.graph.isArmed n = true) :
    s.Goes (s.dispatch n).state := by
  have hdispatched := dispatched_dispatch s n
  generalize s.dispatch n = outcome at hdispatched ⊢
  cases hdispatched with
  | skip _ => exact .refl s
  | @put job hfree hunclaimed hjob =>
    refine ⟨rfl, rfl, ?_⟩
    have hstep : Graph.Step s.grain s.graph s.load _ _ :=
      .dispatch hn harmed hfree hunclaimed hjob
    have hnode : job.node = n := (Graph.faithful_handJob s.grain).item _ n job hjob
    have hload : ({ s with
        graph := (Graph.handJob s.grain (s.graph.claim n).1 n).state
        inbox := s.inbox.put job } : System κ ε).load = addLoad s.load n := by
      funext m
      simp only [load, Inbox.waiting_put, List.countP_append, List.countP_singleton, hnode,
        beq_iff_eq]
      unfold addLoad load
      simp only [eq_comm (a := m)]
      omega
    rw [← hload] at hstep
    exact .single hstep
  | stall hfree hunclaimed hjob =>
    exact ⟨rfl, rfl, .single (.stall hn harmed hfree hunclaimed hjob)⟩

/-- One system ran on to another, without new nodes or batches. -/
structure Ran (s s' : System κ ε) : Prop where
  sound : s'.Sound
  steady : s.graph.Steady s'.graph
  tracker : s'.tracker = s.tracker
  grain : s'.grain = s.grain

namespace Ran

theorem refl (hs : s.Sound) : s.Ran s := ⟨hs, .refl _, rfl, rfl⟩

theorem trans (h : s.Ran s') (h' : s'.Ran s'') : s.Ran s'' :=
  ⟨h'.sound, h.steady.trans h'.steady, h'.tracker.trans h.tracker, h'.grain.trans h.grain⟩

/-- A step of a sound system lets it run on. -/
theorem of_goes (hs : s.Sound) (h : s.Goes s') : s.Ran s' :=
  ⟨h.steps.sound hs, (h.steps.coherent_steady hs.coherent).2, h.tracker, h.grain⟩

end Ran

/-- Dispatching nodes of armed batches lets a sound system run on. -/
theorem ran_dispatchAll {l : List NodeId} (hs : s.Sound)
    (hl : ∀ n : Nat, n ∈ l → n < s.graph.nodes.size ∧ s.graph.isArmed n = true) :
    s.Ran (s.dispatchAll l).state := by
  induction l generalizing s with
  | nil => exact .refl hs
  | cons n rest ih =>
    obtain ⟨hn, harmed⟩ := hl n (by simp)
    have hran := Ran.of_goes hs (goes_dispatch hn harmed)
    have hrest : ∀ m : Nat, m ∈ rest →
        m < (s.dispatch n).state.graph.nodes.size ∧ (s.dispatch n).state.graph.isArmed m = true :=
      fun m hm => by
        rw [hran.steady.size, hran.steady.isArmed]
        exact hl m (by simp [hm])
    unfold dispatchAll Outcome.bind
    split
    · exact hran.trans (ih hran.sound hrest)
    · exact hran

end System

end HazardFlow
