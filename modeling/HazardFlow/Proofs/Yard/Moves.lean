import HazardFlow.Proofs.Yard.Crews
import HazardFlow.Proofs.Yard.Jobs

/-!
# What moves do

A yard is orderly when its graph is coherent for its jobs and its builders and submissions have
batches of their own. As long as it is, what each move can do is known, and every move keeps it so.
-/

namespace HazardFlow

variable {κ ε : Type}

/-- A call onto a node not yet submitted succeeds: it wires the node, and the tracker goes on to
name nodes that exist. -/
theorem Tracker.exists_make {t : Tracker} {g : Graph κ} {n : Nat} (ht : t.Within g.nodes.size)
    (hn : n < g.nodes.size) (harmed : g.isArmed n = false) {c : WireCall}
    (hc : ∀ source : Nat, c = .edge source → source < g.nodes.size) :
    ∃ t' g' sources, t.make g n c = .pure (t', g') () ∧ Graph.Wired g n sources g' ∧
      t'.Within g.nodes.size := by
  cases c with
  | access a write =>
    obtain ⟨g', hresolve, hwired⟩ := resolve_spec ht hn harmed a write
    refine ⟨t.record g n a write, g', _, ?_, hwired, ht.record hn g a write⟩
    simp only [make, hresolve]
    rfl
  | edge source =>
    obtain ⟨g', hlink, hwired⟩ := Graph.link_spec (hc source rfl) hn harmed
    refine ⟨t, g', _, ?_, hwired, ht⟩
    simp only [make, hlink]
    rfl

namespace Yard

open Crew (builderAt)
open HazardFlow.Graph (addLoad dropLoad)

variable {s s' : Yard κ ε}

/-- The graph, the builders and the submissions fit together. -/
structure Orderly (s : Yard κ ε) : Prop where
  coherent : s.graph.Coherent s.load
  within : s.system.tracker.Within s.graph.nodes.size
  staffed : Staffed s.crews s.graph
  scheduled : Scheduled s.submissions s.graph

/-- What a move can do. -/
inductive Does (s : Yard κ ε) : Move κ → Yard κ ε → Prop where
  /-- The move is not possible. -/
  | keep (move : Move κ) : Does s move s
  | newBuilder : Does s .newBuilder { s with
      system := s.system.newBuilder.1
      crews := s.crews.push (.adding s.system.newBuilder.2)
      notes := .opened s.crews.size :: s.notes }
  | add {i : Nat} {b : Builder} (hi : s.crews[i]? = some (.adding b)) (work : Work κ)
      (profile : Option Profile) : Does s (.add i work profile) (s.add i b work profile)
  | wire {n : Nat} {c : WireCall} {t : Tracker} {g : Graph κ} {sources : List NodeId}
      (hn : n < s.graph.nodes.size) (harmed : s.graph.isArmed n = false)
      (hwired : Graph.Wired s.graph n sources g) (ht : t.Within s.graph.nodes.size) :
      Does s (.wire n c) { s with system := { s.system with tracker := t, graph := g } }
  | reset : Does s .reset { s with
      system := { s.system with tracker := s.system.tracker.reset } }
  | execute {i : Nat} {b : Builder} (hi : s.crews[i]? = some (.adding b)) :
      Does s (.execute i) (s.submit i b .adding)
  | drop {i : Nat} {b : Builder} {crew : Crew} (hi : s.crews[i]? = some (.adding b))
      (hcrew : crew = .gone ∧ b.nodes = [] ∨ crew = .leaving b b.nodes) :
      Does s (.drop i) { s with crews := s.crews.setIfInBounds i crew }
  | discard {i : Nat} {b : Builder} {n : NodeId} {left : List NodeId}
      (hi : s.crews[i]? = some (.leaving b (n :: left))) (harmed : s.graph.isArmed n = false) :
      Does s (.discard i) { s with
        system := { s.system with
          graph := s.graph.updateNode n ({ · with work := some .idle }) }
        crews := s.crews.setIfInBounds i (.leaving b left)
        notes := .discarded n :: s.notes }
  | abandon {i : Nat} {b : Builder} (hi : s.crews[i]? = some (.leaving b [])) :
      Does s (.abandon i) (s.submit i b fun _ => .gone)
  /-- The node waits for something or was claimed before. -/
  | skip {k : Nat} {b : BatchId} {n : NodeId} {due : List NodeId}
      (hk : s.submissions[k]? = some ⟨b, n :: due, .underWay⟩)
      (hskip : (s.graph.node n).inDegree ≠ 0 ∨ (s.graph.node n).claimed = true) :
      Does s (.dispatch k) { s with
        submissions := s.submissions.setIfInBounds k { batch := b, due } }
  | put {k : Nat} {b : BatchId} {n : NodeId} {due : List NodeId} {job : Job κ}
      (hk : s.submissions[k]? = some ⟨b, n :: due, .underWay⟩)
      (hfree : (s.graph.node n).inDegree = 0) (hunclaimed : (s.graph.node n).claimed = false)
      (hjob : (Graph.handJob s.system.grain (s.graph.claim n).1 n).result = .ok job) :
      Does s (.dispatch k) { s with
        system := { s.system with
          graph := (Graph.handJob s.system.grain (s.graph.claim n).1 n).state
          inbox := s.system.inbox.put job }
        submissions := s.submissions.setIfInBounds k { batch := b, due }
        notes := .made job :: .handed n none :: s.notes }
  | stall {k : Nat} {b : BatchId} {n : NodeId} {due : List NodeId} {fault : Fault}
      (hk : s.submissions[k]? = some ⟨b, n :: due, .underWay⟩)
      (hfree : (s.graph.node n).inDegree = 0) (hunclaimed : (s.graph.node n).claimed = false)
      (hjob : (Graph.handJob s.system.grain (s.graph.claim n).1 n).result = .error fault) :
      Does s (.dispatch k) { s with
        system := { s.system with
          graph := (Graph.handJob s.system.grain (s.graph.claim n).1 n).state }
        submissions := s.submissions.setIfInBounds k { batch := b, due, phase := .stopped }
        notes := .fault fault :: .handed n none :: s.notes }
  | close {k : Nat} {b : BatchId} (hk : s.submissions[k]? = some ⟨b, [], .underWay⟩) :
      Does s (.close k) (s.close k b)
  | split {position : Nat} {job piece rest : Job κ} {g : Graph κ}
      (hjob : (s.jobsAt .queued)[position]? = some job)
      (hsplit : s.graph.splitJob job = some (g, piece, rest)) :
      Does s (.split position) (s.split position g piece rest)
  | begin {position : Nat} {job : Job κ} (hjob : (s.jobsAt .queued)[position]? = some job) :
      Does s (.begin position) { s.without .queued position with
        running := job :: s.running, notes := .began job :: s.notes }
  | watch {position : Nat} {job : Job κ} (hjob : (s.jobsAt .running)[position]? = some job) :
      Does s (.watch position) { s.without .running position with watched := job :: s.watched }
  | finish {stage : Stage} {position : Nat} {job : Job κ}
      (hjob : (s.jobsAt stage)[position]? = some job) :
      Does s (.finish stage position) (s.finishAt stage position job)

namespace Orderly

/-- A call that may be made succeeds. -/
theorem does_wire (hs : s.Orderly) (n : Nat) (c : WireCall) :
    Does s (.wire n c) (s.act (.wire n c)) := by
  simp only [act]
  split
  · next hmay =>
    unfold mayWire at hmay
    rw [Bool.and_eq_true, Bool.and_eq_true, decide_eq_true_eq, Bool.not_eq_true'] at hmay
    obtain ⟨⟨hn, harmed⟩, hsource⟩ := hmay
    obtain ⟨t, g, sources, hmake, hwired, ht⟩ :=
      Tracker.exists_make (c := c) hs.within hn harmed fun source hc => by
        subst hc
        exact of_decide_eq_true hsource
    unfold wire
    rw [hmake]
    exact .wire hn harmed hwired ht
  · exact .keep _

/-- The work of a node is discarded before the node is submitted. -/
theorem discard_eq (hs : s.Orderly) {i : Nat} {b : Builder} {n : NodeId} {left : List NodeId}
    (hi : s.crews[i]? = some (.leaving b (n :: left))) : s.graph.isArmed n = false ∧
      s.graph.discard n = .pure (s.graph.updateNode n ({ · with work := some .idle })) () := by
  have hmem := hs.staffed.left i b (n :: left) hi List.mem_cons_self
  have harmed := (hs.staffed.holds i b (Crew.builderAt_of_leaving hi)).isArmed hmem
  unfold Graph.discard
  rw [harmed]
  exact ⟨rfl, rfl⟩

/-- Dispatching a node of a submission. -/
theorem does_dispatch {k : Nat} {b : BatchId} {n : NodeId} {due : List NodeId}
    (hk : s.submissions[k]? = some ⟨b, n :: due, .underWay⟩) :
    Does s (.dispatch k) (s.dispatch k b n due) := by
  have hdispatched := System.dispatched_dispatch s.system n
  unfold dispatch
  generalize s.system.dispatch n = outcome at hdispatched ⊢
  cases hdispatched with
  | skip hskip =>
    have hdoes := Does.skip hk hskip
    dsimp only [Outcome.pure]
    rw [List.drop_length]
    exact hdoes
  | put hfree hunclaimed hjob =>
    have hdoes := Does.put hk hfree hunclaimed hjob
    dsimp only [Outcome.pure]
    rw [Inbox.waiting_put, List.drop_left]
    exact hdoes
  | stall hfree hunclaimed hjob => exact .stall hk hfree hunclaimed hjob

/-- What a move does. -/
theorem does_act (hs : s.Orderly) (move : Move κ) : Does s move (s.act move) := by
  cases move with
  | newBuilder => exact .newBuilder
  | add i work profile =>
    simp only [act]
    split
    · next hi => exact .add hi work profile
    · exact .keep _
  | wire n c => exact hs.does_wire n c
  | reset => exact .reset
  | execute i =>
    simp only [act]
    split
    · next hi => exact .execute hi
    · exact .keep _
  | drop i =>
    simp only [act]
    split
    · next b hi =>
      refine .drop hi ?_
      split
      · next hempty => exact Or.inl ⟨rfl, List.isEmpty_iff.mp hempty⟩
      · exact Or.inr rfl
    · exact .keep _
  | discard i =>
    simp only [act]
    split
    · next b n left hi =>
      obtain ⟨harmed, hdiscard⟩ := hs.discard_eq hi
      have hdoes := Does.discard hi harmed
      unfold discard
      dsimp only [graph] at hdiscard ⊢
      rw [hdiscard]
      exact hdoes
    · exact .keep _
  | abandon i =>
    simp only [act]
    split
    · next hi => exact .abandon hi
    · exact .keep _
  | dispatch k =>
    simp only [act]
    split
    · next hk => exact does_dispatch hk
    · exact .keep _
  | close k =>
    simp only [act]
    split
    · next hk => exact .close hk
    · exact .keep _
  | split position =>
    simp only [act]
    split
    · next hsplit =>
      obtain ⟨job, hjob, hparts⟩ := Option.bind_eq_some_iff.mp hsplit
      exact .split hjob hparts
    · exact .keep _
  | begin position =>
    simp only [act]
    split
    · next hjob => exact .begin hjob
    · exact .keep _
  | watch position =>
    simp only [act]
    split
    · next hjob => exact .watch hjob
    · exact .keep _
  | finish stage position =>
    simp only [act]
    split
    · next hjob => exact .finish hjob
    · exact .keep _

end Orderly

end Yard

end HazardFlow
