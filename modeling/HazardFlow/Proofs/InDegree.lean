import HazardFlow.Proofs.Commands
import HazardFlow.Proofs.Tracker.History

/-!
# In-degrees under any commands

A session takes the steps of a node's life in any order: nodes are claimed before their batch is
armed, parts finish that no job holds, events complete at any poll. As long as edges are wired only
onto nodes of batches that are not armed, every in-degree is at all times the number of edges that
incomplete nodes still list, and what a command answers about its edges is what it adds.
-/

namespace HazardFlow

namespace GraphSession

/-- Whether a command wires edges, if any, onto a node of a batch that is not armed. -/
def Command.wiresUnarmed (g : Graph Call) : Command → Bool
  | .resolve n _ _ => !g.isArmed n
  | .link _ n => !g.isArmed n
  | _ => true

/-- Whether each of the commands does so when its turn comes. -/
def allWireUnarmed (s : GraphSession) : List Command → Bool
  | [] => true
  | command :: rest => command.wiresUnarmed s.graph && match s.perform command with
    | .ok o => o.state.allWireUnarmed rest
    | .error _ => true

/-- The graph counts its edges and the tracker names nodes that exist. -/
structure Accounts (s : GraphSession) : Prop where
  graph : s.graph.Accounted
  within : s.tracker.Within s.graph.nodes.size

/-- Commands that wire nothing keep what is owed, and the tracker within the nodes. -/
theorem lasting_owing (owed : NodeId → Nat) :
    Lasting fun g t => g.Owing owed ∧ t.Within g.nodes.size where
  kept h hsize hdegree hlists := ⟨h.1.of_kept hsize hdegree hlists, hsize ▸ h.2⟩
  addNode work b profile h := by
    refine ⟨h.1.addNode work b profile, h.2.mono ?_⟩
    rw [Graph.size_nodes_addNode]
    exact Nat.le_succ _
  finishPart n h := by
    obtain ⟨howing, hsize⟩ := h.1.finishPart n
    exact ⟨howing, hsize ▸ h.2⟩
  reset h := ⟨h.1, Tracker.within_reset _ _⟩

namespace Accounts

variable {s s' : GraphSession}

/-- The graph may change as long as it counts its edges and loses no nodes. -/
theorem of_graph (h : s.Accounts) (htracker : s'.tracker = s.tracker)
    (hgraph : s'.graph.Accounted) (hsize : s.graph.nodes.size ≤ s'.graph.nodes.size) :
    s'.Accounts where
  graph := hgraph
  within := by
    rw [htracker]
    exact h.within.mono hsize

/-- Resolving an access counts the edges that it answers. -/
theorem exists_resolve (h : s.Accounts) {n : Nat} (hn : n < s.graph.nodes.size)
    (harmed : s.graph.isArmed n = false) (a : Address) (write : Bool) :
    ∃ s' k, s.perform (.resolve n a write) = .ok (.pure s' (.number k)) ∧ s'.Accounts ∧
      ∀ m : Nat, (s'.graph.node m).inDegree =
        (s.graph.node m).inDegree + if m = n then (k : Int) else 0 := by
  obtain ⟨g, hresolve, hw⟩ := Tracker.resolve_spec h.within hn harmed a write
  refine ⟨{ s with tracker := s.tracker.record s.graph n a write, graph := g }, _, ?_, ?_,
    hw.inDegree⟩
  · rw [perform_resolve hn, hresolve]
    rfl
  · refine ⟨h.graph.wired hw hn, ?_⟩
    change (s.tracker.record s.graph n a write).Within g.nodes.size
    rw [hw.size]
    exact h.within.record hn s.graph a write

/-- Wiring an edge counts it if it is recorded, and one from a complete node is not. -/
theorem exists_link (h : s.Accounts) {source n : Nat} (hsource : source < s.graph.nodes.size)
    (hn : n < s.graph.nodes.size) (harmed : s.graph.isArmed n = false) :
    ∃ s' recorded, s.perform (.link source n) = .ok (.pure s' (.flag recorded)) ∧ s'.Accounts ∧
      (∀ m : Nat, (s'.graph.node m).inDegree =
        (s.graph.node m).inDegree + if m = n then (recorded.toNat : Int) else 0) ∧
      (s.graph.isComplete source = true → recorded = false ∧ s'.graph = s.graph) := by
  obtain ⟨g, hlink, hw⟩ := Graph.link_spec hsource hn harmed
  refine ⟨{ s with graph := g }, s.graph.records source n, ?_,
    h.of_graph rfl (h.graph.wired hw hn) (Nat.le_of_eq hw.size.symm), fun m => ?_, fun hc => ?_⟩
  · rw [perform_link hsource hn, hlink]
    rfl
  · have hdegree := hw.inDegree m
    rw [List.countP_singleton] at hdegree
    rw [hdegree]
    cases s.graph.records source n <;> rfl
  · rw [Graph.link_of_isComplete hc harmed] at hlink
    simp only [Outcome.pure, Outcome.mk.injEq, Except.ok.injEq] at hlink
    exact ⟨hlink.2.symm, hlink.1.symm⟩

/-- Every command keeps the account, when it wires onto nodes of batches that are not armed. -/
theorem perform (h : s.Accounts) {command : Command} {o : Outcome GraphSession Answer}
    (hperform : s.perform command = .ok o) (hwires : command.wiresUnarmed s.graph = true) :
    o.state.Accounts := by
  cases htarget : command.target with
  | none =>
    obtain ⟨howing, hwithin⟩ := (lasting_owing fun _ => 0).perform
      ⟨Graph.accounted_iff.mp h.graph, h.within⟩ hperform htarget
    exact ⟨Graph.accounted_iff.mpr howing, hwithin⟩
  | some target =>
    cases command with
    | resolve n address write =>
      obtain ⟨hn, _⟩ := of_needNode hperform
      obtain ⟨s', k, hresolve, haccounts, _⟩ :=
        h.exists_resolve hn (by simpa [Command.wiresUnarmed] using hwires) address write
      rw [hresolve] at hperform
      cases hperform
      exact haccounts
    | link source n =>
      obtain ⟨hsource, hrest⟩ := of_needNode hperform
      obtain ⟨hn, _⟩ := of_needNode hrest
      obtain ⟨s', recorded, hlink, haccounts, _, _⟩ :=
        h.exists_link hsource hn (by simpa [Command.wiresUnarmed] using hwires)
      rw [hlink] at hperform
      cases hperform
      exact haccounts
    | _ => cases htarget

/-- A session keeps its account through commands that wire onto nodes of batches that are not
armed. -/
theorem performAll (h : s.Accounts) {commands : List Command}
    {answers : List (Except Fault Answer)} (hperform : s.performAll commands = .ok (s', answers))
    (hwires : s.allWireUnarmed commands = true) : s'.Accounts := by
  induction commands generalizing s answers with
  | nil =>
    cases hperform
    exact h
  | cons command rest ih =>
    obtain ⟨o, hfirst, hrest⟩ := of_bind hperform
    obtain ⟨⟨final, results⟩, hlater, heq⟩ := of_bind hrest
    cases heq
    unfold allWireUnarmed at hwires
    rw [hfirst, Bool.and_eq_true] at hwires
    exact ih (h.perform hfirst hwires.1) hlater hwires.2

/-- A session that begins with an empty graph. -/
theorem start {tracker : Tracker} {count : Nat} (htracker : Tracker.create count = .ok tracker)
    (delay : Option Nat) : ({ tracker, delay } : GraphSession).Accounts :=
  ⟨.empty, Tracker.within_create htracker⟩

end Accounts

/-- The edges of a session are counted exactly. -/
structure CountsEdges (s : GraphSession) : Prop where
  /-- An in-degree is the number of entries that name the node in the lists of incomplete nodes. -/
  inDegree : ∀ m : Nat, (s.graph.node m).inDegree = s.graph.openEdges m
  /-- A complete node holds no entries. -/
  entries : ∀ i : Nat, s.graph.isComplete i = true → s.graph.entries i = []
  /-- No node is its own successor. -/
  not_self : ∀ i : Nat, i ∉ s.graph.entries i
  /-- No in-degree falls below zero, also not while a node that completes goes through its list. -/
  nonneg : ∀ (i : Nat) (l : List NodeId), l <+: s.graph.entries i → ∀ m : Nat,
    0 ≤ ((Graph.releaseAll Graph.handNode (s.graph.retire i) l).graph.node m).inDegree
  /-- Resolving an access adds as many edges to its node as it answers, and none to others. -/
  resolve : ∀ (n : Nat) (a : Address) (write : Bool), n < s.graph.nodes.size →
    s.graph.isArmed n = false →
    ∃ s' k, s.perform (.resolve n a write) = .ok (.pure s' (.number k)) ∧
      ∀ m : Nat, (s'.graph.node m).inDegree =
        (s.graph.node m).inDegree + if m = n then (k : Int) else 0
  /-- Wiring an edge adds it to its target if it answers so, and none to others. An edge from a
  complete node leaves no trace. -/
  link : ∀ source n : Nat, source < s.graph.nodes.size → n < s.graph.nodes.size →
    s.graph.isArmed n = false →
    ∃ s' recorded, s.perform (.link source n) = .ok (.pure s' (.flag recorded)) ∧
      (∀ m : Nat, (s'.graph.node m).inDegree =
        (s.graph.node m).inDegree + if m = n then (recorded.toNat : Int) else 0) ∧
      (s.graph.isComplete source = true → recorded = false ∧ s'.graph = s.graph)

/-- A session that keeps its account counts its edges exactly. -/
theorem Accounts.countsEdges {s : GraphSession} (h : s.Accounts) : s.CountsEdges where
  inDegree m := by rw [h.graph.inDegree, Graph.edgeCount_eq_openEdges]
  entries _ := Graph.entries_of_isComplete
  not_self i hi := (h.graph.entry i i hi).1 rfl
  nonneg _ _ hl m := h.graph.zero_le_inDegree_releaseAll hl m
  resolve n a write hn harmed := by
    obtain ⟨s', k, hresolve, _, hdegree⟩ := h.exists_resolve hn harmed a write
    exact ⟨s', k, hresolve, hdegree⟩
  link source n hsource hn harmed := by
    obtain ⟨s', recorded, hlink, _, hdegree, hcomplete⟩ := h.exists_link hsource hn harmed
    exact ⟨s', recorded, hlink, hdegree, hcomplete⟩

/-- After any commands that wire edges only onto nodes of batches that are not armed, edges are
counted exactly. -/
theorem countsEdges_of_performAll {tracker : Tracker} {count : Nat} {delay : Option Nat}
    {commands : List Command} {s : GraphSession} {answers : List (Except Fault Answer)}
    (htracker : Tracker.create count = .ok tracker)
    (hperform : ({ tracker, delay } : GraphSession).performAll commands = .ok (s, answers))
    (hwires : ({ tracker, delay } : GraphSession).allWireUnarmed commands = true) :
    s.CountsEdges :=
  ((Accounts.start htracker delay).performAll hperform hwires).countsEdges

/-- Node 1 is wired to node 0 by two accesses and twice by name, and once to itself. Node 2 is
wired to both after node 0 is complete. -/
def repeatedEdges : List Command :=
  [.startBatch, .startBatch, .addNode 0 (.kernel (.answer none)) none true,
    .addNode 1 (.range ⟨0, 4⟩ (.answer none)) none true, .resolve 0 0 true, .resolve 1 0 false,
    .resolve 1 64 true, .link 0 1, .link 0 1, .link 1 1, .arm 0, .claim 0, .takeJob 0 1, .run 0,
    .finish 0, .addNode 1 .idle none true, .resolve 2 0 true, .link 0 2, .link 1 2, .reset]

/-- What was wired from node 0 is gone, and node 2 waits for node 1 alone, twice. -/
theorem countsEdges_repeatedEdges : ∃ s answers,
    ({ tracker := { shards := #[{}] } } : GraphSession).performAll repeatedEdges =
        .ok (s, answers) ∧
      s.CountsEdges ∧ (s.graph.node 1).inDegree = 0 ∧ (s.graph.node 2).inDegree = 2 := by
  have htracker : Tracker.create 1 = .ok { shards := #[{}] } := rfl
  have hdegrees : (({ tracker := { shards := #[{}] } } : GraphSession).performAll
      repeatedEdges).map (fun final =>
        ((final.1.graph.node 1).inDegree, (final.1.graph.node 2).inDegree)) = .ok (0, 2) := rfl
  cases hperform : ({ tracker := { shards := #[{}] } } : GraphSession).performAll repeatedEdges with
  | error unknown =>
    rw [hperform] at hdegrees
    cases hdegrees
  | ok final =>
    rw [hperform] at hdegrees
    obtain ⟨hone, htwo⟩ := Prod.mk.inj (Except.ok.inj hdegrees)
    exact ⟨final.1, final.2, rfl, countsEdges_of_performAll htracker hperform (by decide), hone,
      htwo⟩

end GraphSession

end HazardFlow
