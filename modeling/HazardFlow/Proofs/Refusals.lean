import HazardFlow.Proofs.Graph.Refusing
import HazardFlow.Proofs.InDegree
import Mathlib.Data.List.TakeWhile

/-!
# Calls that are refused

Commands may also wire edges onto nodes that have been submitted. Such a call is refused when one of
its edges comes from a complete node, and what it has done up to there stays: edges from the sources
before that one, a list of readers that has been emptied, and the count of the refused edge itself.
In-degrees are then the edges of incomplete nodes and the refusals together, and a node that was
refused an edge once is not handed on by any completion.
-/

namespace HazardFlow

namespace Graph

variable {κ : Type} {g : Graph κ} {n : NodeId} {sources more : List NodeId}

/-- Sources behind a refused edge do not matter. -/
theorem beforeRefusal_append_of_refuses (h : ∃ i ∈ sources, g.refuses i n = true) :
    g.beforeRefusal n (sources ++ more) = g.beforeRefusal n sources := by
  unfold beforeRefusal
  rw [List.takeWhile_append, if_neg]
  intro hall
  obtain ⟨i, hi, hrefused⟩ := h
  have hself := (List.takeWhile_prefix fun i => !g.refuses i n).eq_of_length hall
  simpa [hrefused] using List.takeWhile_eq_self_iff.mp hself i hi

/-- Sources none of which is refused come before a refused edge. -/
theorem beforeRefusal_append (h : ∀ i ∈ sources, g.refuses i n = false) :
    g.beforeRefusal n (sources ++ more) = sources ++ g.beforeRefusal n more :=
  List.takeWhile_append_of_pos fun i hi => by rw [h i hi]; rfl

end Graph

namespace Tracker

variable {κ : Type} {t : Tracker} {g : Graph κ} {n : Nat} {a : Address} {write : Bool}

/-- The tracker after an access that was refused. It is what it was when that happened at the last
writer. Otherwise the readers have been taken out of their shard. -/
def afterRefusal (t : Tracker) (g : Graph κ) (n : NodeId) (a : Address) : Tracker :=
  if (t.shardAt a).lastWriter.any (g.refuses · n) then t
  else t.setShard a { t.shardAt a with readers := [] }

@[simp] theorem size_shards_afterRefusal (t : Tracker) (g : Graph κ) (n : NodeId) (a : Address) :
    (t.afterRefusal g n a).shards.size = t.shards.size := by
  unfold afterRefusal
  split
  · rfl
  · exact size_shards_setShard ..

@[simp] theorem readerLimit_afterRefusal (t : Tracker) (g : Graph κ) (n : NodeId) (a : Address) :
    (t.afterRefusal g n a).readerLimit = t.readerLimit := by
  unfold afterRefusal
  split <;> rfl

/-- A read is refused at the last writer, before it changes anything. -/
theorem afterRefusal_of_refused_read
    (hrefuses : ∃ i ∈ t.conflicts a false, g.refuses i n = true) : t.afterRefusal g n a = t := by
  obtain ⟨i, hi, hrefused⟩ := hrefuses
  have hwriter : (t.shardAt a).lastWriter = some i := by simpa [conflicts] using hi
  unfold afterRefusal
  rw [hwriter, if_pos (by simpa using hrefused)]

/-- A refused access drops nodes from the shards at most. -/
theorem Within.afterRefusal {bound : Nat} (h : t.Within bound) (g : Graph κ) (n : NodeId)
    (a : Address) : (t.afterRefusal g n a).Within bound := by
  unfold Tracker.afterRefusal
  split
  · exact h
  · refine h.setShard a fun i hi => h (t.shardOf a) i ?_
    rw [List.append_nil] at hi
    exact List.mem_append_left _ hi

/-- An access is refused when one of its edges is, and the edges before that one are recorded. -/
theorem resolve_of_refuses (ht : t.Within g.nodes.size) (hn : n < g.nodes.size)
    (hrefuses : ∃ i ∈ t.conflicts a write, g.refuses i n = true) :
    ∃ g', t.resolve g n a write =
        .fail (t.afterRefusal g n a, g'.raise n) .successorSubmitted ∧
      Graph.Wired g n (g.beforeRefusal n (t.conflicts a write)) g' := by
  have hwriter : ∀ i : Nat, i ∈ (t.shardAt a).lastWriter.toList → i < g.nodes.size := fun i hi =>
    ht (t.shardOf a) i (List.mem_append_left _ hi)
  have hreaders : ∀ i : Nat, i ∈ (t.shardAt a).readers → i < g.nodes.size := fun i hi =>
    ht (t.shardOf a) i (List.mem_append_right _ hi)
  have hany : (t.shardAt a).lastWriter.any (g.refuses · n) = true ↔
      ∃ i ∈ (t.shardAt a).lastWriter.toList, g.refuses i n = true := by
    cases (t.shardAt a).lastWriter <;> simp
  unfold resolve conflicts afterRefusal
  dsimp only
  by_cases hfirst : ∃ i ∈ (t.shardAt a).lastWriter.toList, g.refuses i n = true
  · obtain ⟨g', hlink, hwired⟩ := Graph.linkAll_of_refuses hwriter hn hfirst
    rw [hlink, if_pos (hany.mpr hfirst), Graph.beforeRefusal_append_of_refuses hfirst]
    exact ⟨g', rfl, hwired⟩
  · have hnone : ∀ i ∈ (t.shardAt a).lastWriter.toList, g.refuses i n = false := fun i hi =>
      Bool.eq_false_iff.mpr fun hyes => hfirst ⟨i, hi, hyes⟩
    -- No edge from the last writer is refused, so the access is a write and one from a reader is.
    obtain ⟨i, hi, hrefused⟩ := hrefuses
    unfold conflicts at hi
    obtain hi | hi := List.mem_append.mp hi
    · exact absurd ⟨i, hi, hrefused⟩ hfirst
    cases write with
    | false => exact absurd hi List.not_mem_nil
    | true =>
      rw [if_pos rfl] at hi
      obtain ⟨g₁, hlink, hwired⟩ := Graph.linkAll_of_not_refuses hwriter hn hnone
      obtain ⟨g₂, hlater, hwired'⟩ := Graph.linkAll_of_refuses (g := g₁) (n := n)
        (fun i hi => by rw [hwired.size]; exact hreaders i hi) (by rw [hwired.size]; exact hn)
        ⟨i, hi, (hwired.refuses i).trans hrefused⟩
      have hsame : g₁.beforeRefusal n (t.shardAt a).readers =
          g.beforeRefusal n (t.shardAt a).readers := by
        simp only [Graph.beforeRefusal, hwired.refuses]
      rw [hsame] at hwired'
      rw [hlink, Outcome.lift_pure, Outcome.bind_pure, if_pos rfl, hlater,
        if_neg (hany.not.mpr hfirst), if_pos rfl, Graph.beforeRefusal_append hnone]
      exact ⟨g₂, rfl, hwired.trans hwired'⟩

end Tracker

namespace GraphSession

/-- Whether an answer tells that a call was refused. -/
def isRefusal : Except Fault Answer → Bool
  | .error .successorSubmitted => true
  | _ => false

/-- How many of the commands that wire edges onto a node were refused. -/
def refusals (commands : List Command) (answers : List (Except Fault Answer)) (n : NodeId) : Nat :=
  (commands.zip answers).countP fun entry => entry.1.target == some n && isRefusal entry.2

variable {s : GraphSession} {owed : NodeId → Nat}

section Wiring

variable {i n : Nat} {a : Address} {write : Bool}

/-- An edge that is not refused is wired. -/
theorem perform_link_of_not_refuses (hi : i < s.graph.nodes.size) (hn : n < s.graph.nodes.size)
    (h : s.graph.refuses i n = false) : ∃ g', s.perform (.link i n) =
        .ok (.pure { s with graph := g' } (.flag (s.graph.records i n))) ∧
      Graph.Wired s.graph n [i] g' := by
  obtain ⟨g', hlink, hwired⟩ := Graph.link_of_not_refuses hi hn h
  refine ⟨g', ?_, hwired⟩
  rw [perform_link hi hn, hlink]
  rfl

/-- An edge that is refused is counted all the same. -/
theorem perform_link_of_refuses (hi : i < s.graph.nodes.size) (hn : n < s.graph.nodes.size)
    (h : s.graph.refuses i n = true) : s.perform (.link i n) =
      .ok (.fail { s with graph := s.graph.raise n } .successorSubmitted) := by
  rw [perform_link hi hn, Graph.link_of_refuses h]
  rfl

/-- An access none of whose edges is refused is resolved. -/
theorem perform_resolve_of_not_refuses (ht : s.tracker.Within s.graph.nodes.size)
    (hn : n < s.graph.nodes.size)
    (h : ∀ i ∈ s.tracker.conflicts a write, s.graph.refuses i n = false) :
    ∃ g', s.perform (.resolve n a write) = .ok (.pure
        { s with tracker := s.tracker.record s.graph n a write, graph := g' }
        (.number ((s.tracker.conflicts a write).countP (s.graph.records · n)))) ∧
      Graph.Wired s.graph n (s.tracker.conflicts a write) g' := by
  obtain ⟨g', hresolve, hwired⟩ := Tracker.resolve_of_not_refuses ht hn h
  refine ⟨g', ?_, hwired⟩
  rw [perform_resolve hn, hresolve]
  rfl

/-- An access one of whose edges is refused stops there. -/
theorem perform_resolve_of_refuses (ht : s.tracker.Within s.graph.nodes.size)
    (hn : n < s.graph.nodes.size)
    (h : ∃ i ∈ s.tracker.conflicts a write, s.graph.refuses i n = true) :
    ∃ g', s.perform (.resolve n a write) = .ok (.fail
        { s with tracker := s.tracker.afterRefusal s.graph n a, graph := g'.raise n }
        .successorSubmitted) ∧
      Graph.Wired s.graph n (s.graph.beforeRefusal n (s.tracker.conflicts a write)) g' := by
  obtain ⟨g', hresolve, hwired⟩ := Tracker.resolve_of_refuses ht hn h
  refine ⟨g', ?_, hwired⟩
  rw [perform_resolve hn, hresolve]
  rfl

end Wiring

/-- The nodes of a session owe edges, and the tracker names nodes that exist. -/
structure Owes (s : GraphSession) (owed : NodeId → Nat) : Prop where
  graph : s.graph.Owing owed
  within : s.tracker.Within s.graph.nodes.size

namespace Owes

theorem congr (h : s.Owes owed) {owed' : NodeId → Nat} (heq : ∀ m, owed' m = owed m) :
    s.Owes owed' := by
  rwa [funext heq]

/-- Edges are wired, or the node owes one more. -/
theorem wired (h : s.Owes owed) {n : Nat} {sources : List NodeId} {g : Graph Call} {t : Tracker}
    (hw : Graph.Wired s.graph n sources g) (hn : n < s.graph.nodes.size)
    (ht : t.Within s.graph.nodes.size) :
    ({ s with tracker := t, graph := g } : GraphSession).Owes owed :=
  ⟨h.graph.wired hw hn, hw.size.symm ▸ ht⟩

theorem raise (h : s.Owes owed) {n : Nat} (hn : n < s.graph.nodes.size) :
    ({ s with graph := s.graph.raise n } : GraphSession).Owes
      fun m => owed m + if m = n then 1 else 0 :=
  ⟨h.graph.raise hn, (Graph.size_nodes_raise s.graph n).symm ▸ h.within⟩

/-- A command leaves its target one more to owe when it is refused. -/
theorem perform (h : s.Owes owed) {command : Command} {o : Outcome GraphSession Answer}
    (hperform : s.perform command = .ok o) : o.state.Owes fun m =>
      owed m + if command.target == some m && isRefusal o.result then 1 else 0 := by
  have hanswered (hnone : ∀ m, (command.target == some m && isRefusal o.result) = false)
      (h' : o.state.Owes owed) : o.state.Owes fun m =>
        owed m + if command.target == some m && isRefusal o.result then 1 else 0 :=
    h'.congr fun m => by rw [hnone m, if_neg Bool.false_ne_true, Nat.add_zero]
  have hrefused {n : Nat} (htarget : command.target = some n)
      (hyes : isRefusal o.result = true)
      (h' : o.state.Owes fun m => owed m + if m = n then 1 else 0) : o.state.Owes fun m =>
        owed m + if command.target == some m && isRefusal o.result then 1 else 0 :=
    h'.congr fun m => by
      simp only [htarget, hyes, Bool.and_true, beq_iff_eq, Option.some.injEq, @eq_comm _ n m]
  cases htarget : command.target with
  | none =>
    obtain ⟨howing, hwithin⟩ := (lasting_owing owed).perform ⟨h.graph, h.within⟩ hperform htarget
    rw [← htarget]
    exact hanswered (fun m => by rw [htarget]; rfl) ⟨howing, hwithin⟩
  | some target =>
    rw [← htarget]
    cases command with
    | link i n =>
      obtain ⟨hi, hrest⟩ := of_needNode hperform
      obtain ⟨hn, -⟩ := of_needNode hrest
      cases hrefuses : s.graph.refuses i n with
      | true =>
        cases hperform.symm.trans (perform_link_of_refuses hi hn hrefuses)
        exact hrefused rfl rfl (h.raise hn)
      | false =>
        obtain ⟨g', hlink, hwired⟩ := perform_link_of_not_refuses hi hn hrefuses
        cases hperform.symm.trans hlink
        exact hanswered (fun m => Bool.and_false _) (h.wired hwired hn h.within)
    | resolve n a write =>
      obtain ⟨hn, -⟩ := of_needNode hperform
      by_cases hrefuses : ∃ i ∈ s.tracker.conflicts a write, s.graph.refuses i n = true
      · obtain ⟨g', hresolve, hwired⟩ := perform_resolve_of_refuses h.within hn hrefuses
        cases hperform.symm.trans hresolve
        have hkept := h.wired hwired hn (h.within.afterRefusal s.graph n a)
        exact hrefused rfl rfl (hkept.raise (by rw [hwired.size]; exact hn))
      · have hnone : ∀ i ∈ s.tracker.conflicts a write, s.graph.refuses i n = false :=
          fun i hi => Bool.eq_false_iff.mpr fun hyes => hrefuses ⟨i, hi, hyes⟩
        obtain ⟨g', hresolve, hwired⟩ := perform_resolve_of_not_refuses h.within hn hnone
        cases hperform.symm.trans hresolve
        exact hanswered (fun m => Bool.and_false _)
          (h.wired hwired hn (h.within.record hn s.graph a write))
    | _ => cases htarget

/-- What is owed after commands are the refusals among them. -/
theorem performAll (h : s.Owes owed) {commands : List Command} {s' : GraphSession}
    {answers : List (Except Fault Answer)} (hperform : s.performAll commands = .ok (s', answers)) :
    s'.Owes fun m => owed m + refusals commands answers m := by
  induction commands generalizing s owed answers with
  | nil =>
    cases hperform
    exact h
  | cons command rest ih =>
    obtain ⟨o, hfirst, hrest⟩ := of_bind hperform
    obtain ⟨⟨final, results⟩, hlater, heq⟩ := of_bind hrest
    cases heq
    refine (ih (h.perform hfirst) hlater).congr fun m => ?_
    unfold refusals
    rw [List.zip_cons_cons, List.countP_cons, Nat.add_right_comm, Nat.add_assoc]

/-- A session that begins with an empty graph owes nothing. -/
theorem start {tracker : Tracker} {count : Nat} (htracker : Tracker.create count = .ok tracker)
    (delay : Option Nat) : ({ tracker, delay } : GraphSession).Owes fun _ => 0 :=
  ⟨.empty, Tracker.within_create htracker⟩

end Owes

/-- What calls that wire edges do, and what refusals up to now make of completions. -/
structure RefusesExactly (s : GraphSession) (refused : NodeId → Nat) : Prop where
  /-- A node counts the edges from incomplete nodes, and one for every call that was refused. -/
  inDegree : ∀ m : Nat, (s.graph.node m).inDegree = s.graph.openEdges m + refused m
  /-- An edge that is not refused is wired. -/
  link : ∀ i n : Nat, i < s.graph.nodes.size → n < s.graph.nodes.size →
    s.graph.refuses i n = false → ∃ g', s.perform (.link i n) =
        .ok (.pure { s with graph := g' } (.flag (s.graph.records i n))) ∧
      Graph.Wired s.graph n [i] g'
  /-- A refused edge stays counted. -/
  linkRefused : ∀ i n : Nat, i < s.graph.nodes.size → n < s.graph.nodes.size →
    s.graph.refuses i n = true → s.perform (.link i n) =
      .ok (.fail { s with graph := s.graph.raise n } .successorSubmitted)
  /-- An access is resolved when none of its edges is refused. -/
  resolve : ∀ (n : Nat) (a : Address) (write : Bool), n < s.graph.nodes.size →
    (∀ i ∈ s.tracker.conflicts a write, s.graph.refuses i n = false) → ∃ g',
      s.perform (.resolve n a write) = .ok (.pure
        { s with tracker := s.tracker.record s.graph n a write, graph := g' }
        (.number ((s.tracker.conflicts a write).countP (s.graph.records · n)))) ∧
      Graph.Wired s.graph n (s.tracker.conflicts a write) g'
  /-- Otherwise the edges before the refused one stay recorded, the refused one stays counted, and
  readers that were taken out of their shard stay out. -/
  resolveRefused : ∀ (n : Nat) (a : Address) (write : Bool), n < s.graph.nodes.size →
    (∃ i ∈ s.tracker.conflicts a write, s.graph.refuses i n = true) → ∃ g',
      s.perform (.resolve n a write) = .ok (.fail
        { s with tracker := s.tracker.afterRefusal s.graph n a, graph := g'.raise n }
        .successorSubmitted) ∧
      Graph.Wired s.graph n (s.graph.beforeRefusal n (s.tracker.conflicts a write)) g'
  /-- A completion hands on the nodes that it gives all their edges, if they are armed, not claimed,
  and never were refused an edge. -/
  finish : ∀ n m : Nat, m ∈ (s.graph.finishPart Graph.handNode n).items ↔
    (s.graph.node n).parts = 1 ∧ s.graph.isComplete n = false ∧ m ∈ s.graph.entries n ∧
      s.graph.isArmed m = true ∧ (s.graph.node m).claimed = false ∧
      s.graph.openEdges m = (s.graph.entries n).count m ∧ refused m = 0

theorem Owes.refusesExactly (h : s.Owes owed) : s.RefusesExactly owed where
  inDegree m := by rw [h.graph.inDegree, Graph.edgeCount_eq_openEdges]
  link _ _ := perform_link_of_not_refuses
  linkRefused _ _ := perform_link_of_refuses
  resolve _ _ _ := perform_resolve_of_not_refuses h.within
  resolveRefused _ _ _ := perform_resolve_of_refuses h.within
  finish := h.graph.mem_items_finishPart

/-- After any commands, whether they wire edges onto nodes that were submitted or not: what calls
that are refused leave behind, and that it keeps their targets from being handed on. -/
theorem refusesExactly_of_performAll {tracker : Tracker} {count : Nat} {delay : Option Nat}
    {commands : List Command} {s : GraphSession} {answers : List (Except Fault Answer)}
    (htracker : Tracker.create count = .ok tracker)
    (hperform : ({ tracker, delay } : GraphSession).performAll commands = .ok (s, answers)) :
    s.RefusesExactly (refusals commands answers) := by
  have howes := ((Owes.start htracker delay).performAll hperform).refusesExactly
  simpa only [Nat.zero_add] using howes

/-- Node 2 waits for node 1 alone. Node 0 is complete, and the batch of node 2 has been armed. -/
def waitingForOne : List Command :=
  [.startBatch, .startBatch, .addNode 0 (.host (.answer none)) none true,
    .addNode 0 (.host (.answer none)) none true, .addNode 1 (.host (.answer none)) none true,
    .link 1 2, .finish 0, .arm 1]

/-- One call is refused, and node 2 owes an edge for it. -/
theorem refusesExactly_waitingForOne : ∃ s answers,
    ({ tracker := { shards := #[{}] } } : GraphSession).performAll (waitingForOne ++ [.link 0 2]) =
        .ok (s, answers) ∧
      s.RefusesExactly (refusals (waitingForOne ++ [.link 0 2]) answers) ∧
      refusals (waitingForOne ++ [.link 0 2]) answers 2 = 1 ∧ (s.graph.node 2).inDegree = 2 := by
  have htracker : Tracker.create 1 = .ok { shards := #[{}] } := rfl
  obtain ⟨s, answers, hperform, hrefusals, hdegree⟩ : ∃ s answers,
      ({ tracker := { shards := #[{}] } } : GraphSession).performAll
          (waitingForOne ++ [.link 0 2]) = .ok (s, answers) ∧
        refusals (waitingForOne ++ [.link 0 2]) answers 2 = 1 ∧ (s.graph.node 2).inDegree = 2 :=
    ⟨_, _, rfl, rfl, rfl⟩
  exact ⟨s, answers, hperform, refusesExactly_of_performAll htracker hperform, hrefusals, hdegree⟩

/-- A call that is refused leaves edges and shards as they were. -/
def KeepsOnRefusal (s : GraphSession) : Prop :=
  ∀ (command : Command) (o : Outcome GraphSession Answer), s.perform command = .ok o →
    o.result = .error .successorSubmitted →
      (∀ m : Nat, (o.state.graph.node m).inDegree = (s.graph.node m).inDegree) ∧
      (∀ m : Nat, (o.state.graph.node m).successors = (s.graph.node m).successors) ∧
      o.state.tracker = s.tracker

/-- Node 2 would be handed on when node 1 completes, and is not after an edge from node 0 has been
refused. -/
theorem not_keepsOnRefusal_waitingForOne : ∃ s answers o,
    ({ tracker := { shards := #[{}] } } : GraphSession).performAll waitingForOne =
        .ok (s, answers) ∧
      s.perform (.link 0 2) = .ok o ∧ o.result = .error .successorSubmitted ∧
      (s.graph.finishPart Graph.handNode 1).items = [2] ∧
      (o.state.graph.finishPart Graph.handNode 1).items = [] ∧ ¬s.KeepsOnRefusal := by
  refine ⟨_, _, _, rfl, rfl, rfl, rfl, rfl, fun hkeeps => ?_⟩
  have hsame := (hkeeps (.link 0 2) _ rfl rfl).1 2
  exact absurd hsame (by decide)

end GraphSession

end HazardFlow
