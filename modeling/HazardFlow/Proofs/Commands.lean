import HazardFlow.Graph.Session
import HazardFlow.Proofs.Graph.Accounting

/-!
# What commands do to the graph

A session has many commands, and most of them do little to in-degrees, lists of successors and the
tracker. They add a node without edges, finish parts of nodes, forget all accesses, or change
something else. What these four keep is kept by every command that wires no edges, so that only the
two that do are left to be looked at.
-/

namespace HazardFlow

namespace Watcher

variable {κ ε β : Type} {motive : Graph κ → Prop} {hand : Hand κ β}

/-- What finishing a part keeps is kept by a scan. -/
theorem scan_keeps
    (hfinish : ∀ (g : Graph κ) (n : Nat), motive g → motive (g.finishPart hand n).graph)
    (query : ε → Bool × ε) {g : Graph κ} (hg : motive g) (kept rest : List (Watched ε)) :
    motive (scan query hand g kept rest).handed.graph := by
  fun_induction scan with
  | case1 g kept => exact hg
  | case2 g kept entry rest event hquery ih => exact ih hg
  | case3 g kept entry rest event hquery finished fault hfault => exact hfinish g entry.node hg
  | case4 g kept entry rest event hquery finished hfault later ih =>
    exact ih (hfinish g entry.node hg)

/-- What finishing a part keeps is kept by a poll. -/
theorem poll_keeps
    (hfinish : ∀ (g : Graph κ) (n : Nat), motive g → motive (g.finishPart hand n).graph)
    (query : ε → Bool × ε) {g : Graph κ} (hg : motive g) (w : Watcher ε) :
    motive (w.poll query hand g).handed.graph := by
  have hscan := scan_keeps hfinish query hg [] w.pending
  unfold poll
  dsimp only
  split
  · exact hg
  · split
    · exact hg
    · split <;> exact hscan

/-- What finishing a part keeps is kept by finishing parts in turn. -/
theorem finishAll_keeps
    (hfinish : ∀ (g : Graph κ) (n : Nat), motive g → motive (g.finishPart hand n).graph)
    {g : Graph κ} (hg : motive g) (entries : List (Watched ε)) :
    motive (finishAll hand g entries).graph := by
  induction entries generalizing g with
  | nil => exact hg
  | cons entry rest ih =>
    have hnext := hfinish g entry.node hg
    unfold finishAll
    dsimp only
    split
    · exact hnext
    · exact ih hnext

/-- What finishing a part keeps is kept by waiting for every event. -/
theorem drain_keeps
    (hfinish : ∀ (g : Graph κ) (n : Nat), motive g → motive (g.finishPart hand n).graph)
    {g : Graph κ} (hg : motive g) (w : Watcher ε) : motive (w.drain hand g).handed.graph := by
  have hall := finishAll_keeps hfinish hg w.pending
  unfold drain
  dsimp only
  split <;> exact hall

end Watcher

namespace GraphSession

section Needs

variable {α : Type} {s : GraphSession} {a : α}

theorem of_needNode {n : Nat} {f : Unit → Except Unknown α} (h : s.needNode n >>= f = .ok a) :
    n < s.graph.nodes.size ∧ f () = .ok a := by
  unfold needNode at h
  split at h
  · next hn => exact ⟨hn, h⟩
  · cases h

theorem of_needBatch {b : Nat} {f : Unit → Except Unknown α} (h : s.needBatch b >>= f = .ok a) :
    f () = .ok a := by
  unfold needBatch at h
  split at h
  · exact h
  · cases h

theorem of_bind {β : Type} {x : Except Unknown β} {f : β → Except Unknown α}
    (h : x >>= f = .ok a) : ∃ b, x = .ok b ∧ f b = .ok a := by
  cases x with
  | error _ => cases h
  | ok b => exact ⟨b, rfl, h⟩

end Needs

section Wiring

variable {s : GraphSession} {n : Nat}

/-- An access of a node that exists is resolved by the tracker. -/
theorem perform_resolve (hn : n < s.graph.nodes.size) (a : Address) (write : Bool) :
    s.perform (.resolve n a write) = .ok (((s.tracker.resolve s.graph n a write).lift
      fun (tracker, graph) => { s with tracker, graph }).map .number) := by
  have hneed : s.needNode n = .ok () := if_pos hn
  unfold perform
  dsimp only
  rw [hneed]
  rfl

/-- An edge between nodes that exist is wired by the graph. -/
theorem perform_link {i : Nat} (hi : i < s.graph.nodes.size) (hn : n < s.graph.nodes.size) :
    s.perform (.link i n) =
      .ok (((s.graph.link i n).lift fun graph => { s with graph }).map .flag) := by
  have hneed : s.needNode i = .ok () := if_pos hi
  have hneed' : s.needNode n = .ok () := if_pos hn
  unfold perform
  dsimp only
  rw [hneed, hneed']
  rfl

end Wiring

/-- The node that a command wires edges onto. -/
def Command.target : Command → Option NodeId
  | .resolve n _ _ => some n
  | .link _ n => some n
  | _ => none

/-- A property of graph and tracker that does not depend on who claims nodes, holds their work or
counts their parts, and that nodes without edges, completions and forgotten accesses keep. -/
structure Lasting (motive : Graph Call → Tracker → Prop) : Prop where
  kept : ∀ {g g' : Graph Call} {t : Tracker}, motive g t → g'.nodes.size = g.nodes.size →
    (∀ m : Nat, (g'.node m).inDegree = (g.node m).inDegree) →
    (∀ m : Nat, (g'.node m).successors = (g.node m).successors) → motive g' t
  addNode : ∀ {g : Graph Call} {t : Tracker} (work : Work Call) (b : BatchId)
    (profile : Option Profile), motive g t → motive (g.addNode work b profile).1 t
  finishPart : ∀ {g : Graph Call} {t : Tracker} (n : Nat), motive g t →
    motive (g.finishPart Graph.handNode n).graph t
  reset : ∀ {g : Graph Call} {t : Tracker}, motive g t → motive g t.reset

namespace Lasting

variable {motive : Graph Call → Tracker → Prop} {s s' : GraphSession}

/-- A node may change in other respects. -/
theorem updateNode (hm : Lasting motive) {g : Graph Call} {t : Tracker} (h : motive g t) (n : Nat)
    {f : Node Call → Node Call}
    (hdegree : ∀ x, (f x).inDegree = x.inDegree := by intro x; rfl)
    (hlists : ∀ x, (f x).successors = x.successors := by intro x; rfl) :
    motive (g.updateNode n f) t :=
  hm.kept h (Graph.size_nodes_updateNode ..)
    (fun m => Graph.field_updateNode Node.inDegree m hdegree)
    fun m => Graph.field_updateNode Node.successors m hlists

/-- Batches may change. -/
theorem batches (hm : Lasting motive) {g g' : Graph Call} {t : Tracker} (h : motive g t)
    (hnodes : g'.nodes = g.nodes) : motive g' t := by
  refine hm.kept h (by rw [hnodes]) (fun m => ?_) fun m => ?_ <;>
    simp only [Graph.node, hnodes]

/-- Looking at events finishes parts at most. -/
theorem watched (number : Nat) {w : Watch Call Event NodeId}
    (h : motive w.handed.graph s.tracker) :
    motive (s.watched number w).state.graph (s.watched number w).state.tracker := by
  unfold GraphSession.watched
  dsimp only
  split <;> exact h

/-- So does polling a watcher several times. -/
theorem pollTimes (hm : Lasting motive) (h : motive s.graph s.tracker) (number times : Nat) :
    motive (s.pollTimes number times).state.graph (s.pollTimes number times).state.tracker := by
  induction times generalizing s with
  | zero => exact h
  | succ times ih =>
    unfold GraphSession.pollTimes
    split
    · exact h
    · next watcher _ =>
      have hpoll := watcher.poll_keeps (motive := (motive · s.tracker))
        (fun _ n hg => hm.finishPart n hg) (Event.query s.signals) h
      have hnext := watched number hpoll
      unfold Outcome.bind
      split
      · exact ih hnext
      · exact hnext

/-- Splitting a job counts one more part of its node. -/
theorem splitJob (hm : Lasting motive) (h : motive s.graph s.tracker) (number : Nat)
    (j : Job Call) :
    motive (s.splitJob number j).1.graph (s.splitJob number j).1.tracker := by
  unfold GraphSession.splitJob Graph.splitJob
  split
  · exact h
  · next hsplit =>
    split at hsplit
    · rw [Option.map_eq_some_iff] at hsplit
      obtain ⟨_, _, heq⟩ := hsplit
      cases heq
      exact hm.updateNode h _
    · cases hsplit

/-- Taking a job takes the work out of its node. -/
theorem takeJob (hm : Lasting motive) {g : Graph Call} {t : Tracker} (h : motive g t)
    (n grain : Nat) : motive (g.takeJob n grain).state t := by
  rcases (Graph.faithful_takeJob grain).state g n with heq | heq
  · rw [heq]
    exact h
  · rw [heq]
    exact hm.updateNode h n

/-- Discarding the work of a node changes its work at most. -/
theorem discard (hm : Lasting motive) {g : Graph Call} {t : Tracker} (h : motive g t) (n : Nat) :
    motive (g.discard n).state t := by
  unfold Graph.discard
  split
  · exact h
  · exact hm.updateNode h n

/-- Running a job leaves graph and tracker alone. -/
theorem runJob (h : motive s.graph s.tracker) (j : Job Call) :
    motive (s.runJob j).state.graph (s.runJob j).state.tracker := by
  unfold GraphSession.runJob
  split <;> exact h

/-- So does taking an event out of the session. -/
theorem takeEvent (h : motive s.graph s.tracker) {source : EventSource} {event : Event}
    (htake : s.takeEvent source = .ok (s', event)) : motive s'.graph s'.tracker := by
  unfold GraphSession.takeEvent at htake
  split at htake
  · obtain ⟨_, _, heq⟩ := of_bind htake
    cases heq
    exact h
  · cases htake
    exact h
  · split at htake
    · cases htake
      exact h
    · cases htake

/-- Every command that wires no edges keeps what lasts. -/
theorem perform (hm : Lasting motive) (h : motive s.graph s.tracker) {command : Command}
    {o : Outcome GraphSession Answer} (hperform : s.perform command = .ok o)
    (htarget : command.target = none) : motive o.state.graph o.state.tracker := by
  cases command with
  | resolve n address write | link source n => cases htarget
  | startBatch =>
    cases hperform
    exact hm.batches h rfl
  | arm b | finishOne b =>
    cases of_needBatch hperform
    exact hm.batches h rfl
  | batchState b =>
    cases of_needBatch hperform
    exact h
  | addNode b work profile register =>
    cases of_needBatch hperform
    refine hm.addNode work b profile ?_
    split
    · exact hm.batches h rfl
    · exact h
  | reset =>
    cases hperform
    exact hm.reset h
  | readers address | shardOf address | shards | state | signal | watcher cap =>
    cases hperform
    exact h
  | claim n =>
    cases (of_needNode hperform).2
    exact hm.updateNode h n
  | discard n =>
    cases (of_needNode hperform).2
    exact hm.discard h n
  | finish n =>
    cases (of_needNode hperform).2
    have hfinished := hm.finishPart n h
    unfold finish
    dsimp only
    split <;> exact hfinished
  | info n | describe n =>
    cases (of_needNode hperform).2
    exact h
  | same n other =>
    cases (of_needNode (of_needNode hperform).2).2
    exact h
  | takeJob n grain =>
    cases (of_needNode hperform).2
    have htaken := hm.takeJob h n grain
    unfold Outcome.bind
    split <;> exact htaken
  | split job =>
    obtain ⟨j, _, hsplit⟩ := of_bind hperform
    cases hsplit
    exact hm.splitJob h job j
  | describeJob job | jobNode job | dropJob job =>
    obtain ⟨_, _, heq⟩ := of_bind hperform
    cases heq
    exact h
  | run job =>
    obtain ⟨j, _, hrun⟩ := of_bind hperform
    cases hrun
    exact runJob (s := { s with jobs := s.jobs.setIfInBounds job none }) h j
  | fire signal =>
    obtain ⟨_, _, hfire⟩ := of_bind hperform
    split at hfire <;> cases hfire <;> exact h
  | track watcher node source =>
    obtain ⟨w, _, hrest⟩ := of_bind hperform
    obtain ⟨⟨s', event⟩, htake, heq⟩ := of_bind (of_needNode hrest).2
    cases heq
    have htaken := takeEvent h htake
    exact htaken
  | poll watcher times =>
    obtain ⟨_, _, heq⟩ := of_bind hperform
    cases heq
    exact hm.pollTimes h watcher times
  | drain watcher fire =>
    obtain ⟨w, _, hrest⟩ := of_bind hperform
    obtain ⟨_, _, heq⟩ := of_bind hrest
    cases heq
    have hdrain := w.drain_keeps (motive := (motive · s.tracker))
      (fun _ n hg => hm.finishPart n hg) h
    exact watched (s := { s with signals := s.signals.fireAll fire }) watcher hdrain

end Lasting

end GraphSession

end HazardFlow
