import HazardFlow.Proofs.InDegree
import HazardFlow.Proofs.Tracker.Pruning

/-!
# Pruning is invisible

A session whose tracker drops complete readers is set beside one whose tracker never does. As long
as nodes are resolved one after the other, and before their batch is armed, the two cannot be told
apart except by counting readers.
-/

namespace HazardFlow

namespace Graph

variable {κ β : Type} {g g' g'' : Graph κ}

/-- What is complete in the first graph is complete in the second. -/
def CompleteWithin (g g' : Graph κ) : Prop :=
  ∀ i : Nat, g.isComplete i = true → g'.isComplete i = true

namespace CompleteWithin

theorem refl (g : Graph κ) : CompleteWithin g g := fun _ h => h

theorem trans (h : CompleteWithin g g') (h' : CompleteWithin g' g'') : CompleteWithin g g'' :=
  fun i hi => h' i (h i hi)

theorem updateNode (g : Graph κ) (n : Nat) {f : Node κ → Node κ}
    (hf : ∀ x, x.isComplete = true → (f x).isComplete = true := by intro x h; exact h) :
    CompleteWithin g (g.updateNode n f) := by
  intro i hi
  unfold isComplete at hi ⊢
  by_cases hlt : i < g.nodes.size
  · rw [node_updateNode g f hlt]
    split
    · exact hf _ hi
    · exact hi
  · have hout : g.nodes.size ≤ i := by omega
    rw [node_of_size_le hout] at hi
    rwa [node_of_size_le (by simpa using hout)]

theorem addNode (g : Graph κ) (work : Work κ) (b : Nat) (profile : Option Profile) :
    CompleteWithin g (g.addNode work b profile).1 := fun i hi =>
  (field_addNode g Node.isComplete rfl i).trans hi

theorem release (g : Graph κ) (n : Nat) : CompleteWithin g (g.release n).1 := by
  unfold Graph.release
  dsimp only
  split
  · exact (updateNode g n).trans (updateNode _ n)
  · exact updateNode g n

theorem releaseAll (g : Graph κ) (l : List NodeId) :
    CompleteWithin g (Graph.releaseAll handNode g l).graph := by
  induction l generalizing g with
  | nil => exact .refl g
  | cons n rest ih =>
    have hfirst := release g n
    unfold Graph.releaseAll
    split
    · next heq =>
      rw [heq] at hfirst
      exact hfirst.trans (ih _)
    · next heq =>
      rw [heq] at hfirst
      exact hfirst.trans (ih _)

theorem finishPart (g : Graph κ) (n : Nat) :
    CompleteWithin g (Graph.finishPart handNode g n).graph := by
  unfold Graph.finishPart
  dsimp only
  set lowered := g.updateNode n fun m => { m with parts := m.parts - 1 } with hdef
  have hlowered : CompleteWithin g lowered := .updateNode g n
  split
  · set closed := lowered.updateNode n
      ({ · with successors := ((lowered.node n).successors.close).state })
    have hclosed : CompleteWithin g closed := hlowered.trans <|
      .updateNode lowered n fun x _ => by simp [Node.isComplete]
    split
    · exact hclosed
    · next successors _ =>
      have hall := hclosed.trans (releaseAll closed successors)
      split
      · exact hall
      · exact hall
  · exact hlowered

end CompleteWithin

end Graph

namespace GraphSession

/-- The nodes of which a command resolves an access. -/
def Command.resolved : Command → List NodeId
  | .resolve n _ _ => [n]
  | _ => []

/-- Whether a command resolves accesses, if any, of a node of a batch that is not armed. -/
def Command.resolvesUnarmed (g : Graph Call) : Command → Bool
  | .resolve n _ _ => !g.isArmed n
  | _ => true

/-- Whether each of the commands does so when its turn comes. -/
def allResolveUnarmed (s : GraphSession) : List Command → Bool
  | [] => true
  | command :: rest => command.resolvesUnarmed s.graph && match s.perform command with
    | .ok o => o.state.allResolveUnarmed rest
    | .error _ => true

/-- Whether a command counts readers. -/
def Command.countsReaders : Command → Bool
  | .readers _ | .shards => true
  | _ => false

/-- Whether a command reads or changes the tracker. -/
def Command.usesTracker : Command → Bool
  | .resolve .. | .reset | .readers _ | .shardOf _ | .shards => true
  | _ => false

/-- The same session with another tracker. -/
def withTracker (s : GraphSession) (t : Tracker) : GraphSession := { s with tracker := t }

/-- Taking an event out of a session does not look at the tracker. -/
theorem takeEvent_withTracker (s : GraphSession) (t : Tracker) (source : EventSource) :
    (s.withTracker t).takeEvent source =
      (s.takeEvent source).map fun taken => (taken.1.withTracker t, taken.2) := by
  cases source with
  | answered number =>
    unfold takeEvent
    dsimp only [withTracker]
    cases s.events[number]? with
    | none => rfl
    | some event => cases event <;> rfl
  | fresh event =>
    cases event with
    | signal i =>
      change ((s.withTracker t).needSignal i >>= _) = Except.map _ (s.needSignal i >>= _)
      change (s.needSignal i >>= _) = _
      cases s.needSignal i <;> rfl
    | _ => rfl

/-- Neither does placing what a look at events left behind. -/
theorem watched_withTracker (s : GraphSession) (t : Tracker) (number : Nat)
    (w : Watch Call Event NodeId) :
    (s.withTracker t).watched number w = (s.watched number w).lift (·.withTracker t) := by
  unfold watched
  dsimp only [withTracker]
  cases w.handed.fault <;> rfl

/-- Neither does polling. -/
theorem pollTimes_withTracker (s : GraphSession) (t : Tracker) (number times : Nat) :
    (s.withTracker t).pollTimes number times =
      (s.pollTimes number times).lift (·.withTracker t) := by
  induction times generalizing s with
  | zero => rfl
  | succ times ih =>
    have hwatchers : (s.withTracker t).watchers = s.watchers := rfl
    unfold pollTimes
    rw [hwatchers]
    cases s.watchers[number]? with
    | none => rfl
    | some watcher =>
      dsimp only
      rw [watched_withTracker]
      change ((s.watched number
        (watcher.poll (Event.query s.signals) Graph.handNode s.graph)).lift _).bind _ = _
      generalize s.watched number _ = looked
      cases looked with
      | mk state result =>
        cases result with
        | error fault => rfl
        | ok first =>
          simp only [Outcome.bind, Outcome.lift, ih]
          rfl

/-- Neither does finishing a part of a node. -/
theorem finish_withTracker (s : GraphSession) (t : Tracker) (n : NodeId) :
    (s.withTracker t).finish n = (s.finish n).lift (·.withTracker t) := by
  unfold finish
  dsimp only [withTracker]
  cases (s.graph.finishPart Graph.handNode n).fault <;> rfl

/-- Neither does running a job. -/
theorem runJob_withTracker (s : GraphSession) (t : Tracker) (j : Job Call) :
    (s.withTracker t).runJob j = (s.runJob j).lift (·.withTracker t) := by
  unfold runJob
  cases j.task with
  | host call =>
    cases call with
    | stop message => rfl
    | answer event => cases event <;> rfl
  | _ => rfl

/-- Neither does splitting one. -/
theorem splitJob_withTracker (s : GraphSession) (t : Tracker) (number : Nat) (j : Job Call) :
    (s.withTracker t).splitJob number j =
      ((s.splitJob number j).1.withTracker t, (s.splitJob number j).2) := by
  unfold splitJob
  dsimp only [withTracker]
  cases s.graph.splitJob j <;> rfl

/-- Commands that do not use the tracker do the same with any other one. -/
theorem perform_withTracker (s : GraphSession) (t : Tracker) {command : Command}
    (h : command.usesTracker = false) :
    (s.withTracker t).perform command =
      (s.perform command).map fun o => o.lift (·.withTracker t) := by
  have hbatch (b : Nat) : (s.withTracker t).needBatch b = s.needBatch b := rfl
  have hnode (n : Nat) : (s.withTracker t).needNode n = s.needNode n := rfl
  have hjob (j : Nat) : (s.withTracker t).jobAt j = s.jobAt j := rfl
  have hwatcher (w : Nat) : (s.withTracker t).watcherAt w = s.watcherAt w := rfl
  have hsignal : (s.withTracker t).needSignal = s.needSignal := rfl
  unfold perform
  cases command with
  | resolve n address write | reset | readers address | shardOf address | shards => cases h
  | startBatch | signal | watcher cap | state => rfl
  | arm b | batchState b | finishOne b | addNode b work profile register =>
    dsimp only
    rw [hbatch]
    cases s.needBatch b <;> rfl
  | claim n | discard n | info n | describe n =>
    dsimp only
    rw [hnode]
    cases s.needNode n <;> rfl
  | link source n | same source n =>
    dsimp only
    rw [hnode, hnode]
    cases s.needNode source <;> cases s.needNode n <;> rfl
  | finish n =>
    dsimp only
    rw [hnode]
    cases s.needNode n with
    | error _ => rfl
    | ok _ => exact congrArg Except.ok (finish_withTracker s t n)
  | takeJob n grain =>
    dsimp only
    rw [hnode]
    cases s.needNode n with
    | error _ => rfl
    | ok _ =>
      change Except.ok _ = Except.ok _
      dsimp only [withTracker]
      cases s.graph.takeJob n grain with
      | mk graph result => cases result <;> rfl
  | split job =>
    dsimp only
    rw [hjob]
    cases s.jobAt job with
    | error _ => rfl
    | ok j =>
      change Except.ok (Outcome.pure ((s.withTracker t).splitJob job j).1 _) = Except.ok _
      rw [splitJob_withTracker]
      rfl
  | describeJob job | jobNode job | dropJob job =>
    dsimp only
    rw [hjob]
    cases s.jobAt job <;> rfl
  | run job =>
    dsimp only
    rw [hjob]
    cases s.jobAt job with
    | error _ => rfl
    | ok j =>
      exact congrArg Except.ok
        (runJob_withTracker { s with jobs := s.jobs.setIfInBounds job none } t j)
  | fire signal =>
    dsimp only
    rw [hsignal]
    cases s.needSignal signal with
    | error _ => rfl
    | ok _ =>
      change (if s.signals.hasTrigger signal then _ else _) = Except.map _ (if _ then _ else _)
      split <;> rfl
  | track watcher node source =>
    dsimp only
    rw [hwatcher]
    cases s.watcherAt watcher with
    | error _ => rfl
    | ok w =>
      change ((s.withTracker t).needNode node >>= _) = Except.map _ (s.needNode node >>= _)
      rw [hnode]
      cases s.needNode node with
      | error _ => rfl
      | ok _ =>
        change ((s.withTracker t).takeEvent source >>= _) =
          Except.map _ (s.takeEvent source >>= _)
        rw [takeEvent_withTracker]
        cases s.takeEvent source <;> rfl
  | poll watcher times =>
    dsimp only
    rw [hwatcher]
    cases s.watcherAt watcher with
    | error _ => rfl
    | ok _ =>
      change Except.ok (((s.withTracker t).pollTimes watcher times).map _) = Except.ok _
      rw [pollTimes_withTracker]
      rfl
  | drain watcher fire =>
    dsimp only
    rw [hwatcher]
    cases s.watcherAt watcher with
    | error _ => rfl
    | ok w =>
      change (fire.forM (s.withTracker t).needSignal >>= _) =
        Except.map _ (fire.forM s.needSignal >>= _)
      rw [hsignal]
      cases fire.forM s.needSignal with
      | error _ => rfl
      | ok _ =>
        change Except.ok (((({ s with signals := s.signals.fireAll fire } : GraphSession).withTracker
          t).watched watcher (w.drain Graph.handNode s.graph)).map Answer.poll) = Except.ok _
        rw [watched_withTracker]
        rfl

/-- They leave the tracker alone. -/
theorem tracker_perform {s : GraphSession} {command : Command} {o : Outcome GraphSession Answer}
    (hperform : s.perform command = .ok o) (h : command.usesTracker = false) :
    o.state.tracker = s.tracker := by
  have hsame := perform_withTracker s s.tracker h
  change s.perform command = _ at hsame
  rw [hperform] at hsame
  exact congrArg (fun o => o.state.tracker) (Except.ok.inj hsame)

/-- Commands that wire nothing leave complete what is complete. -/
theorem lasting_completeWithin (g : Graph Call) : Lasting fun g' _ => g.CompleteWithin g' where
  kept h _ _ hlists i hi := by
    unfold Graph.isComplete Node.isComplete
    rw [hlists]
    exact h i hi
  addNode work b profile h := h.trans (.addNode _ work b profile)
  finishPart n h := h.trans (.finishPart _ n)
  reset h := h

/-- A command that does not use the tracker leaves complete what is complete. -/
theorem completeWithin_perform {s : GraphSession} {command : Command}
    {o : Outcome GraphSession Answer} (hperform : s.perform command = .ok o)
    (h : command.usesTracker = false) : s.graph.CompleteWithin o.state.graph := by
  cases htarget : command.target with
  | none => exact (lasting_completeWithin s.graph).perform (.refl _) hperform htarget
  | some target =>
    cases command with
    | resolve n address write => cases h
    | link source n =>
      cases (of_needNode (of_needNode hperform).2).2
      exact fun i hi => (Graph.isComplete_link s.graph source n i).trans hi
    | _ => cases htarget

/-- The second session differs from the first in readers that are complete. -/
structure DiffersInReaders (s full : GraphSession) : Prop where
  /-- The graph, with every in-degree, list of successors and batch, is the same, and so is all
  that has been taken out of it. -/
  same : full = s.withTracker full.tracker
  tracker : s.tracker.Prunes s.graph full.tracker

/-- Two lists of answers agree at every command that does not count readers. -/
def AnswersAgree (commands : List Command) (answers answers' : List (Except Fault Answer)) : Prop :=
  ∀ (i : Nat) (command : Command), commands[i]? = some command →
    command.countsReaders = false → answers'[i]? = answers[i]?

/-- A session beside one that drops no readers, with the nodes whose accesses are to be resolved. -/
structure Twins (rest : List NodeId) (s full : GraphSession) : Prop where
  differs : s.DiffersInReaders full
  unlimited : full.tracker.readerLimit = none
  awaits : full.tracker.Awaits rest

namespace Twins

variable {s full : GraphSession} {rest : List NodeId}

/-- A command that does not use the tracker does the same in both sessions. -/
theorem perform_untracked (h : Twins rest s full) {command : Command}
    (huses : command.usesTracker = false) {o : Outcome GraphSession Answer}
    (hperform : s.perform command = .ok o) :
    ∃ o', full.perform command = .ok o' ∧ Twins rest o.state o'.state ∧ o'.result = o.result := by
  refine ⟨⟨o.state.withTracker full.tracker, o.result⟩, ?_,
    ⟨⟨rfl, ?_⟩, h.unlimited, h.awaits⟩, rfl⟩
  · rw [h.differs.same, perform_withTracker s full.tracker huses, hperform]
    rfl
  · rw [tracker_perform hperform huses]
    exact h.differs.tracker.later (completeWithin_perform hperform huses)

/-- An access is resolved alike in both sessions. -/
theorem perform_resolve {n : Nat} {a : Address} {write : Bool} (h : Twins (n :: rest) s full)
    (harmed : s.graph.isArmed n = false) (hblocks : Tracker.inBlocks (n :: rest) = true)
    {o : Outcome GraphSession Answer} (hperform : s.perform (.resolve n a write) = .ok o) :
    ∃ o', full.perform (.resolve n a write) = .ok o' ∧ Twins rest o.state o'.state ∧
      o'.result = o.result := by
  obtain ⟨hn, hok⟩ := of_needNode hperform
  obtain ⟨t', full', g', result, hresolve, hfull, hprunes⟩ :=
    h.differs.tracker.resolve h.unlimited h.awaits harmed a write
  have hlater := h.awaits.resolve h.unlimited hblocks s.graph a write
  have hlimit := Tracker.readerLimit_resolve full.tracker s.graph n a write
  rw [hfull] at hlater hlimit
  rw [hresolve] at hok
  cases hok
  refine ⟨⟨{ s with graph := g', tracker := full' }, result.map .number⟩, ?_,
    ⟨⟨rfl, hprunes⟩, hlimit.trans h.unlimited, hlater⟩, rfl⟩
  rw [h.differs.same, GraphSession.perform_resolve (s := s.withTracker full.tracker) hn]
  dsimp only [withTracker]
  rw [hfull]
  rfl

/-- A command is done alike in both sessions, and answered alike unless it counts readers. -/
theorem perform {command : Command} (h : Twins (command.resolved ++ rest) s full)
    {o : Outcome GraphSession Answer} (hperform : s.perform command = .ok o)
    (hresolves : command.resolvesUnarmed s.graph = true)
    (hblocks : Tracker.inBlocks (command.resolved ++ rest) = true) :
    ∃ o', full.perform command = .ok o' ∧ Twins rest o.state o'.state ∧
      (command.countsReaders = false → o'.result = o.result) := by
  by_cases huses : command.usesTracker = false
  · have hresolved : command.resolved = [] := by
      cases command <;> first | rfl | cases huses
    rw [hresolved] at h
    obtain ⟨o', hfull, htwins, hresult⟩ := h.perform_untracked huses hperform
    exact ⟨o', hfull, htwins, fun _ => hresult⟩
  · cases command with
    | resolve n address write =>
      obtain ⟨o', hfull, htwins, hresult⟩ :=
        h.perform_resolve (by simpa [Command.resolvesUnarmed] using hresolves) hblocks hperform
      exact ⟨o', hfull, htwins, fun _ => hresult⟩
    | reset =>
      cases hperform
      refine ⟨_, rfl, ⟨⟨?_, h.differs.tracker.reset⟩, h.unlimited, .reset _ rest⟩, fun _ => rfl⟩
      rw [h.differs.same]
      rfl
    | readers address | shards =>
      cases hperform
      exact ⟨_, rfl, h, fun hcounts => nomatch hcounts⟩
    | shardOf address =>
      cases hperform
      refine ⟨_, rfl, h, fun _ => ?_⟩
      rw [h.differs.tracker.shardOf address]
      rfl
    | _ => exact absurd rfl huses

/-- Commands are done alike in both sessions. -/
theorem performAll {commands : List Command} {s' : GraphSession}
    {answers : List (Except Fault Answer)} (h : Twins (commands.flatMap Command.resolved) s full)
    (hperform : s.performAll commands = .ok (s', answers))
    (hresolves : s.allResolveUnarmed commands = true)
    (hblocks : Tracker.inBlocks (commands.flatMap Command.resolved) = true) :
    ∃ full' answers', full.performAll commands = .ok (full', answers') ∧
      s'.DiffersInReaders full' ∧ AnswersAgree commands answers answers' := by
  induction commands generalizing s full answers with
  | nil =>
    cases hperform
    exact ⟨full, [], rfl, h.differs, fun _ _ _ _ => rfl⟩
  | cons command rest ih =>
    obtain ⟨o, hfirst, hrest⟩ := of_bind hperform
    obtain ⟨⟨final, results⟩, hlater, heq⟩ := of_bind hrest
    cases heq
    unfold allResolveUnarmed at hresolves
    rw [hfirst, Bool.and_eq_true] at hresolves
    rw [List.flatMap_cons] at h hblocks
    obtain ⟨o', hfull, htwins, hresult⟩ := h.perform hfirst hresolves.1 hblocks
    obtain ⟨full', results', hall, hdiffers, hagree⟩ :=
      ih htwins hlater hresolves.2 (Tracker.inBlocks_of_append hblocks)
    refine ⟨full', o'.result :: results', ?_, hdiffers, fun i c hc hcounts => ?_⟩
    · unfold GraphSession.performAll
      rw [hfull]
      change (o'.state.performAll rest >>= _) = _
      rw [hall]
      rfl
    · cases i with
      | zero =>
        cases hc
        exact congrArg some (hresult hcounts)
      | succ i => exact hagree i c hc hcounts

/-- Two sessions that begin with an empty graph. -/
theorem start {tracker : Tracker} {count : Nat} (htracker : Tracker.create count = .ok tracker)
    (delay : Option Nat) (rest : List NodeId) :
    Twins rest { tracker, delay } { tracker := { tracker with readerLimit := none }, delay } where
  differs := ⟨rfl, .withLimit tracker none _⟩
  unlimited := rfl
  awaits k := by
    change Tracker.Settled rest (tracker.shards.getD k {}).readers
    rw [Tracker.shard_of_create htracker]
    exact .nil rest

end Twins

/-- Commands that resolve accesses of nodes one after the other, each before its batch is armed,
do not show whether complete readers are dropped. They give the same answers, leave the same graph
and the same last writers behind, and the readers that are missing are complete. -/
theorem differsInReaders_of_performAll {tracker : Tracker} {count : Nat} {delay : Option Nat}
    {commands : List Command} {s : GraphSession} {answers : List (Except Fault Answer)}
    (htracker : Tracker.create count = .ok tracker)
    (hperform : ({ tracker, delay } : GraphSession).performAll commands = .ok (s, answers))
    (hresolves : ({ tracker, delay } : GraphSession).allResolveUnarmed commands = true)
    (hblocks : Tracker.inBlocks (commands.flatMap Command.resolved) = true) :
    ∃ full answers',
      ({ tracker := { tracker with readerLimit := none }, delay } : GraphSession).performAll
          commands = .ok (full, answers') ∧
        s.DiffersInReaders full ∧ AnswersAgree commands answers answers' :=
  (Twins.start htracker delay _).performAll hperform hresolves hblocks

/-- Sixty-four nodes read an address, and all but the last one complete. One more node reads it
twice, and the last of the others completes in between. -/
def manyReaders : List Command :=
  .startBatch :: (List.range 64).flatMap (fun n =>
      [.addNode 0 .idle none true, .resolve n 0 false]) ++
    .arm 0 :: (List.range 63).map .finish ++
    [.startBatch, .addNode 1 .idle none true, .resolve 64 0 false, .finish 63, .resolve 64 0 false]

/-- Sixty-three of the readers have been dropped. -/
theorem differsInReaders_manyReaders : ∃ s answers full answers',
    ({ tracker := { shards := #[{}] } } : GraphSession).performAll manyReaders =
        .ok (s, answers) ∧
      ({ tracker := { shards := #[{}], readerLimit := none } } : GraphSession).performAll
          manyReaders = .ok (full, answers') ∧
      s.DiffersInReaders full ∧ AnswersAgree manyReaders answers answers' ∧
      s.tracker.readersOf 0 = 2 ∧ full.tracker.readersOf 0 = 65 := by
  have htracker : Tracker.create 1 = .ok { shards := #[{}] } := rfl
  have hshort : (({ tracker := { shards := #[{}] } } : GraphSession).performAll
      manyReaders).map (fun final => final.1.tracker.readersOf 0) = .ok 2 := by decide +kernel
  have hlong : (({ tracker := { shards := #[{}], readerLimit := none } } :
      GraphSession).performAll manyReaders).map (fun final => final.1.tracker.readersOf 0) =
        .ok 65 := by decide +kernel
  cases hperform : ({ tracker := { shards := #[{}] } } : GraphSession).performAll manyReaders with
  | error unknown =>
    rw [hperform] at hshort
    cases hshort
  | ok final =>
    obtain ⟨full, answers', hfull, hdiffers, hagree⟩ := differsInReaders_of_performAll htracker
      hperform (by decide +kernel) (by decide +kernel)
    rw [hperform] at hshort
    rw [hfull] at hlong
    exact ⟨final.1, final.2, full, answers', rfl, hfull, hdiffers, hagree,
      Except.ok.inj hshort, Except.ok.inj hlong⟩

end GraphSession

end HazardFlow
