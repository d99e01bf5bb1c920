import HazardFlow.Proofs.Schedule.Dispatching
import HazardFlow.Schedule.Shutdown

/-!
# Faults that no setting is to blame for

The settings of a system show in its grain alone once it runs: a cursor can be made over every
ordered range when the grain is not zero. All other faults of a running system come from the use of
its graph. A node is wired that was submitted before, a range is inverted, or something is done a
second time that can be done only once.
-/

namespace HazardFlow

variable {κ ε β : Type}

/-- A fault in the use of a graph. -/
def Fault.OfUse (fault : Fault) : Prop :=
  fault ∈ [.cursorInverted, .successorSubmitted, .sealedTwice, .discardSubmitted, .workTaken]

namespace Outcome

variable {σ τ α γ : Type} {o : Outcome σ α}

/-- An operation stops, if it does, with a fault in the use of a graph. -/
def Spares (o : Outcome σ α) : Prop := ∀ fault, o.result = .error fault → fault.OfUse

namespace Spares

theorem pure (s : σ) (a : α) : (Outcome.pure s a).Spares := nofun

theorem fail {fault : Fault} (s : σ) (h : fault.OfUse) :
    (Outcome.fail s fault : Outcome σ α).Spares := by
  intro fault' heq
  cases heq
  exact h

theorem bind {next : σ → α → Outcome σ γ} (h : o.Spares)
    (hnext : ∀ a, o.result = .ok a → (next o.state a).Spares) : (o.bind next).Spares := by
  unfold Outcome.bind
  split
  · next a ha => exact hnext a ha
  · next fault hfault =>
    intro fault' heq
    cases heq
    exact h fault hfault

theorem map (h : o.Spares) (f : α → γ) : (o.map f).Spares := by
  intro fault heq
  cases hresult : o.result with
  | ok a =>
    unfold Outcome.map at heq
    rw [hresult] at heq
    cases heq
  | error cause =>
    unfold Outcome.map at heq
    rw [hresult] at heq
    cases heq
    exact h fault hresult

theorem lift (h : o.Spares) (embed : σ → τ) : (o.lift embed).Spares := h

end Spares

end Outcome

/-- So does whatever hands ready nodes on. -/
def Handed.Spares (handed : Handed κ β) : Prop := ∀ fault, handed.fault = some fault → fault.OfUse

theorem Handed.Spares.of_none {handed : Handed κ β} (h : handed.fault = none) :
    handed.Spares := by
  intro fault hfault
  rw [h] at hfault
  cases hfault

namespace Graph

theorem spares_link (g : Graph κ) (source target : NodeId) : (g.link source target).Spares := by
  unfold link
  dsimp only
  split
  · exact .pure _ _
  split
  · exact .pure _ _
  split
  · exact .fail _ (by simp [Fault.OfUse])
  · exact .pure _ _

theorem spares_linkAll (g : Graph κ) (sources : List NodeId) (target : NodeId) :
    (g.linkAll sources target).Spares := by
  induction sources generalizing g with
  | nil => exact .pure _ _
  | cons source rest ih =>
    unfold linkAll
    exact (g.spares_link source target).bind fun _ _ => (ih _).map _

theorem spares_discard (g : Graph κ) (n : NodeId) : (g.discard n).Spares := by
  unfold discard
  split
  · exact .fail _ (by simp [Fault.OfUse])
  · exact .pure _ _

end Graph

namespace Tracker

theorem spares_resolve (t : Tracker) (g : Graph κ) (n : NodeId) (a : Address) (write : Bool) :
    (t.resolve g n a write).Spares := by
  unfold resolve
  refine ((g.spares_linkAll _ n).lift _).bind fun wired _ => ?_
  dsimp only
  split
  · split
    · exact .pure _ _
    · next fault heq =>
      have hreaders := Graph.spares_linkAll (((g.linkAll (t.shardAt a).lastWriter.toList n).lift
        (t, ·)).state.2) (t.shardAt a).readers n
      rw [heq] at hreaders
      exact .fail _ (hreaders fault rfl)
  · exact .pure _ _

theorem spares_resolveAll (t : Tracker) (g : Graph κ) (n : NodeId) (write : Bool)
    (addresses : List Address) : (t.resolveAll g n write addresses).Spares := by
  induction addresses generalizing t g with
  | nil => exact .pure _ _
  | cons a rest ih =>
    unfold resolveAll
    exact (t.spares_resolve g n a write).bind fun _ _ => ih _ _

theorem spares_wire (t : Tracker) (g : Graph κ) (n : NodeId) (access : Access) :
    (t.wire g n access).Spares := by
  unfold wire
  refine ((t.spares_resolveAll g n false _).bind fun _ _ => ?_).bind fun _ _ => ?_
  · exact spares_resolveAll _ _ _ _ _
  · exact ((Graph.spares_linkAll _ _ _).lift _).map _

end Tracker

namespace Graph

/-- With a grain that is not zero, taking the work of a node fails only on inverted ranges, and when
it was taken before. -/
theorem spares_takeJob {grain : Nat} (hgrain : 0 < grain) (g : Graph κ) (n : NodeId) :
    (g.takeJob n grain).Spares := by
  unfold takeJob
  split
  · exact .fail _ (by simp [Fault.OfUse])
  dsimp only
  split
  · exact .pure _ _
  · exact .pure _ _
  · exact .pure _ _
  · next span call =>
    split
    · exact .pure _ _
    · next fault hfault =>
      unfold Cursor.ofSpan at hfault
      rw [dif_pos hgrain] at hfault
      split at hfault
      · cases hfault
      · cases hfault
        exact .fail _ (by simp [Fault.OfUse])

theorem spares_releaseAll {hand : Hand κ β} (hhand : ∀ g n, (hand g n).Spares) (g : Graph κ)
    (nodes : List NodeId) : (releaseAll hand g nodes).Spares := by
  induction nodes generalizing g with
  | nil => exact .of_none rfl
  | cons n rest ih =>
    unfold releaseAll
    split
    · exact ih _
    split
    · next fault heq =>
      intro fault' hfault
      cases hfault
      exact hhand _ n fault (by rw [heq])
    · exact ih _

theorem spares_finishPart {hand : Hand κ β} (hhand : ∀ g n, (hand g n).Spares) (g : Graph κ)
    (n : NodeId) : (g.finishPart hand n).Spares := by
  unfold finishPart
  dsimp only
  split
  · split
    · next fault hclose =>
      intro fault' hfault
      cases hfault
      unfold SealableList.close at hclose
      split at hclose
      · cases hclose
      · cases hclose
        simp [Fault.OfUse]
    · split
      · exact spares_releaseAll hhand _ _
      · exact spares_releaseAll hhand _ _
  · exact .of_none rfl

theorem spares_handJob {grain : Nat} (hgrain : 0 < grain) (g : Graph κ) (n : NodeId) :
    (handJob grain g n).Spares := spares_takeJob hgrain g n

end Graph

namespace Watcher

variable {hand : Hand κ β}

theorem spares_scan (hhand : ∀ g n, (hand g n).Spares) (query : ε → Bool × ε) (g : Graph κ)
    (kept rest : List (Watched ε)) : (scan query hand g kept rest).handed.Spares := by
  fun_induction scan query hand g kept rest with
  | case1 => exact .of_none rfl
  | case2 g kept entry rest event hquery ih => exact ih
  | case3 g kept entry rest event hquery finished fault hfault =>
    exact Graph.spares_finishPart hhand g entry.node
  | case4 g kept entry rest event hquery finished hfault later ih => exact ih

theorem spares_poll (hhand : ∀ g n, (hand g n).Spares) (query : ε → Bool × ε) (g : Graph κ)
    (w : Watcher ε) : (w.poll query hand g).handed.Spares := by
  unfold poll
  dsimp only
  split
  · exact .of_none rfl
  split
  · exact .of_none rfl
  split
  · exact spares_scan hhand query g [] w.pending
  · exact spares_scan hhand query g [] w.pending

theorem spares_finishAll (hhand : ∀ g n, (hand g n).Spares) (g : Graph κ)
    (entries : List (Watched ε)) : (finishAll hand g entries).Spares := by
  induction entries generalizing g with
  | nil => exact .of_none rfl
  | cons entry rest ih =>
    unfold finishAll
    dsimp only
    split
    · exact Graph.spares_finishPart hhand g entry.node
    · exact ih _

theorem spares_drain (hhand : ∀ g n, (hand g n).Spares) (g : Graph κ) (w : Watcher ε) :
    (w.drain hand g).handed.Spares := by
  unfold drain
  dsimp only
  split
  · exact spares_finishAll hhand g w.pending
  · exact spares_finishAll hhand g w.pending

end Watcher

namespace System

variable {s : System κ ε}

theorem spares_add (s : System κ ε) (b : Builder) (work : Work κ) (access : Access)
    (profile : Option Profile) : (s.add b work access profile).Spares := by
  unfold add
  exact ((Tracker.spares_wire _ _ _ _).lift _).map _

theorem spares_dispatch (hgrain : 0 < s.grain) (n : NodeId) : (s.dispatch n).Spares := by
  have hdispatched := dispatched_dispatch s n
  generalize s.dispatch n = o at hdispatched
  cases hdispatched with
  | skip | put => exact .pure _ _
  | stall _ _ hjob => exact .fail _ (Graph.spares_handJob hgrain _ _ _ hjob)

theorem grain_dispatch (s : System κ ε) (n : NodeId) : (s.dispatch n).state.grain = s.grain := by
  have hdispatched := dispatched_dispatch s n
  generalize s.dispatch n = o at hdispatched
  cases hdispatched <;> rfl

theorem spares_dispatchAll (hgrain : 0 < s.grain) (nodes : List NodeId) :
    (s.dispatchAll nodes).Spares := by
  induction nodes generalizing s with
  | nil => exact .pure _ _
  | cons n rest ih =>
    unfold dispatchAll
    refine (spares_dispatch hgrain n).bind fun _ _ => (ih ?_).map _
    rwa [grain_dispatch]

theorem spares_submit (hgrain : 0 < s.grain) (b : Builder) : (s.submit b).Spares := by
  unfold submit
  exact (spares_dispatchAll (s := { s with graph := s.graph.arm b.batch }) hgrain b.nodes).bind
    fun _ _ => .pure _ _

theorem spares_execute (hgrain : 0 < s.grain) (b : Builder) : (s.execute b).Spares := by
  unfold execute newBuilder
  dsimp only
  refine Outcome.Spares.lift ((spares_submit ?_ b).bind fun _ _ => ?_) _
  · exact hgrain
  · exact .pure _ _

theorem spares_discardAll (s : System κ ε) (nodes : List NodeId) :
    (s.discardAll nodes).Spares := by
  induction nodes generalizing s with
  | nil => exact .pure _ _
  | cons n rest ih =>
    unfold discardAll
    exact ((Graph.spares_discard _ n).lift _).bind fun _ _ => ih _

theorem grain_discardAll (s : System κ ε) (nodes : List NodeId) :
    (s.discardAll nodes).state.grain = s.grain := by
  induction nodes generalizing s with
  | nil => rfl
  | cons n rest ih =>
    unfold discardAll Outcome.bind
    split
    · exact ih _
    · rfl

theorem spares_dropBuilder (hgrain : 0 < s.grain) (b : Builder) : (s.dropBuilder b).Spares := by
  unfold dropBuilder
  split
  · exact .pure _ _
  dsimp only
  refine (spares_discardAll _ b.nodes).bind fun _ _ => ?_
  refine (spares_submit (s := System.newBuilder _ |>.1) ?_ b).bind fun _ _ => .pure _ _
  change 0 < ((System.discardAll _ b.nodes).state).grain
  rw [grain_discardAll]
  exact hgrain

theorem spares_retireInbox (hgrain : 0 < s.grain) (bound : Nat) : (s.retireInbox bound).Spares := by
  induction bound generalizing s with
  | zero => exact .pure _ _
  | succ bound ih =>
    unfold retireInbox
    split
    · exact .pure _ _
    dsimp only
    split
    · next fault hfault =>
      exact .fail _ (Graph.spares_finishPart (Graph.spares_handJob hgrain) _ _ fault hfault)
    · refine (ih ?_).map _
      exact hgrain

/-- Letting go of all workers changes nothing else, but for what is reported. -/
theorem exists_dismiss_eq (s : System κ ε) : ∃ log, s.dismiss = { s with workers := #[], log } := by
  unfold dismiss
  dsimp only
  generalize s.workers.toList.filter (·.dead) = dead
  induction dead generalizing s with
  | nil => exact ⟨s.log, rfl⟩
  | cons worker dead ih => exact ih (s.report .error "scheduler worker terminated abnormally" [])

theorem spares_close (hgrain : 0 < s.grain) : s.close.Spares := by
  obtain ⟨log, heq⟩ := s.exists_dismiss_eq
  unfold close
  rw [heq]
  dsimp only
  refine (spares_retireInbox ?_ _).bind fun _ _ => .pure _ _
  exact hgrain

/-- Something that a system does, or that is asked of it, stops with a fault. -/
inductive Stops (s : System κ ε) (fault : Fault) : Prop
  | add (b : Builder) (work : Work κ) (access : Access) (profile : Option Profile)
    (h : (s.add b work access profile).result = .error fault)
  | resolve (n : NodeId) (a : Address) (write : Bool)
    (h : (s.tracker.resolve s.graph n a write).result = .error fault)
  | link (source target : NodeId) (h : (s.graph.link source target).result = .error fault)
  | execute (b : Builder) (h : (s.execute b).result = .error fault)
  | dispatch (n : NodeId) (h : (s.dispatch n).result = .error fault)
  | drop (b : Builder) (h : (s.dropBuilder b).result = .error fault)
  | discard (n : NodeId) (h : (s.graph.discard n).result = .error fault)
  /-- A ready node is turned into a job. -/
  | hand (n : NodeId) (h : (s.graph.takeJob n s.grain).result = .error fault)
  | finish (n : NodeId) (h : (s.graph.finishPart (Graph.handJob s.grain) n).fault = some fault)
  | poll (query : ε → Bool × ε) (w : Watcher ε)
    (h : (w.poll query (Graph.handJob s.grain) s.graph).handed.fault = some fault)
  | drain (w : Watcher ε)
    (h : (w.drain (Graph.handJob s.grain) s.graph).handed.fault = some fault)
  | retire (bound : Nat) (h : (s.retireInbox bound).result = .error fault)
  | close (h : s.close.result = .error fault)

/-- The grain is never to blame when it is not zero. -/
theorem Stops.ofUse {fault : Fault} (hgrain : 0 < s.grain) (h : s.Stops fault) : fault.OfUse := by
  have hhand := Graph.spares_handJob (κ := κ) hgrain
  cases h with
  | add b work access profile h => exact s.spares_add b work access profile fault h
  | resolve n a write h => exact s.tracker.spares_resolve s.graph n a write fault h
  | link source target h => exact s.graph.spares_link source target fault h
  | execute b h => exact spares_execute hgrain b fault h
  | dispatch n h => exact spares_dispatch hgrain n fault h
  | drop b h => exact spares_dropBuilder hgrain b fault h
  | discard n h => exact s.graph.spares_discard n fault h
  | hand n h => exact hhand s.graph n fault h
  | finish n h => exact Graph.spares_finishPart hhand s.graph n fault h
  | poll query w h => exact Watcher.spares_poll hhand query s.graph w fault h
  | drain w h => exact Watcher.spares_drain hhand s.graph w fault h
  | retire bound h => exact spares_retireInbox hgrain bound fault h
  | close h => exact spares_close hgrain fault h

end System

end HazardFlow
