import HazardFlow.Proofs.Schedule.Supplying

/-!
# What builders supply

Submitting a batch puts a job into the inbox for each of its nodes that the submission claims. In an
exact system no fault stops it. Builders leave the workers alone.
-/

namespace HazardFlow.System

variable {κ ε : Type} {s s' s'' : System κ ε} {b : Builder}

/-- Jobs came up in the inbox, and no worker changed. -/
def Feeds (s s' : System κ ε) : Prop :=
  (∃ jobs, s.Supplies s' jobs) ∧ s'.workers = s.workers

namespace Feeds

theorem trans (h : s.Feeds s') (h' : s'.Feeds s'') : s.Feeds s'' := by
  obtain ⟨⟨jobs, hjobs⟩, hworkers⟩ := h
  obtain ⟨⟨more, hmore⟩, hworkers'⟩ := h'
  exact ⟨⟨jobs ++ more, hjobs.trans hmore⟩, hworkers'.trans hworkers⟩

/-- Nothing is claimed, and no job comes up. -/
theorem of_same (hworkers : s'.workers = s.workers) (hinbox : s'.inbox = s.inbox)
    (hclaimed : ∀ n : Nat, (s'.graph.node n).claimed = (s.graph.node n).claimed) : s.Feeds s' := by
  refine ⟨⟨[], .of_same ?_ hclaimed⟩, hworkers⟩
  unfold queued
  rw [hworkers, hinbox]

theorem refl (s : System κ ε) : s.Feeds s := of_same rfl rfl fun _ => rfl

end Feeds

/-- Dispatching a node that is due puts its first job into the inbox, unless it waits for something
or was claimed before. -/
theorem feeds_dispatch {n : Nat} {rest : List NodeId} (he : s.Exact (n :: rest))
    (hn : n < s.graph.nodes.size) : s.Feeds (s.dispatch n).state := by
  have hdispatched := dispatched_dispatch s n
  generalize s.dispatch n = outcome at hdispatched ⊢
  cases hdispatched with
  | skip _ => exact .refl s
  | @put job _ hunclaimed hjob =>
    have hhand := Graph.faithful_handJob (κ := κ) s.grain
    have hnode : [job].map Job.node = [n] := by
      rw [List.map_singleton, hhand.item _ n job hjob]
    refine ⟨⟨[job], ?_, ?_⟩, rfl⟩
    · unfold queued
      dsimp only [Outcome.pure]
      rw [Inbox.waiting_put, List.append_assoc]
      exact List.perm_middle
    · rw [hnode]
      exact .hand hhand hn hunclaimed
  | stall _ hunclaimed hjob =>
    obtain ⟨job, hok⟩ := he.graph.exists_handJob he.grain hn hunclaimed
    rw [hok] at hjob
    cases hjob

/-- So does dispatching all nodes that are due. -/
theorem feeds_dispatchAll {l : List NodeId} (hs : s.Sound) (he : s.Exact l)
    (hl : ∀ n : Nat, n ∈ l → n < s.graph.nodes.size ∧ s.graph.isArmed n = true) :
    s.Feeds (s.dispatchAll l).state := by
  induction l generalizing s with
  | nil => exact .refl s
  | cons n rest ih =>
    obtain ⟨hn, harmed⟩ := hl n List.mem_cons_self
    have hfirst := feeds_dispatch he hn
    obtain ⟨s', dispatched, hdispatch, hran⟩ := exists_dispatch hs he hn harmed
    rw [hdispatch] at hfirst
    have hrest : ∀ m : Nat, m ∈ rest → m < s'.graph.nodes.size ∧ s'.graph.isArmed m = true :=
      fun m hm => by
        rw [hran.ran.steady.size, hran.ran.steady.isArmed]
        exact hl m (List.mem_cons_of_mem n hm)
    have hlater := ih hran.ran.sound hran.exact hrest
    unfold dispatchAll
    rw [hdispatch, Outcome.bind_pure, Outcome.state_map]
    exact hfirst.trans hlater

/-- Submitting a batch. -/
theorem feeds_submit (hs : s.Sound) (hb : b.Holds s.graph) (he : s.Exact []) :
    s.Feeds (s.submit b).state := by
  set armed : System κ ε := { s with graph := s.graph.arm b.batch } with harmed
  have harm : s.Submits b.batch armed := .arm hs
  have hexact : armed.Exact b.nodes :=
    ⟨he.graph.arm fun n hn hbatch => (hb.mem_nodes n).mpr ⟨hn, hbatch⟩, he.grain⟩
  have hready (n : Nat) (hn : n ∈ b.nodes) := hb.isArmed_arm hn
  have hdispatched := feeds_dispatchAll harm.sound hexact hready
  obtain ⟨s', roots, hall, _⟩ := exists_dispatchAll harm.sound hexact hready
  rw [hall] at hdispatched
  have hfinished : s'.Feeds { s' with graph := s'.graph.finishOne b.batch } :=
    .of_same rfl rfl fun _ => rfl
  have hfirst : s.Feeds armed := .of_same rfl rfl fun _ => rfl
  unfold submit
  rw [← harmed, hall, Outcome.bind_pure]
  exact (hfirst.trans hdispatched).trans hfinished

/-- Executing a builder. -/
theorem feeds_execute (hs : s.Sound) (hb : b.Holds s.graph) (he : s.Exact []) :
    s.Feeds (s.execute b).state.1 := by
  have hnew : s.Submits b.batch s.newBuilder.1 := .newBuilder hs
  have hfirst : s.Feeds s.newBuilder.1 := .of_same rfl rfl fun _ => rfl
  have hsubmit := feeds_submit hnew.sound hb.startBatch (he.newBuilder hs)
  obtain ⟨s', roots, heq, _⟩ := exists_submit hnew.sound hb.startBatch (he.newBuilder hs)
  have hpair : s.newBuilder = (s.newBuilder.1, s.newBuilder.2) := rfl
  rw [heq] at hsubmit
  unfold execute
  rw [hpair]
  dsimp only
  rw [heq, Outcome.bind_pure]
  exact (hfirst.trans hsubmit).trans (.of_same rfl rfl fun _ => rfl)

/-- Dropping a builder. -/
theorem feeds_dropBuilder (hs : s.Sound) (hb : b.Holds s.graph) (he : s.Exact []) :
    s.Feeds (s.dropBuilder b).state := by
  unfold dropBuilder
  split
  · exact .refl s
  · have hreport : s.Ran (s.reportDrop b) := .report hs ..
    have hreported := hb.steady hreport.steady
    have hstart : s.Feeds (s.reportDrop b) ∧ (s.reportDrop b).RanExactly [] (s.reportDrop b) :=
      ⟨.of_same rfl rfl fun _ => rfl, .refl hreport.sound, ⟨he.graph, he.grain⟩, fun _ _ ht => ht⟩
    obtain ⟨s', hdiscard, hfeeds, hran⟩ :=
      exists_discardAll (P := fun t => s.Feeds t ∧ (s.reportDrop b).RanExactly [] t)
        (fun n hn => hreported.isArmed hn) (fun t n ht => ⟨ht.1.trans (.of_same rfl rfl fun m =>
          Graph.field_updateNode Node.claimed m), ht.2.discard n⟩) hstart
    have hheld := (hreported.steady hran.ran.steady).startBatch
    have hnew : s'.Submits b.batch s'.newBuilder.1 := .newBuilder hran.ran.sound
    have hfirst : s'.Feeds s'.newBuilder.1 := .of_same rfl rfl fun _ => rfl
    have hsubmit := feeds_submit hnew.sound hheld (hran.exact.newBuilder hran.ran.sound)
    obtain ⟨s'', roots, heq, _⟩ :=
      exists_submit hnew.sound hheld (hran.exact.newBuilder hran.ran.sound)
    rw [heq] at hsubmit
    dsimp only
    rw [← reportDrop, hdiscard, Outcome.bind_pure, heq, Outcome.bind_pure]
    exact ((hfeeds.trans hfirst).trans hsubmit).trans (.of_same rfl rfl fun _ => rfl)

/-- Adding a node. -/
theorem feeds_add {work : Work κ} {access : Access} {profile : Option Profile}
    {sources : List NodeId}
    (h : s.Added b work access profile sources (s.add b work access profile).state.1) :
    s.Feeds (s.add b work access profile).state.1 := by
  refine .of_same rfl rfl fun n => ?_
  rw [h.resolved.wired.claimed]
  exact Graph.claimed_addNode (s.graph.register b.batch) work b.batch profile n

end HazardFlow.System
