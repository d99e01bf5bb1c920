import HazardFlow.Proofs.Graph.Stopping
import HazardFlow.Proofs.Yard.Pieces

/-!
# Nodes with inverted ranges

A range may end before it starts, and its node is added and wired like any other. That shows when
the node is handed over: no job is made of it, so that a part of it is left for ever.
-/

namespace HazardFlow.Yard

variable {κ ε : Type} {s s' : Yard κ ε} {move : Move κ}

/-- A node was added with a range that ends before it starts, and that was not discarded. -/
def IsInverted (s : Yard κ ε) (n : NodeId) : Prop :=
  ∃ work, (n, work) ∈ s.additions ∧ n ∉ s.discards ∧ ¬ work.Ordered

/-- Which ranges are inverted depends on what was added and discarded. -/
theorem isInverted_congr (hadditions : s'.additions = s.additions)
    (hdiscards : s'.discards = s.discards) (n : NodeId) : s'.IsInverted n ↔ s.IsInverted n := by
  unfold IsInverted
  rw [hadditions, hdiscards]

theorem additions_finishAt (s : Yard κ ε) (stage : Stage) (position : Nat) (job : Job κ) :
    (s.finishAt stage position job).additions = s.additions := by
  unfold additions
  rw [filterMap_finishAt, filterMap_noteDrop s stage job rfl]
  simp [Note.addition]

theorem discards_finishAt (s : Yard κ ε) (stage : Stage) (position : Nat) (job : Job κ) :
    (s.finishAt stage position job).discards = s.discards := by
  unfold discards
  rw [filterMap_finishAt, filterMap_noteDrop s stage job rfl]
  simp [Note.discard]

/-- A node that has been claimed keeps the range that it had. -/
theorem Does.isInverted_iff (h : Does s move s') (hs : s.Orderly) {n : NodeId}
    (hn : (s.graph.node n).claimed = true) : s'.IsInverted n ↔ s.IsInverted n := by
  cases h with
  | finish _ => exact isInverted_congr (additions_finishAt ..) (discards_finishAt ..) n
  | @add i b hi work profile =>
    have hne : n ≠ s.graph.nodes.size := Nat.ne_of_lt (Graph.lt_size_of_claimed hn)
    have hadditions : (s.add i b work profile).additions =
        (s.graph.nodes.size, work) :: s.additions := rfl
    have hdiscards : (s.add i b work profile).discards = s.discards := rfl
    unfold IsInverted
    rw [hadditions, hdiscards]
    simp [hne]
  | @discard i b m left hi harmed =>
    have hne : n ≠ m := by
      rintro rfl
      exact Bool.false_ne_true ((hs.coherent.not_claimed_of_unarmed harmed).symm.trans hn)
    unfold IsInverted additions discards
    simp [Note.addition, Note.discard, hne]
  | _ => exact isInverted_congr rfl rfl n

/-- A node that nobody has claimed has the work that it was added with, or an idle one when that was
discarded. -/
structure Worked (s : Yard κ ε) : Prop where
  lt_of_added : ∀ (n : Nat) (work : Work κ), (n, work) ∈ s.additions → n < s.graph.nodes.size
  lt_of_discarded : ∀ n : Nat, n ∈ s.discards → n < s.graph.nodes.size
  isInverted_iff : ∀ n : Nat, (s.graph.node n).claimed = false →
    (s.IsInverted n ↔ s.graph.IsInverted n)

namespace Worked

/-- Works stay as they are until their nodes are claimed. -/
theorem of_kept (h : s.Worked) (hsize : s.graph.nodes.size ≤ s'.graph.nodes.size)
    (hadditions : s'.additions = s.additions) (hdiscards : s'.discards = s.discards)
    (hkept : ∀ n : Nat, (s'.graph.node n).claimed = false →
      (s.graph.node n).claimed = false ∧ (s'.graph.node n).work = (s.graph.node n).work) :
    s'.Worked where
  lt_of_added n work hn := by
    rw [hadditions] at hn
    exact Nat.lt_of_lt_of_le (h.lt_of_added n work hn) hsize
  lt_of_discarded n hn := by
    rw [hdiscards] at hn
    exact Nat.lt_of_lt_of_le (h.lt_of_discarded n hn) hsize
  isInverted_iff n hn := by
    obtain ⟨hfree, hwork⟩ := hkept n hn
    rw [isInverted_congr hadditions hdiscards, Graph.isInverted_congr hwork]
    exact h.isInverted_iff n hfree

/-- A node that is added has the work that is noted down. -/
theorem add (h : s.Worked) (i : Nat) (b : Builder) (work : Work κ) (profile : Option Profile) :
    (s.add i b work profile).Worked := by
  have hsize : (s.add i b work profile).graph.nodes.size = s.graph.nodes.size + 1 :=
    Graph.size_nodes_addNode (s.graph.register b.batch) work b.batch profile
  have hadded (n : Nat) (other : Work κ) (hmem : (n, other) ∈ (s.add i b work profile).additions) :
      n = s.graph.nodes.size ∧ other = work ∨ (n, other) ∈ s.additions :=
    (List.mem_cons.mp hmem).imp_left Prod.mk.inj
  refine ⟨fun n other hmem => ?_, fun n hn => ?_, fun n hfree => ?_⟩
  · rw [hsize]
    rcases hadded n other hmem with ⟨rfl, _⟩ | hold
    · exact Nat.lt_succ_self _
    · exact Nat.lt_succ_of_lt (h.lt_of_added n other hold)
  · rw [hsize]
    exact Nat.lt_succ_of_lt (h.lt_of_discarded n hn)
  · by_cases hn : n = s.graph.nodes.size
    · subst hn
      have hwork : ((s.add i b work profile).graph.node s.graph.nodes.size).work = some work :=
        congrArg Node.work
          (Graph.node_addNode_self (s.graph.register b.batch) work b.batch profile)
      unfold Graph.IsInverted
      rw [hwork]
      constructor
      · rintro ⟨other, hmem, _, hinverted⟩
        rcases hadded _ other hmem with ⟨_, rfl⟩ | hold
        · exact ⟨other, rfl, hinverted⟩
        · exact absurd (h.lt_of_added _ other hold) (Nat.lt_irrefl _)
      · rintro ⟨other, hother, hinverted⟩
        obtain rfl := Option.some.inj hother
        exact ⟨work, List.mem_cons_self,
          fun hn => absurd (h.lt_of_discarded _ hn) (Nat.lt_irrefl _), hinverted⟩
    · have hnode : (s.add i b work profile).graph.node n = s.graph.node n :=
        Graph.node_addNode_of_ne (g := s.graph.register b.batch) work b.batch profile hn
      rw [hnode] at hfree
      rw [Graph.isInverted_congr (congrArg Node.work hnode), ← h.isInverted_iff n hfree]
      constructor
      · rintro ⟨other, hmem, hrest⟩
        exact ⟨other, (hadded n other hmem).resolve_left fun hnew => hn hnew.1, hrest⟩
      · rintro ⟨other, hmem, hrest⟩
        exact ⟨other, List.mem_cons_of_mem _ hmem, hrest⟩

/-- A work that is discarded is not a range any more. -/
theorem discard (h : s.Worked) {n : NodeId} (hn : n < s.graph.nodes.size)
    (hgraph : s'.graph = s.graph.updateNode n ({ · with work := some .idle }))
    (hadditions : s'.additions = s.additions) (hdiscards : s'.discards = n :: s.discards) :
    s'.Worked := by
  have hsize : s'.graph.nodes.size = s.graph.nodes.size := by
    rw [hgraph, Graph.size_nodes_updateNode]
  refine ⟨fun m work hm => ?_, fun m hm => ?_, fun m hfree => ?_⟩
  · rw [hadditions] at hm
    rw [hsize]
    exact h.lt_of_added m work hm
  · rw [hdiscards] at hm
    rw [hsize]
    rcases List.mem_cons.mp hm with rfl | hold
    · exact hn
    · exact h.lt_of_discarded m hold
  · by_cases hnm : n = m
    · subst hnm
      have hwork : (s'.graph.node n).work = some .idle := by
        rw [hgraph, Graph.node_updateNode_self _ hn]
      refine iff_of_false ?_ ?_
      · rintro ⟨_, _, hkept, _⟩
        rw [hdiscards] at hkept
        exact hkept List.mem_cons_self
      · rintro ⟨work, hsome, hinverted⟩
        rw [hwork] at hsome
        obtain rfl := Option.some.inj hsome
        exact hinverted trivial
    · have hnode : s'.graph.node m = s.graph.node m := by
        rw [hgraph, Graph.node_updateNode_of_ne _ hnm]
      rw [hnode] at hfree
      rw [Graph.isInverted_congr (congrArg Node.work hnode), ← h.isInverted_iff m hfree]
      unfold IsInverted
      rw [hadditions, hdiscards]
      simp [Ne.symm hnm]

/-- Claiming a node and taking its work leaves the works of the others alone. -/
theorem dispatch (h : s.Worked) {n : NodeId} (hn : n < s.graph.nodes.size)
    (hgraph : s'.graph = (Graph.handJob s.system.grain (s.graph.claim n).1 n).state)
    (hadditions : s'.additions = s.additions) (hdiscards : s'.discards = s.discards) :
    s'.Worked := by
  have hhand := Graph.faithful_handJob (κ := κ) s.system.grain
  have hsize : s'.graph.nodes.size = s.graph.nodes.size := by
    rw [hgraph, (Graph.hand_of_ne hhand _ n).1]
    exact Graph.size_nodes_updateNode ..
  apply h.of_kept (Nat.le_of_eq hsize.symm) hadditions hdiscards
  intro m hfree
  have hne : n ≠ m := by
    rintro rfl
    have hclaimed := (Graph.claimed_claim hn n).mpr (Or.inr rfl)
    rw [hgraph, hhand.claimed, hclaimed] at hfree
    cases hfree
  have hnode : s'.graph.node m = s.graph.node m := by
    rw [hgraph, (Graph.hand_of_ne hhand _ n).2 m hne]
    exact Graph.node_updateNode_of_ne _ hne
  rw [hnode] at hfree ⊢
  exact ⟨hfree, rfl⟩

/-- Every move keeps works as they should be. -/
theorem does (h : s.Worked) (hs : s.Orderly) (hdoes : Does s move s') : s'.Worked := by
  have hsize := (hs.grows hdoes).size
  have hdue {k : Nat} {b : BatchId} {m : NodeId} {due : List NodeId}
      (hk : s.submissions[k]? = some ⟨b, m :: due, .underWay⟩) : m < s.graph.nodes.size :=
    ((hs.scheduled.fits k _ hk).due m List.mem_cons_self).1
  cases hdoes with
  | keep => exact h
  | newBuilder | reset | execute _ | drop _ _ | abandon _ | skip _ _ | close _ | begin _ | watch _ =>
    exact h.of_kept hsize rfl rfl fun _ hfree => ⟨hfree, rfl⟩
  | add hi work profile => exact h.add _ _ work profile
  | wire _ _ hwired _ =>
    refine h.of_kept hsize rfl rfl fun n hfree => ⟨?_, hwired.work n⟩
    rwa [← hwired.claimed]
  | @discard i b n left hi _ =>
    have hmem := hs.staffed.left i b (n :: left) hi List.mem_cons_self
    have hn := ((hs.staffed.holds i b (Crew.builderAt_of_leaving hi)).mem_nodes n).mp hmem
    exact h.discard hn.1 rfl rfl rfl
  | put hk _ _ _ => exact h.dispatch (hdue hk) rfl rfl rfl
  | stall hk _ _ _ => exact h.dispatch (hdue hk) rfl rfl rfl
  | split _ hsplit =>
    obtain ⟨rfl, _, _⟩ := Graph.splitJob_spec hsplit
    refine h.of_kept hsize rfl rfl fun n hfree => ⟨?_, Graph.field_updateNode Node.work n⟩
    exact (Graph.field_updateNode Node.claimed n).symm.trans hfree
  | @finish stage position job hjob =>
    have hpos : 0 < s.load job.node := load_pos_of_jobsAt hjob
    have hfinished := hs.coherent.finished (Graph.faithful_handJob s.system.grain) hpos
    apply h.of_kept hsize (additions_finishAt ..) (discards_finishAt ..)
    intro n hfree
    rw [(finishAt_eq s stage position job).1] at hfree ⊢
    have hunclaimed : ¬ ((s.graph.finishPart (Graph.handJob s.system.grain) job.node).graph.node
        n).claimed = true := by rw [hfree]; exact Bool.false_ne_true
    rw [hfinished.claimed.1, not_or, Bool.not_eq_true] at hunclaimed
    exact ⟨hunclaimed.1, hfinished.work hunclaimed.2⟩

/-- There are no works at the start. -/
theorem start (tracker : Tracker) (grain : Nat) : (start tracker grain : Yard κ ε).Worked where
  lt_of_added _ _ h := absurd h List.not_mem_nil
  lt_of_discarded _ h := absurd h List.not_mem_nil
  isInverted_iff n _ := by
    have hnode : (Yard.start tracker grain : Yard κ ε).graph.node n = default :=
      Graph.node_of_size_le (Nat.zero_le n)
    refine iff_of_false (fun ⟨_, hmem, _⟩ => absurd hmem List.not_mem_nil) ?_
    rintro ⟨work, hwork, _⟩
    rw [hnode] at hwork
    cases hwork

end Worked

/-- When a node is claimed, a job is made of it, unless its range is inverted. -/
theorem Worked.exists_handJob_iff (h : s.Worked) (ha : s.Attentive) (hgrain : 0 < s.system.grain)
    {n : Nat} (hn : n < s.graph.nodes.size) (hfree : (s.graph.node n).claimed = false) :
    (∃ job, (Graph.handJob s.system.grain (s.graph.claim n).1 n).result = .ok job) ↔
      ¬ s.IsInverted n := by
  obtain ⟨work, hwork, _⟩ := ha.attended.stocked n hn hfree
  rw [Graph.exists_handJob_claim_iff hgrain (by rw [hwork]; rfl), h.isInverted_iff n hfree]

/-- When a part finishes, jobs are made of the nodes that it passes on and whose ranges are not
inverted, and a fault comes up if there are others. -/
theorem Worked.finishPart_inverted (h : s.Worked) (hs : s.Orderly) (ha : s.Attentive)
    (hgrain : 0 < s.system.grain) {n : NodeId} (hn : 0 < s.load n) :
    (∀ m ∈ s.graph.passedOnBy (Graph.handJob s.system.grain) n,
      m ∈ (s.graph.finishPart (Graph.handJob s.system.grain) n).items.map Job.node ↔
        ¬ s.IsInverted m) ∧
    ((s.graph.finishPart (Graph.handJob s.system.grain) n).fault = none ↔
      ∀ m ∈ s.graph.passedOnBy (Graph.handJob s.system.grain) n, ¬ s.IsInverted m) := by
  obtain ⟨hitems, hfault⟩ :=
    hs.coherent.finishPart_inverted hgrain ha.attended.stocked hn
  have hfinished := hs.coherent.finished (Graph.faithful_handJob s.system.grain) hn
  have hsame (m : NodeId) (hm : m ∈ s.graph.passedOnBy (Graph.handJob s.system.grain) n) :
      s.IsInverted m ↔ s.graph.IsInverted m :=
    h.isInverted_iff m (hfinished.claimed.2.2 m hm)
  refine ⟨fun m hm => ?_, ?_⟩
  · rw [hsame m hm]
    exact hitems m hm
  · rw [hfault]
    exact forall₂_congr fun m hm => not_congr (hsame m hm).symm

/-- First jobs are made of the nodes that were handed over and whose ranges are not inverted. Any
other node counts a part that has no job. -/
structure Made (s : Yard κ ε) : Prop where
  mem_firstJobs : ∀ n : Nat, n ∈ s.firstJobs.map Job.node ↔ n ∈ s.handedOver ∧ ¬ s.IsInverted n
  parts : ∀ n : Nat, (s.graph.node n).parts + (s.firstJobs.map Job.node).count n = s.load n + 1
  load : ∀ n : Nat, n ∉ s.firstJobs.map Job.node → s.load n = 0

namespace Made

/-- Nodes are handed over, jobs are made of those whose ranges are not inverted, and parts go with
jobs. -/
theorem of_handed (h : s.Made) (nodes : List NodeId) (jobs : List (Job κ))
    (hhanded : s'.handedOver = nodes ++ s.handedOver) (hjobs : s'.firstJobs = jobs ++ s.firstJobs)
    (hinverted : ∀ n ∈ s'.handedOver, s'.IsInverted n ↔ s.IsInverted n)
    (hsubset : jobs.map Job.node ⊆ nodes)
    (hmade : ∀ n ∈ nodes, n ∈ jobs.map Job.node ↔ ¬ s.IsInverted n)
    (hparts : ∀ n : Nat, (s'.graph.node n).parts + s.load n + (jobs.map Job.node).count n =
      (s.graph.node n).parts + s'.load n)
    (hload : ∀ n : Nat, s.load n = 0 → n ∉ jobs.map Job.node → s'.load n = 0) : s'.Made := by
  have hfirst (n : NodeId) : n ∈ s'.firstJobs.map Job.node ↔
      n ∈ jobs.map Job.node ∨ n ∈ s.firstJobs.map Job.node := by
    rw [hjobs, List.map_append, List.mem_append]
  refine ⟨fun n => ?_, fun n => ?_, fun n hn => ?_⟩
  · have hmem : n ∈ s'.handedOver ↔ n ∈ nodes ∨ n ∈ s.handedOver := by
      rw [hhanded, List.mem_append]
    rw [hfirst, h.mem_firstJobs]
    constructor
    · rintro (hnew | ⟨hold, hordered⟩)
      · have hhere := hmem.mpr (Or.inl (hsubset hnew))
        rw [hinverted n hhere]
        exact ⟨hhere, (hmade n (hsubset hnew)).mp hnew⟩
      · have hhere := hmem.mpr (Or.inr hold)
        rw [hinverted n hhere]
        exact ⟨hhere, hordered⟩
    · rintro ⟨hhere, hordered⟩
      rw [hinverted n hhere] at hordered
      exact (hmem.mp hhere).imp (fun hnew => (hmade n hnew).mpr hordered) fun hold => ⟨hold, hordered⟩
  · have hbefore := h.parts n
    have hafter := hparts n
    rw [hjobs, List.map_append, List.count_append]
    push_cast
    omega
  · rw [hfirst, not_or] at hn
    exact hload n (h.load n hn.2) hn.1

/-- Nothing is handed over, and parts go with jobs. -/
theorem of_same (h : s.Made) (hhanded : s'.handedOver = s.handedOver)
    (hjobs : s'.firstJobs = s.firstJobs)
    (hinverted : ∀ n ∈ s.handedOver, s'.IsInverted n ↔ s.IsInverted n)
    (hparts : ∀ n : Nat, (s'.graph.node n).parts + s.load n = (s.graph.node n).parts + s'.load n)
    (hload : ∀ n : Nat, s.load n = 0 → s'.load n = 0) : s'.Made := by
  refine h.of_handed [] [] hhanded hjobs ?_ (List.Subset.refl _) nofun (fun n => ?_)
    fun n hn _ => hload n hn
  · rwa [hhanded]
  · rw [List.map_nil, List.count_nil]
    exact (Int.add_zero _).trans (hparts n)

/-- A submission hands a node over. -/
theorem dispatch (h : s.Made) {n : Nat} (jobs : List (Job κ))
    (hgraph : s'.graph = (Graph.handJob s.system.grain (s.graph.claim n).1 n).state)
    (hwaiting : s'.system.inbox.waiting = s.system.inbox.waiting ++ jobs)
    (hrunning : s'.running = s.running) (hwatched : s'.watched = s.watched)
    (hhanded : s'.handedOver = n :: s.handedOver) (hjobs : s'.firstJobs = jobs ++ s.firstJobs)
    (hinverted : ∀ m : NodeId, s'.IsInverted m ↔ s.IsInverted m)
    (hnode : ∀ job ∈ jobs, job.node = n) (hmade : n ∈ jobs.map Job.node ↔ ¬ s.IsInverted n) :
    s'.Made := by
  have hload (m : NodeId) : s'.load m = s.load m + (jobs.map Job.node).count m :=
    load_append (jobs_of_put hwaiting hrunning hwatched) m
  have hparts (m : NodeId) : (s'.graph.node m).parts = (s.graph.node m).parts := by
    rw [hgraph, (Graph.faithful_handJob s.system.grain).field _ Node.parts]
    exact Graph.field_updateNode Node.parts m
  refine h.of_handed [n] jobs hhanded hjobs (fun m _ => hinverted m) (fun m hm => ?_)
    (fun m hm => ?_) (fun m => ?_) fun m hnone hnot => ?_
  · obtain ⟨job, hjob, rfl⟩ := List.mem_map.mp hm
    rw [hnode job hjob]
    exact List.mem_singleton_self n
  · rwa [List.mem_singleton.mp hm]
  · have hmore := hload m
    rw [hparts]
    omega
  · rw [hload, hnone, List.count_eq_zero.mpr hnot]

/-- A job that is split is one more of its node, and so is a part. -/
theorem split (h : s.Made) (hs : s.Orderly) {position : Nat} {job piece rest : Job κ} {g : Graph κ}
    (hjob : (s.jobsAt .queued)[position]? = some job)
    (hsplit : s.graph.splitJob job = some (g, piece, rest)) :
    (s.split position g piece rest).Made := by
  obtain ⟨hg, hpiece, hrest⟩ := Graph.splitJob_spec hsplit
  have hload := load_split hjob g hpiece hrest
  have hpos : 0 < s.load job.node := load_pos_of_jobsAt hjob
  have hlt := (hs.coherent.of_load_pos hpos).1
  have hgraph : (s.split position g piece rest).graph = g := rfl
  refine h.of_same rfl rfl (fun n _ => isInverted_congr rfl rfl n) (fun n => ?_) fun n hn => ?_
  · rw [hload, hgraph, hg]
    unfold Graph.addLoad
    by_cases hn : n = job.node
    · subst hn
      rw [Graph.node_updateNode_self _ hlt, if_pos rfl]
      push_cast
      omega
    · rw [Graph.node_updateNode_of_ne _ (Ne.symm hn), if_neg hn]
      rfl
  · have hne : n ≠ job.node := by
      rintro rfl
      omega
    rw [hload]
    exact (congrArg (s.load n + ·) (if_neg hne)).trans hn

/-- A part finishes, and its node may hand others over. -/
theorem finishAt (h : s.Made) (hs : s.Orderly) (ha : s.Attentive) (hw : s.Worked)
    (hgrain : 0 < s.system.grain) {stage : Stage} {position : Nat} {job : Job κ}
    (hjob : (s.jobsAt stage)[position]? = some job) : (s.finishAt stage position job).Made := by
  have hpos : 0 < s.load job.node := load_pos_of_jobsAt hjob
  have hlt := (hs.coherent.of_load_pos hpos).1
  have hfinished := hs.coherent.finished (Graph.faithful_handJob s.system.grain) hpos
  have hmade := (hw.finishPart_inverted hs ha hgrain hpos).1
  have hload (m : NodeId) := load_append (jobs_finishAt s stage position job) m
  have hwithout (m : NodeId) : s.load m =
      (s.without stage position).load m + if m = job.node then 1 else 0 :=
    congrFun (load_cons (jobs_without hjob)) m
  have hcount (m : NodeId) :
      ((s.graph.finishPart (Graph.handJob s.system.grain) job.node).items.reverse.map
        Job.node).count m =
      ((s.graph.finishPart (Graph.handJob s.system.grain) job.node).items.map Job.node).count m := by
    rw [List.map_reverse, List.count_reverse]
  refine h.of_handed _ _ (handedOver_finishAt s stage position job)
    (firstJobs_finishAt s stage position job)
    (fun m _ => isInverted_congr (additions_finishAt ..) (discards_finishAt ..) m) ?_ ?_ ?_ ?_
  · rw [List.map_reverse]
    exact List.reverse_subset.mpr
      (List.subset_reverse.mpr hfinished.items.1.subset)
  · intro m hm
    rw [List.map_reverse, List.mem_reverse]
    exact hmade m (List.mem_reverse.mp hm)
  · intro m
    have hmore := hload m
    have hless := hwithout m
    rw [(finishAt_eq s stage position job).1, hfinished.parts hlt, hcount, hless, hmore]
    push_cast
    split <;> omega
  · intro m hnone hnot
    have hmore := hload m
    have hless := hwithout m
    rw [List.map_reverse, List.mem_reverse] at hnot
    rw [List.count_eq_zero.mpr hnot] at hmore
    omega

/-- Every move keeps this so. -/
theorem does (h : s.Made) (hs : s.Orderly) (ha : s.Attentive) (hw : s.Worked)
    (hgrain : 0 < s.system.grain) (hdoes : Does s move s') : s'.Made := by
  have hinverted (n : NodeId) (hn : n ∈ s.handedOver) : s'.IsInverted n ↔ s.IsInverted n :=
    hdoes.isInverted_iff hs ((ha.mem_handedOver n).mp hn)
  have hdue {k : Nat} {b : BatchId} {m : NodeId} {due : List NodeId}
      (hk : s.submissions[k]? = some ⟨b, m :: due, .underWay⟩) : m < s.graph.nodes.size :=
    ((hs.scheduled.fits k _ hk).due m List.mem_cons_self).1
  cases hdoes with
  | keep => exact h
  | newBuilder | reset | execute _ | drop _ _ | abandon _ | skip _ _ | close _ =>
    exact h.of_same rfl rfl hinverted (fun _ => rfl) fun _ hn => hn
  | @add i b hi work profile =>
    refine h.of_same rfl rfl hinverted (fun n => ?_) fun _ hn => hn
    exact congrArg (· + (s.load n : Int))
      (Graph.field_addNode (s.graph.register b.batch) Node.parts rfl n)
  | wire _ _ hwired _ =>
    exact h.of_same rfl rfl hinverted
      (fun n => congrArg (· + (s.load n : Int)) (hwired.parts n)) fun _ hn => hn
  | discard _ _ =>
    exact h.of_same rfl rfl hinverted
      (fun n => congrArg (· + (s.load n : Int)) (Graph.field_updateNode Node.parts n)) fun _ hn => hn
  | @put k b n due job hk _ hfree hjob =>
    have hnode : job.node = n := (Graph.faithful_handJob s.system.grain).item _ n job hjob
    have hordered := (hw.exists_handJob_iff ha hgrain (hdue hk) hfree).mp ⟨job, hjob⟩
    refine h.dispatch [job] rfl rfl rfl rfl rfl rfl
      (fun m => isInverted_congr rfl rfl m) (fun other hother => ?_) (iff_of_true ?_ hordered)
    · rw [List.mem_singleton.mp hother, hnode]
    · rw [List.map_singleton, hnode]
      exact List.mem_singleton_self n
  | @stall k b n due fault hk _ hfree hjob =>
    refine h.dispatch [] rfl (List.append_nil _).symm rfl rfl rfl rfl
      (fun m => isInverted_congr rfl rfl m) nofun (iff_of_false List.not_mem_nil fun hordered => ?_)
    obtain ⟨job, hok⟩ := (hw.exists_handJob_iff ha hgrain (hdue hk) hfree).mpr hordered
    cases hjob.symm.trans hok
  | split hjob hsplit => exact h.split hs hjob hsplit
  | @begin position job hjob =>
    have hload := load_congr (jobs_begin hjob (.began job :: s.notes))
    exact h.of_same rfl rfl hinverted (fun n => by rw [hload]; rfl) fun n hn => by rwa [hload]
  | watch hjob =>
    have hload := load_congr (jobs_watch hjob)
    exact h.of_same rfl rfl hinverted (fun n => by rw [hload]; rfl) fun n hn => by rwa [hload]
  | finish hjob => exact h.finishAt hs ha hw hgrain hjob

/-- No node has a job at the start. -/
theorem start (tracker : Tracker) (grain : Nat) : (start tracker grain : Yard κ ε).Made where
  mem_firstJobs n := iff_of_false List.not_mem_nil fun hn => absurd hn.1 List.not_mem_nil
  parts n := by
    have hnode : (Yard.start tracker grain : Yard κ ε).graph.node n = default :=
      Graph.node_of_size_le (Nat.zero_le n)
    rw [hnode]
    rfl
  load n _ := rfl

end Made

end HazardFlow.Yard
