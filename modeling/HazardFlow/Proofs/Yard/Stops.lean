import HazardFlow.Proofs.Yard.Jams

/-!
# How far an inverted range reaches

An inverted range stops the submission or the walk that hands it over, and what these would have
done next is not made up for. So it blocks nodes that do not wait for it: those its submission had
yet to look at, those behind it in the list of the node that released it, and all that wait for them.
All other nodes are complete once nothing is under way any more.

It may not come to that. A worker that dies of the fault takes the events that it watched with it,
and the jobs in its queue that no other worker steals. They stay under way, and nothing is said here
of the nodes that they belong to.
-/

namespace HazardFlow.Yard

variable {κ ε : Type} {s s' : Yard κ ε} {move : Move κ} {n : NodeId}

/-- What was handed over stays noted down. -/
theorem Does.handovers_subset (h : Does s move s') : s.handovers ⊆ s'.handovers :=
  (h.notes_isSuffix.filterMap Note.handover).subset

/-- The submission of a batch goes on to have handed over an inverted range. -/
theorem HandsInverted.does {b : BatchId} (h : s.HandsInverted b) (hs : s.Orderly)
    (ha : s.Attentive) (hdoes : Does s move s') : s'.HandsInverted b := by
  obtain ⟨n, hn, rfl, hinverted⟩ := h
  have hclaimed := ha.claimed_of_handover hn
  exact ⟨n, hdoes.handovers_subset hn,
    (hs.grows hdoes).batchOf n (Graph.lt_size_of_claimed hclaimed),
    (hdoes.isInverted_iff hs hclaimed).mpr hinverted⟩

/-- What a batch misses, it goes on to miss. -/
theorem Misses.does {b : BatchId} (h : s.Misses b) (hs : s.Orderly) (ha : s.Attentive)
    (hreckoning : s.Reckoning) (hdoes : Does s move s') : s'.Misses b := by
  obtain ⟨n, i, hn, rfl, hinverted⟩ := h
  have hlt := Graph.lt_size_of_claimed
    (hs.coherent.claimed_of_isComplete i (hreckoning.complete n i hn))
  exact ⟨n, i, hdoes.handovers_subset hn, (hs.grows hdoes).batchOf i hlt,
    (hdoes.isInverted_iff hs (ha.claimed_of_handover hn)).mpr hinverted⟩

/-- A submission that looks at a node stops if it claims an inverted range, and goes on otherwise. -/
theorem Worked.exists_phase (hw : s.Worked) (hs : s.Orderly) (ha : s.Attentive)
    (hgrain : 0 < s.system.grain) {k : Nat} {b : BatchId} {due : List NodeId}
    (hk : s.submissions[k]? = some ⟨b, n :: due, .underWay⟩) :
    ∃ phase, (s.act (.dispatch k)).submissions[k]? = some ⟨b, due, phase⟩ ∧ phase ≠ .ended ∧
      (phase = .stopped ↔ (s.graph.node n).inDegree = 0 ∧ (s.graph.node n).claimed = false ∧
        s.IsInverted n) := by
  have hn := ((hs.scheduled.fits k _ hk).due n List.mem_cons_self).1
  have hself (next : Submission) : (s.submissions.setIfInBounds k next)[k]? = some next :=
    Array.getElem?_setIfInBounds_self_of_lt (Array.getElem?_eq_some_iff.mp hk).1
  have hordered := hw.exists_handJob_iff ha hgrain hn
  have hdispatched := System.dispatched_dispatch s.system n
  simp only [act, hk]
  unfold Yard.dispatch
  generalize s.system.dispatch n = outcome at hdispatched ⊢
  cases hdispatched with
  | skip hskip =>
    refine ⟨.underWay, hself _, by decide, iff_of_false (by decide) fun hyes => ?_⟩
    rcases hskip with hwaits | hclaimed
    · exact hwaits hyes.1
    · exact Bool.false_ne_true (hyes.2.1.symm.trans hclaimed)
  | put hfree hunclaimed hjob =>
    refine ⟨.underWay, hself _, by decide, iff_of_false (by decide) fun hyes => ?_⟩
    exact (hordered hunclaimed).mp ⟨_, hjob⟩ hyes.2.2
  | stall hfree hunclaimed hjob =>
    refine ⟨.stopped, hself _, by decide, iff_of_true rfl ⟨hfree, hunclaimed, ?_⟩⟩
    by_contra hno
    obtain ⟨job, hok⟩ := (hordered hunclaimed).mpr hno
    cases hjob.symm.trans hok

/-- The last part of a node takes the edges of `walked`, hands over the nodes of `ready`, and leaves
the edges of `left`. -/
structure Releases (s s' : Yard κ ε) (n : NodeId) (walked left ready : List NodeId) : Prop where
  entries : s.graph.entries n = walked ++ left
  isComplete : s'.graph.isComplete n = true
  inDegree : ∀ m : Nat,
    (s'.graph.node m).inDegree = (s.graph.node m).inDegree - (walked.count m : Int)
  handedOver : s'.handedOver = ready.reverse ++ s.handedOver
  /-- Those nodes are ready that wait for nothing afterwards. -/
  mem_ready : ∀ m : Nat, m ∈ ready ↔ (s.graph.node m).claimed = false ∧ s.graph.isArmed m = true ∧
    1 ≤ (s.graph.node m).inDegree ∧ (s.graph.node m).inDegree ≤ (walked.count m : Int)
  /-- An inverted range among them is the last of the nodes walked through. -/
  last : ∀ m ∈ ready, s.IsInverted m → walked.getLast? = some m
  /-- Nothing else leaves any. -/
  left : left ≠ [] → ∃ m ∈ ready, s.IsInverted m

/-- What the last part of a node does. -/
theorem Worked.exists_releases (hw : s.Worked) (hs : s.Orderly) (ha : s.Attentive)
    (hgrain : 0 < s.system.grain) {stage : Stage} {position : Nat} {job : Job κ}
    (hjob : (s.jobsAt stage)[position]? = some job) (hlast : (s.graph.node job.node).parts = 1) :
    ∃ walked left ready : List NodeId,
      s.Releases (s.act (.finish stage position)) job.node walked left ready := by
  have hpos : 0 < s.load job.node := load_pos_of_jobsAt hjob
  have hcomplete : (s.finishAt stage position job).graph.isComplete job.node = true :=
    (isComplete_finishAt hs hjob).mpr (Or.inr ⟨rfl, hlast⟩)
  have hhanded := handedOver_finishAt s stage position job
  have hfinished := hs.coherent.finished (Graph.faithful_handJob s.system.grain) hpos
  obtain ⟨walked, left, hwalks⟩ := hs.coherent.exists_walksUpTo hgrain ha.attended.stocked job.node
  have hdegree (m : NodeId) :
      ((s.graph.retire job.node).node m).inDegree = (s.graph.node m).inDegree :=
    Graph.field_updateNode Node.inDegree m
  have harmed := (Graph.Steady.retire (hs.coherent.of_load_pos hpos).1).isArmed
  have hinverted (m : NodeId) (hm : m ∈ s.graph.passedOnBy (Graph.handJob s.system.grain) job.node) :
      (s.graph.retire job.node).IsInverted m ↔ s.IsInverted m :=
    (Graph.isInverted_congr (Graph.field_updateNode Node.work m)).trans
      (hw.isInverted_iff m (hfinished.claimed.2.2 m hm)).symm
  have hafter (m : NodeId) : ((s.finishAt stage position job).graph.node m).inDegree =
      ((Graph.releaseAll (Graph.handJob s.system.grain) (s.graph.retire job.node)
        (s.graph.entries job.node)).graph.node m).inDegree := by
    rw [(finishAt_eq s stage position job).1]
    generalize s.graph.finishPart (Graph.handJob s.system.grain) job.node = handed at hfinished
    cases hfinished with
    | part hparts => exact absurd hlast hparts
    | stopped _ _ _ => rfl
    | last _ _ _ => rfl
  unfold Graph.passedOnBy at hhanded hinverted
  rw [if_pos hlast] at hhanded hinverted
  simp only [act, hjob]
  refine ⟨walked, left, _, hwalks.append.symm, hcomplete, fun m => ?_, hhanded, fun m => ?_,
    fun m hm hyes => ?_, fun hleft => ?_⟩
  · rw [hafter, hwalks.released.inDegree, hdegree]
  · rw [hwalks.released.mem_ready, Graph.claimed_retire, hdegree, harmed]
  · exact hwalks.last m hm ((hinverted m hm).mpr hyes)
  · obtain ⟨m, hm, hyes⟩ := hwalks.exists_inverted hleft
    exact ⟨m, hm, (hinverted m hm).mp hyes⟩

/-- What inverted ranges stop, and nothing else stops. -/
structure StopsExactly (s : Yard κ ε) : Prop where
  /-- Jobs are made of all nodes that are handed over but those with an inverted range. -/
  made : ∀ n : Nat, n ∈ s.firstJobs.map Job.node ↔ n ∈ s.handedOver ∧ ¬ s.IsInverted n
  /-- A submission stops where it hands over an inverted range. Until then it looks at its nodes in
  turn. -/
  dispatch : ∀ (k : Nat) (b : BatchId) (n : NodeId) (due : List NodeId),
    s.submissions[k]? = some ⟨b, n :: due, .underWay⟩ →
      ∃ phase, (s.act (.dispatch k)).submissions[k]? = some ⟨b, due, phase⟩ ∧ phase ≠ .ended ∧
        (phase = .stopped ↔ (s.graph.node n).inDegree = 0 ∧ (s.graph.node n).claimed = false ∧
          s.IsInverted n)
  /-- A node that completes releases its successors up to an inverted range that this makes
  ready. -/
  release : ∀ (stage : Stage) (position : Nat) (job : Job κ),
    (s.jobsAt stage)[position]? = some job → (s.graph.node job.node).parts = 1 →
      ∃ walked left ready : List NodeId,
        s.Releases (s.act (.finish stage position)) job.node walked left ready
  /-- A submission has stopped exactly if it handed over an inverted range. -/
  stopped : ∀ (k : Nat) (sub : Submission), s.submissions[k]? = some sub →
    (sub.phase = .stopped ↔ s.HandsInverted sub.batch)
  /-- A batch is done when its submission has ended and its nodes are complete, unless one of these
  released an inverted range. -/
  done : ∀ b : Nat, b < s.graph.batches.size → ((s.graph.batch b).done = true ↔
    s.hasEnded b = true ∧ (∀ n : Nat, n < s.graph.nodes.size → (s.graph.node n).batch = b →
      s.graph.isComplete n = true) ∧ ¬ s.Misses b)
  /-- Only inverted ranges strand nodes. -/
  stranded : ∀ n : Nat, s.Stranded n → ∃ m ∈ s.handedOver, s.IsInverted m
  /-- Jammed nodes are neither complete nor under way. -/
  jammed : ∀ n : Nat, s.Jammed n → s.Idle n
  /-- All other nodes are complete when nothing is under way any more. What a worker that died had
  in its queue or watched is still under way, so nothing is said of a run in which that is lost. -/
  quiet : s.Quiet → ∀ n : Nat, n < s.graph.nodes.size →
    (s.graph.isComplete n = true ↔ ¬ s.Jammed n)

/-- A batch is done when nothing that it counts is left, and it misses nothing. -/
theorem Reckoning.done_iff (h : s.Reckoning) {b : BatchId} (hb : b < s.graph.batches.size) :
    (s.graph.batch b).done = true ↔ s.hasEnded b = true ∧
      (∀ n : Nat, n < s.graph.nodes.size → (s.graph.node n).batch = b →
        s.graph.isComplete n = true) ∧ ¬ s.Misses b := by
  obtain ⟨missed, htally, hzero⟩ := h.reckons b hb
  rw [htally.done, htally.remaining, ← Graph.outstanding_eq_zero_iff, ← hzero]
  unfold held
  split
  · next hended =>
    rw [hended]
    constructor
    · intro hnone
      exact ⟨rfl, by omega, by omega⟩
    · rintro ⟨_, hcomplete, hmissed⟩
      omega
  · next hended => exact iff_of_false (by omega) fun hyes => hended hyes.1

/-- A batch is never done when its submission stopped. -/
theorem Halting.not_hasEnded (h : s.Halting) {b : BatchId} (hb : s.HandsInverted b) :
    s.hasEnded b = false := by
  by_contra hended
  rw [Bool.not_eq_false, hasEnded_iff] at hended
  obtain ⟨k, sub, hk, rfl, hphase⟩ := hended
  rw [(h.stopped k sub hk).mpr hb] at hphase
  cases hphase

/-- Every loss is traced to an inverted range. -/
structure Traced (s : Yard κ ε) : Prop where
  grain : 0 < s.system.grain
  attentive : s.Attentive
  worked : s.Worked
  made : s.Made
  halting : s.Halting
  reckoning : s.Reckoning
  losesByFault : s.LosesByFault

namespace Traced

/-- Every move keeps this so. -/
theorem does (h : s.Traced) (hs : s.Orderly) (hdoes : Does s move s') : s'.Traced where
  grain := by
    rw [hdoes.grain]
    exact h.grain
  attentive := h.attentive.does hs hdoes
  worked := h.worked.does hs hdoes
  made := h.made.does hs h.attentive h.worked h.grain hdoes
  halting := h.halting.does hs h.attentive h.worked h.grain hdoes
  reckoning := h.reckoning.does hs h.attentive h.worked h.grain hdoes
  losesByFault := h.losesByFault.does hs hdoes

/-- There are no nodes at the start. -/
theorem start (tracker : Tracker) {grain : Nat} (hgrain : 0 < grain) :
    (start tracker grain : Yard κ ε).Traced where
  grain := hgrain
  attentive := .start tracker grain
  worked := .start tracker grain
  made := .start tracker grain
  halting := .start tracker grain
  reckoning := .start tracker grain
  losesByFault := .start tracker grain

/-- So what inverted ranges stop is known exactly. -/
theorem stopsExactly (h : s.Traced) (hs : s.Orderly) : s.StopsExactly where
  made := h.made.mem_firstJobs
  dispatch _ _ _ _ hk := h.worked.exists_phase hs h.attentive h.grain hk
  release _ _ _ hjob hlast := h.worked.exists_releases hs h.attentive h.grain hjob hlast
  stopped := h.halting.stopped
  done _ hb := h.reckoning.done_iff hb
  stranded _ hn := hn.exists_inverted h.attentive h.made h.halting h.losesByFault
  jammed _ hn := hn.idle hs h.made
  quiet hquiet _ hn := hquiet.isComplete_iff hs h.attentive h.made h.halting hn

/-- A batch whose submission stopped, or that misses a completion, is not done. -/
theorem not_done (h : s.Traced) (hs : s.Orderly) {b : BatchId}
    (hb : s.HandsInverted b ∨ s.Misses b) : (s.graph.batch b).done = false := by
  by_contra hdone
  rw [Bool.not_eq_false] at hdone
  have hlt : b < s.graph.batches.size := by
    rcases hb with ⟨n, hn, rfl, _⟩ | hmisses
    · exact hs.coherent.batch_lt n (Graph.lt_size_of_claimed (h.attentive.claimed_of_handover hn))
    · by_contra hge
      exact h.reckoning.not_misses hs (Nat.not_lt.mp hge) hmisses
  obtain ⟨hended, _, hmisses⟩ := (h.reckoning.done_iff hlt).mp hdone
  rcases hb with hhands | hyes
  · rw [h.halting.not_hasEnded hhands] at hended
    cases hended
  · exact hmisses hyes

end Traced

/-- What was stopped stays so. -/
structure StaysStopped (s s' : Yard κ ε) : Prop where
  submission : ∀ (k : Nat) (sub : Submission), s.submissions[k]? = some sub →
    sub.phase = .stopped → s'.submissions[k]? = some sub
  jammed : ∀ n : Nat, s.Jammed n → s'.Jammed n
  handsInverted : ∀ b : Nat, s.HandsInverted b → s'.HandsInverted b
  misses : ∀ b : Nat, s.Misses b → s'.Misses b

/-- Every move keeps this so. -/
theorem StaysStopped.does {r : Yard κ ε} (h : r.StaysStopped s) (hs : s.Orderly) (ht : s.Traced)
    (hdoes : Does s move s') : r.StaysStopped s' where
  submission k sub hk hphase := hdoes.stopped (h.submission k sub hk hphase) hphase
  jammed n hn := (h.jammed n hn).does hs ht.made hdoes
  handsInverted b hb := (h.handsInverted b hb).does hs ht.attentive hdoes
  misses b hb := (h.misses b hb).does hs ht.attentive ht.reckoning hdoes

/-- However builders, submissions and jobs take turns, an inverted range stops the submission or the
walk that hands it over, for ever. What they would have come to next is lost with all that waits for
it, and the batches concerned are never done. All other nodes are complete once nothing is under
way, and what was lost with a worker stays under way. No system is set up with a grain of zero
(`Settings.validate`). -/
theorem stopsExactly_run {tracker : Tracker} {count grain : Nat}
    (htracker : Tracker.create count = .ok tracker) (hgrain : 0 < grain)
    (moves more : List (Move κ)) :
    ((start tracker grain : Yard κ ε).run moves).StopsExactly ∧
      ((start tracker grain : Yard κ ε).run moves).StaysStopped
        ((start tracker grain : Yard κ ε).run (moves ++ more)) ∧
      ∀ b : Nat, ((start tracker grain : Yard κ ε).run moves).HandsInverted b ∨
        ((start tracker grain : Yard κ ε).run moves).Misses b →
          (((start tracker grain : Yard κ ε).run (moves ++ more)).graph.batch b).done = false := by
  obtain ⟨hs, htraced⟩ := (Orderly.start htracker grain).run
    (fun s : Yard κ ε => s.Traced) moves (.start tracker hgrain)
    fun _ _ _ _ hs ht hdoes => ht.does hs hdoes
  have happend : (start tracker grain : Yard κ ε).run (moves ++ more) =
      ((start tracker grain : Yard κ ε).run moves).run more := List.foldl_append
  rw [happend]
  obtain ⟨hs', htraced', hstays⟩ := hs.run
    (fun t : Yard κ ε => t.Traced ∧ ((start tracker grain : Yard κ ε).run moves).StaysStopped t) more
    ⟨htraced, fun _ _ hk _ => hk, fun _ hn => hn, fun _ hb => hb, fun _ hb => hb⟩
    fun _ _ _ _ hs ht hdoes => ⟨ht.1.does hs hdoes, ht.2.does hs ht.1 hdoes⟩
  refine ⟨htraced.stopsExactly hs, hstays, fun b hb => htraced'.not_done hs' ?_⟩
  exact hb.imp (hstays.handsInverted b) (hstays.misses b)

/-- Nodes 1 and 2 wait for node 0, and the range of node 2 is inverted. Node 0 releases it first,
because it was wired last. -/
def releasedInverted : List (Move Unit) :=
  [.newBuilder, .add 0 (.host ()) none, .add 0 (.host ()) none, .add 0 (.range ⟨5, 2⟩ ()) none,
    .wire 1 (.edge 0), .wire 2 (.edge 0), .execute 0, .dispatch 0, .dispatch 0, .dispatch 0, .close 0,
    .begin 0, .finish .running 0]

/-- Node 1 goes on to wait for node 0, which is complete, and the batch is never told of that. -/
theorem stopsExactly_releasedInverted :
    ((start { shards := #[{}] } 1 : Yard Unit Unit).run releasedInverted).StopsExactly ∧
      ((start { shards := #[{}] } 1 : Yard Unit Unit).run (releasedInverted ++ [.drop 0])).Jammed 1 ∧
        (((start { shards := #[{}] } 1 : Yard Unit Unit).run releasedInverted).graph.nodes.toList.map
          fun n => (n.inDegree, n.claimed, n.isComplete)) =
            [(0, true, true), (1, false, false), (0, true, false)] := by
  have htracker : Tracker.create 1 = .ok { shards := #[{}] } := rfl
  obtain ⟨hstops, hstays, _⟩ :=
    stopsExactly_run (ε := Unit) htracker Nat.one_pos releasedInverted [.drop 0]
  refine ⟨hstops, hstays.jammed 1 ⟨1, .refl, Or.inl (.short ?_)⟩, by decide +kernel⟩
  decide +kernel

/-- The range of node 0 is inverted. Its submission stops there, and never comes to node 1. -/
def submittedInverted : List (Move Unit) :=
  [.newBuilder, .add 0 (.range ⟨5, 2⟩ ()) none, .add 0 (.host ()) none, .execute 0, .dispatch 0,
    .dispatch 0, .close 0]

/-- So it is not enough for a node to wait for no inverted range and no cycle. -/
theorem not_isComplete_submittedInverted :
    ¬ ∀ (moves : List (Move Unit)) (n : Nat),
      ((start { shards := #[{}] } 1 : Yard Unit Unit).run moves).Quiet →
      n < ((start { shards := #[{}] } 1 : Yard Unit Unit).run moves).graph.nodes.size →
      (∀ i : Nat, Relation.ReflTransGen
          ((start { shards := #[{}] } 1 : Yard Unit Unit).run moves).graph.Edge i n →
        ¬ ((start { shards := #[{}] } 1 : Yard Unit Unit).run moves).IsInverted i ∧
          ¬ Relation.TransGen
            ((start { shards := #[{}] } 1 : Yard Unit Unit).run moves).graph.Edge i i) →
      ((start { shards := #[{}] } 1 : Yard Unit Unit).run moves).graph.isComplete n = true := by
  intro hall
  have hcomplete := hall submittedInverted 1
  set s := (start { shards := #[{}] } 1 : Yard Unit Unit).run submittedInverted with hs
  have hsubmissions : s.submissions = #[⟨0, [1], .stopped⟩] := rfl
  have hadditions : s.additions = [(1, .host ()), (0, .range ⟨5, 2⟩ ())] := rfl
  have hnone (i : NodeId) : ¬ s.graph.Edge i 1 := by
    intro hedge
    have hlt : i < 2 := hedge.lt
    have hempty : ∀ j < 2, s.graph.entries j = [] := by decide +kernel
    unfold Graph.Edge at hedge
    rw [hempty i hlt] at hedge
    exact absurd hedge List.not_mem_nil
  have hcomplete' : s.graph.isComplete 1 = true := by
    refine hcomplete ⟨rfl, fun k sub hk => ?_, by decide +kernel⟩ (by decide +kernel) fun i hi => ?_
    · rw [hsubmissions] at hk
      obtain rfl := Array.eq_of_mem_singleton (Array.mem_of_getElem? hk)
      nofun
    · rcases Relation.ReflTransGen.cases_tail hi with rfl | ⟨j, _, hlast⟩
      · refine ⟨?_, fun hcycle => ?_⟩
        · rintro ⟨work, hmem, _, hinverted⟩
          rw [hadditions] at hmem
          obtain ⟨_, rfl⟩ := Prod.mk.inj ((List.mem_cons.mp hmem).resolve_right (by simp))
          exact hinverted trivial
        · obtain ⟨j, _, hlast⟩ := Relation.TransGen.tail'_iff.mp hcycle
          exact hnone j hlast
      · exact absurd hlast (hnone j)
  have hopen : s.graph.isComplete 1 = false := by decide +kernel
  rw [hopen] at hcomplete'
  cases hcomplete'

end HazardFlow.Yard
