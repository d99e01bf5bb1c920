import HazardFlow.Proofs.Yard.Ranges
import HazardFlow.Proofs.Yard.Signal
import HazardFlow.Proofs.Yard.Works

/-!
# What an inverted range stops

A submission that hands over an inverted range stops, and never ends. When the last part of a node
hands one over, the batch of that node is not told that it is complete. Either way the batch goes on
to count something for ever, and is never done.
-/

namespace HazardFlow

variable {κ ε : Type}

/-- The node that was handed over, and the one that released it, if one did. -/
def Note.handover : Note κ → Option (NodeId × Option NodeId)
  | .handed n source => some (n, source)
  | _ => none

namespace Yard

variable {s s' : Yard κ ε} {move : Move κ}

/-- The nodes handed over so far, each with the one that released it, newest first. -/
def handovers (s : Yard κ ε) : List (NodeId × Option NodeId) := s.notes.filterMap Note.handover

theorem handedOver_eq_map (s : Yard κ ε) : s.handedOver = s.handovers.map Prod.fst := by
  unfold handedOver handovers
  rw [List.map_filterMap]
  apply List.filterMap_congr
  intro note _
  cases note <;> rfl

/-- A node that was handed over has been claimed. -/
theorem Attentive.claimed_of_handover (h : s.Attentive) {n : NodeId} {source : Option NodeId}
    (hn : (n, source) ∈ s.handovers) : (s.graph.node n).claimed = true := by
  rw [← h.mem_handedOver, handedOver_eq_map]
  exact List.mem_map_of_mem hn

theorem handovers_finishAt (s : Yard κ ε) (stage : Stage) (position : Nat) (job : Job κ) :
    (s.finishAt stage position job).handovers =
      ((s.graph.passedOnBy (Graph.handJob s.system.grain) job.node).map
        (·, some job.node)).reverse ++ s.handovers := by
  unfold handovers
  rw [filterMap_finishAt, filterMap_noteDrop s stage job rfl]
  simp [Note.handover]

/-- The submission of a batch handed over an inverted range. -/
def HandsInverted (s : Yard κ ε) (b : BatchId) : Prop :=
  ∃ n : Nat, (n, none) ∈ s.handovers ∧ (s.graph.node n).batch = b ∧ s.IsInverted n

/-- The last part of a node of a batch handed over an inverted range. -/
def Misses (s : Yard κ ε) (b : BatchId) : Prop :=
  ∃ n i : Nat, (n, some i) ∈ s.handovers ∧ (s.graph.node i).batch = b ∧ s.IsInverted n

/-- Handing nodes over shows in the submissions of their batches. -/
theorem handsInverted_iff (nodes : List NodeId) (hs : s.Orderly) (ha : s.Attentive)
    (hdoes : Does s move s')
    (hhanded : ∀ n : Nat, (n, none) ∈ s'.handovers ↔ n ∈ nodes ∨ (n, none) ∈ s.handovers)
    (b : BatchId) : s'.HandsInverted b ↔
      (∃ n ∈ nodes, (s'.graph.node n).batch = b ∧ s'.IsInverted n) ∨ s.HandsInverted b := by
  have hold (n : Nat) (hn : (n, none) ∈ s.handovers) :
      ((s'.graph.node n).batch = b ∧ s'.IsInverted n ↔
        (s.graph.node n).batch = b ∧ s.IsInverted n) := by
    have hclaimed := ha.claimed_of_handover hn
    rw [(hs.grows hdoes).batchOf n (Graph.lt_size_of_claimed hclaimed),
      hdoes.isInverted_iff hs hclaimed]
  constructor
  · rintro ⟨n, hn, hrest⟩
    rcases (hhanded n).mp hn with hnew | hbefore
    · exact Or.inl ⟨n, hnew, hrest⟩
    · exact Or.inr ⟨n, hbefore, (hold n hbefore).mp hrest⟩
  · rintro (⟨n, hn, hrest⟩ | ⟨n, hn, hrest⟩)
    · exact ⟨n, (hhanded n).mpr (Or.inl hn), hrest⟩
    · exact ⟨n, (hhanded n).mpr (Or.inr hn), (hold n hn).mpr hrest⟩

/-- Nothing changes for a submission as long as none hands a node over. -/
theorem handsInverted_of_same (hs : s.Orderly) (ha : s.Attentive) (hdoes : Does s move s')
    (hhanded : ∀ n : Nat, (n, none) ∈ s'.handovers ↔ (n, none) ∈ s.handovers) (b : BatchId) :
    s'.HandsInverted b ↔ s.HandsInverted b := by
  rw [handsInverted_iff [] hs ha hdoes (by simpa using hhanded)]
  simp

/-- A submission stops when it hands over an inverted range, and has looked at all nodes when it
ends. -/
structure Halting (s : Yard κ ε) : Prop where
  stopped : ∀ (k : Nat) (sub : Submission), s.submissions[k]? = some sub →
    (sub.phase = .stopped ↔ s.HandsInverted sub.batch)
  ended : ∀ (k : Nat) (sub : Submission), s.submissions[k]? = some sub → sub.phase = .ended →
    sub.due = []

namespace Halting

/-- No submission goes on. -/
theorem of_same (h : s.Halting) (hsubmissions : s'.submissions = s.submissions)
    (hhands : ∀ b : Nat, s'.HandsInverted b ↔ s.HandsInverted b) : s'.Halting where
  stopped k sub hk := by
    rw [hsubmissions] at hk
    rw [hhands]
    exact h.stopped k sub hk
  ended k sub hk := by
    rw [hsubmissions] at hk
    exact h.ended k sub hk

/-- A submission goes on. -/
theorem set (h : s.Halting) (hs : s.Orderly) {k : Nat} {sub sub' : Submission}
    (hk : s.submissions[k]? = some sub)
    (hset : s'.submissions = s.submissions.setIfInBounds k sub') (hbatch : sub'.batch = sub.batch)
    (hself : sub'.phase = .stopped ↔ s'.HandsInverted sub.batch)
    (hended : sub'.phase = .ended → sub'.due = [])
    (hother : ∀ b : Nat, b ≠ sub.batch → (s'.HandsInverted b ↔ s.HandsInverted b)) :
    s'.Halting := by
  have hsplit (l : Nat) (other : Submission) (hl : s'.submissions[l]? = some other) :
      other = sub' ∨ l ≠ k ∧ s.submissions[l]? = some other := by
    rw [hset] at hl
    by_cases hlk : l = k
    · subst hlk
      rw [Array.getElem?_setIfInBounds_self_of_lt (Array.getElem?_eq_some_iff.mp hk).1] at hl
      exact Or.inl (Option.some.inj hl).symm
    · rw [Array.getElem?_setIfInBounds_ne (Ne.symm hlk)] at hl
      exact Or.inr ⟨hlk, hl⟩
  constructor
  · intro l other hl
    rcases hsplit l other hl with rfl | ⟨hne, hold⟩
    · rw [hbatch]
      exact hself
    · rw [hother _ (hs.scheduled.apart l k other sub hne hold hk)]
      exact h.stopped l other hold
  · intro l other hl
    rcases hsplit l other hl with rfl | ⟨_, hold⟩
    · exact hended
    · exact h.ended l other hold

/-- A submission that begins has not handed over anything. -/
theorem submit (h : s.Halting) (hs : s.Orderly) (ha : s.Attentive) {i : Nat} {b : Builder}
    (hi : Crew.builderAt s.crews i = some b) (next : Builder → Crew)
    (hhands : ∀ c : Nat, (s.submit i b next).HandsInverted c ↔ s.HandsInverted c) :
    (s.submit i b next).Halting := by
  have hb := hs.staffed.holds i b hi
  have hsubmissions : (s.submit i b next).submissions =
      s.submissions.push ⟨b.batch, b.nodes, .underWay⟩ := rfl
  have hnone : ¬ s.HandsInverted b.batch := by
    rintro ⟨n, hn, hbatch, _⟩
    have harmed := hs.coherent.armed n (ha.claimed_of_handover hn)
    unfold Graph.isArmed at harmed
    rw [hbatch, hb.unarmed] at harmed
    cases harmed
  constructor
  · intro k sub hk
    rw [hsubmissions, Array.getElem?_push] at hk
    rw [hhands]
    split at hk
    · obtain rfl := Option.some.inj hk
      exact iff_of_false nofun hnone
    · exact h.stopped k sub hk
  · intro k sub hk hended
    rw [hsubmissions, Array.getElem?_push] at hk
    split at hk
    · obtain rfl := Option.some.inj hk
      cases hended
    · exact h.ended k sub hk hended

/-- A submission hands a node over, and stops if its range is inverted. -/
theorem dispatch (h : s.Halting) (hs : s.Orderly) (ha : s.Attentive) (hdoes : Does s move s')
    {k : Nat} {b : BatchId} {n : NodeId} {due : List NodeId} {phase : Phase}
    (hk : s.submissions[k]? = some ⟨b, n :: due, .underWay⟩)
    (hset : s'.submissions = s.submissions.setIfInBounds k ⟨b, due, phase⟩)
    (hphase : phase = .stopped ∧ s'.IsInverted n ∨ phase = .underWay ∧ ¬ s'.IsInverted n)
    (hhanded : s'.handovers = (n, none) :: s.handovers) : s'.Halting := by
  have hfits := (hs.scheduled.fits k _ hk).due n List.mem_cons_self
  have hbatch : (s'.graph.node n).batch = b :=
    ((hs.grows hdoes).batchOf n hfits.1).trans hfits.2
  have hnot : ¬ s.HandsInverted b := fun hyes => nomatch (h.stopped k _ hk).mpr hyes
  have hhands (c : BatchId) :
      s'.HandsInverted c ↔ (b = c ∧ s'.IsInverted n) ∨ s.HandsInverted c := by
    rw [handsInverted_iff [n] hs ha hdoes (by simp [hhanded])]
    simp [hbatch]
  refine h.set hs hk hset rfl ?_ ?_ fun c hc => ?_
  · rw [hhands, or_iff_left hnot]
    rcases hphase with ⟨rfl, hinverted⟩ | ⟨rfl, hordered⟩
    · exact iff_of_true rfl ⟨rfl, hinverted⟩
    · exact iff_of_false nofun fun hyes => hordered hyes.2
  · rcases hphase with ⟨rfl, _⟩ | ⟨rfl, _⟩ <;> nofun
  · rw [hhands, or_iff_right]
    exact fun hself => hc hself.1.symm

/-- Every move keeps this so. -/
theorem does (h : s.Halting) (hs : s.Orderly) (ha : s.Attentive) (hw : s.Worked)
    (hgrain : 0 < s.system.grain) (hdoes : Does s move s') : s'.Halting := by
  have hdoes' := hdoes
  have hsame := handsInverted_of_same hs ha hdoes
  cases hdoes with
  | keep => exact h
  | newBuilder | add _ _ _ | wire _ _ _ _ | reset | drop _ _ | discard _ _ | split _ _ | begin _
  | watch _ => exact h.of_same rfl (hsame fun _ => Iff.rfl)
  | execute hi => exact h.submit hs ha (Crew.builderAt_of_adding hi) _ (hsame fun _ => Iff.rfl)
  | abandon hi => exact h.submit hs ha (Crew.builderAt_of_leaving hi) _ (hsame fun _ => Iff.rfl)
  | @skip k b n due hk _ =>
    have hhands := hsame fun _ => Iff.rfl
    refine h.set hs hk rfl rfl ?_ nofun fun c _ => hhands c
    rw [hhands, ← h.stopped k _ hk]
  | @put k b n due job hk _ hfree hjob =>
    have hn := ((hs.scheduled.fits k _ hk).due n List.mem_cons_self).1
    have hordered := (hw.exists_handJob_iff ha hgrain hn hfree).mp ⟨job, hjob⟩
    exact h.dispatch hs ha hdoes' hk rfl
      (Or.inr ⟨rfl, fun hyes => hordered ((isInverted_congr rfl rfl n).mp hyes)⟩) rfl
  | @stall k b n due fault hk _ hfree hjob =>
    have hn := ((hs.scheduled.fits k _ hk).due n List.mem_cons_self).1
    have hinverted : s.IsInverted n := by
      by_contra hordered
      obtain ⟨job, hok⟩ := (hw.exists_handJob_iff ha hgrain hn hfree).mpr hordered
      cases hjob.symm.trans hok
    exact h.dispatch hs ha hdoes' hk rfl
      (Or.inl ⟨rfl, (isInverted_congr rfl rfl n).mpr hinverted⟩) rfl
  | @close k b hk =>
    have hhands := hsame fun _ => Iff.rfl
    refine h.set hs hk rfl rfl (iff_of_false nofun fun hyes => ?_) (fun _ => rfl) fun c _ => hhands c
    exact nomatch (h.stopped k _ hk).mpr ((hhands _).mp hyes)
  | @finish stage position job hjob =>
    refine h.of_same (finishAt_eq s stage position job).2.2.2.2 (hsame fun n => ?_)
    rw [handovers_finishAt]
    simp

/-- There are no submissions at the start. -/
theorem start (tracker : Tracker) (grain : Nat) : (start tracker grain : Yard κ ε).Halting where
  stopped k sub hk := by simp [Yard.start] at hk
  ended k sub hk := by simp [Yard.start] at hk

end Halting

/-- A batch counts its incomplete nodes, its submission until that has ended, and the completions of
which it was not told. -/
def Reckons (s : Yard κ ε) (b : BatchId) : Prop :=
  ∃ missed : Nat, s.graph.Tally b (s.held b + missed) ∧ (missed = 0 ↔ ¬ s.Misses b)

/-- A batch reckons as before when the same is held, missed and counted. -/
theorem Reckons.of_tally {b : BatchId} (h : s.Reckons b) (hheld : s'.held b = s.held b)
    (hmisses : s'.Misses b ↔ s.Misses b)
    (htally : ∀ held : Nat, s.graph.Tally b held → s'.graph.Tally b held) : s'.Reckons b := by
  obtain ⟨missed, hcount, hzero⟩ := h
  refine ⟨missed, ?_, by rwa [hmisses]⟩
  rw [hheld]
  exact htally _ hcount

/-- Every batch reckons, and a node that released others is complete. -/
structure Reckoning (s : Yard κ ε) : Prop where
  complete : ∀ n i : Nat, (n, some i) ∈ s.handovers → s.graph.isComplete i = true
  reckons : ∀ b : Nat, b < s.graph.batches.size → s.Reckons b

namespace Reckoning

/-- Handing nodes over shows in the batch of the node that released them. -/
theorem misses_iff (h : s.Reckoning) (nodes : List NodeId) (source : NodeId) (hs : s.Orderly)
    (ha : s.Attentive) (hdoes : Does s move s')
    (hhanded : ∀ n i : Nat, (n, some i) ∈ s'.handovers ↔
      (n ∈ nodes ∧ i = source) ∨ (n, some i) ∈ s.handovers)
    (b : BatchId) : s'.Misses b ↔
      ((s'.graph.node source).batch = b ∧ ∃ n ∈ nodes, s'.IsInverted n) ∨ s.Misses b := by
  have hold (n i : Nat) (hn : (n, some i) ∈ s.handovers) :
      ((s'.graph.node i).batch = b ∧ s'.IsInverted n ↔
        (s.graph.node i).batch = b ∧ s.IsInverted n) := by
    have hlt := Graph.lt_size_of_claimed (hs.coherent.claimed_of_isComplete i (h.complete n i hn))
    rw [(hs.grows hdoes).batchOf i hlt, hdoes.isInverted_iff hs (ha.claimed_of_handover hn)]
  constructor
  · rintro ⟨n, i, hn, hrest⟩
    rcases (hhanded n i).mp hn with ⟨hnew, rfl⟩ | hbefore
    · exact Or.inl ⟨hrest.1, n, hnew, hrest.2⟩
    · exact Or.inr ⟨n, i, hbefore, (hold n i hbefore).mp hrest⟩
  · rintro (⟨hbatch, n, hn, hinverted⟩ | ⟨n, i, hn, hrest⟩)
    · exact ⟨n, source, (hhanded n source).mpr (Or.inl ⟨hn, rfl⟩), hbatch, hinverted⟩
    · exact ⟨n, i, (hhanded n i).mpr (Or.inr hn), (hold n i hn).mpr hrest⟩

/-- A batch that does not exist misses nothing. -/
theorem not_misses (h : s.Reckoning) (hs : s.Orderly) {b : BatchId}
    (hb : s.graph.batches.size ≤ b) : ¬ s.Misses b := by
  rintro ⟨n, i, hn, rfl, _⟩
  have hlt := Graph.lt_size_of_claimed (hs.coherent.claimed_of_isComplete i (h.complete n i hn))
  exact absurd (hs.coherent.batch_lt i hlt) (Nat.not_lt.mpr hb)

/-- A batch that is started counts its submission. -/
theorem startBatch (h : s.Reckoning) (hs : s.Orderly) {b : BatchId}
    (hb : b < s.graph.batches.size + 1) (hheld : s'.held b = s.held b)
    (hmisses : s'.Misses b ↔ s.Misses b)
    (htally : ∀ held : Nat, s.graph.startBatch.1.Tally b held → s'.graph.Tally b held) :
    s'.Reckons b := by
  by_cases hfresh : b = s.graph.batches.size
  · have hone : s.held b = 1 := held_of_forall fun k sub hk hbatch _ => by
      have hlt := (hs.scheduled.fits k sub hk).batch_lt
      rw [hbatch, hfresh] at hlt
      exact absurd hlt (Nat.lt_irrefl _)
    have hnone := h.not_misses hs (Nat.le_of_eq hfresh.symm)
    refine ⟨0, ?_, iff_of_true rfl fun hyes => hnone (hmisses.mp hyes)⟩
    rw [hheld, hone, hfresh]
    rw [hfresh] at htally
    exact htally 1 (.startBatch_self hs.coherent)
  · have hold : b < s.graph.batches.size := Nat.lt_of_le_of_ne (Nat.le_of_lt_succ hb) hfresh
    exact (h.reckons b hold).of_tally hheld hmisses fun held hcount =>
      htally held (hcount.startBatch hold)

/-- A node that is added joins the count of its batch. -/
theorem add (h : s.Reckoning) (hs : s.Orderly) {i : Nat} {b : Builder}
    (hi : s.crews[i]? = some (.adding b)) (work : Work κ) (profile : Option Profile) {c : BatchId}
    (hc : c < s.graph.batches.size) (hmisses : (s.add i b work profile).Misses c ↔ s.Misses c) :
    (s.add i b work profile).Reckons c := by
  by_cases hne : b.batch = c
  · subst hne
    obtain ⟨missed, hcount, hzero⟩ := h.reckons b.batch hc
    have hone := Exact.held_of_holds hs (hs.staffed.holds i b (Crew.builderAt_of_adding hi))
    have hsame : (s.add i b work profile).held b.batch = s.held b.batch := rfl
    rw [hone, Nat.add_comm] at hcount
    refine ⟨missed, ?_, by rwa [hmisses]⟩
    rw [hsame, hone, Nat.add_comm]
    exact hcount.addNode_self hc work profile
  · exact (h.reckons c hc).of_tally rfl hmisses fun held hcount =>
      hcount.addNode_of_ne hne work profile

/-- A submission that ends is no longer counted. -/
theorem close (h : s.Reckoning) (hs : s.Orderly) {k : Nat} {b : BatchId}
    (hk : s.submissions[k]? = some ⟨b, [], .underWay⟩) {c : BatchId}
    (hc : c < s.graph.batches.size) (hmisses : (s.close k b).Misses c ↔ s.Misses c) :
    (s.close k b).Reckons c := by
  have hset : (s.close k b).submissions = s.submissions.setIfInBounds k ⟨b, [], .ended⟩ := rfl
  have hended := hasEnded_set hk hset nofun rfl
  by_cases hne : b = c
  · subst hne
    obtain ⟨missed, hcount, hzero⟩ := h.reckons b hc
    rw [Exact.held_of_underWay hs hk nofun, Nat.add_comm] at hcount
    have hnone : (s.close k b).held b = 0 := if_pos ((hended b).mpr (Or.inr ⟨rfl, rfl⟩))
    refine ⟨missed, ?_, by rwa [hmisses]⟩
    rw [hnone, Nat.zero_add]
    exact hcount.finishOne_self hc
  · have hsame : (s.close k b).held c = s.held c := by
      unfold held
      rw [Bool.eq_iff_iff.mpr ((hended c).trans (or_iff_left fun hself => hne hself.2.symm))]
    exact (h.reckons c hc).of_tally hsame hmisses fun held hcount => hcount.finishOne_of_ne hne

/-- The batch of a submission that begins goes on to count it. -/
theorem submit (h : s.Reckoning) (hs : s.Orderly) (i : Nat) (b : Builder) (next : Builder → Crew)
    {c : BatchId} (hc : c < (s.submit i b next).graph.batches.size)
    (hmisses : (s.submit i b next).Misses c ↔ s.Misses c) : (s.submit i b next).Reckons c := by
  have hsize : (s.submit i b next).graph.batches.size = s.graph.batches.size + 1 := by
    rw [← Graph.size_batches_startBatch]
    exact Graph.size_batches_updateBatch s.graph.startBatch.1 b.batch _
  have hended (c : BatchId) : (s.submit i b next).hasEnded c = s.hasEnded c := by
    simp [hasEnded, Yard.submit]
  rw [hsize] at hc
  exact h.startBatch hs hc (held_congr (fun c => by rw [hended]) c) hmisses
    fun held hcount => hcount.arm b.batch

/-- A node that completes is not counted any more, unless it hands over an inverted range: then its
batch is not told. -/
theorem finishAt (h : s.Reckoning) (hs : s.Orderly) (ha : s.Attentive) (hw : s.Worked)
    (hgrain : 0 < s.system.grain) {stage : Stage} {position : Nat} {job : Job κ}
    (hjob : (s.jobsAt stage)[position]? = some job) {b : BatchId}
    (hb : b < s.graph.batches.size)
    (hmisses : (s.finishAt stage position job).Misses b ↔
      ((s.graph.node job.node).batch = b ∧
        ∃ n ∈ s.graph.passedOnBy (Graph.handJob s.system.grain) job.node, s.IsInverted n) ∨
      s.Misses b) :
    (s.finishAt stage position job).Reckons b := by
  have hpos : 0 < s.load job.node := load_pos_of_jobsAt hjob
  have hfinished := hs.coherent.finished (Graph.faithful_handJob s.system.grain) hpos
  have hfault := (hw.finishPart_inverted hs ha hgrain hpos).2
  obtain ⟨hgraph, _, _, _, hsubmissions⟩ := finishAt_eq s stage position job
  have hheld : (s.finishAt stage position job).held b = s.held b := by
    unfold held hasEnded
    rw [hsubmissions]
  obtain ⟨missed, hcount, hzero⟩ := h.reckons b hb
  unfold Reckons
  rw [hheld, hgraph]
  generalize s.graph.finishPart (Graph.handJob s.system.grain) job.node = handed at hfinished hfault ⊢
  have hfaultless (hnone : handed.fault = none) :
      (s.finishAt stage position job).Misses b ↔ s.Misses b := by
    rw [hmisses]
    exact or_iff_right fun ⟨_, n, hn, hinverted⟩ => hfault.mp hnone n hn hinverted
  cases hfinished with
  | part _ => exact ⟨missed, hcount.updateNode _, by rwa [hfaultless rfl]⟩
  | last _ hwalk hnone =>
    exact ⟨missed, hcount.completed hs.coherent hpos hwalk.released, by rwa [hfaultless hnone]⟩
  | stopped _ hwalk hsome =>
    have hinverted : ∃ n ∈ s.graph.passedOnBy (Graph.handJob s.system.grain) job.node,
        s.IsInverted n := by
      by_contra hno
      exact hsome (hfault.mpr fun n hn hyes => hno ⟨n, hn, hyes⟩)
    have hretired := hcount.retired hs.coherent hpos hwalk.released
    rw [Nat.add_assoc] at hretired
    refine ⟨_, hretired, ?_⟩
    rw [hmisses]
    by_cases hbatch : (s.graph.node job.node).batch = b
    · rw [if_pos hbatch]
      exact iff_of_false (Nat.succ_ne_zero missed) fun hno => hno (Or.inl ⟨hbatch, hinverted⟩)
    · rw [if_neg hbatch, or_iff_right fun hyes => hbatch hyes.1]
      exact hzero

/-- No node hands others over. -/
theorem of_same (h : s.Reckoning) (hs : s.Orderly) (ha : s.Attentive) (hdoes : Does s move s')
    (hhanded : ∀ n i : Nat, (n, some i) ∈ s'.handovers ↔ (n, some i) ∈ s.handovers)
    (hreckons : ∀ b : Nat, b < s'.graph.batches.size → (s'.Misses b ↔ s.Misses b) → s'.Reckons b) :
    s'.Reckoning where
  complete n i hn := (hs.grows hdoes).later.isComplete i (h.complete n i ((hhanded n i).mp hn))
  reckons b hb := by
    apply hreckons b hb
    rw [h.misses_iff [] 0 hs ha hdoes (by simpa using hhanded)]
    simp

/-- A submission goes on without ending, which leaves everything counted as it was. -/
theorem set (h : s.Reckoning) (hs : s.Orderly) (ha : s.Attentive) (hdoes : Does s move s') {k : Nat}
    {sub sub' : Submission} (hk : s.submissions[k]? = some sub)
    (hset : s'.submissions = s.submissions.setIfInBounds k sub') (hphase : sub.phase ≠ .ended)
    (hphase' : sub'.phase ≠ .ended) (hbatch : sub'.batch = sub.batch)
    (hhanded : ∀ n i : Nat, (n, some i) ∈ s'.handovers ↔ (n, some i) ∈ s.handovers)
    (hsize : s'.graph.batches.size = s.graph.batches.size)
    (htally : ∀ b held : Nat, s.graph.Tally b held → s'.graph.Tally b held) : s'.Reckoning := by
  apply h.of_same hs ha hdoes hhanded
  intro b hb hmisses
  rw [hsize] at hb
  refine (h.reckons b hb).of_tally (held_congr (fun c => ?_) b) hmisses (htally b)
  rw [hasEnded_set hk hset hphase hbatch]
  exact or_iff_left fun hyes => hphase' hyes.1

/-- A part finishes, and its node is complete if it hands others over. -/
theorem finish (h : s.Reckoning) (hs : s.Orderly) (ha : s.Attentive) (hw : s.Worked)
    (hgrain : 0 < s.system.grain) {stage : Stage} {position : Nat} {job : Job κ}
    (hjob : (s.jobsAt stage)[position]? = some job) : (s.finishAt stage position job).Reckoning := by
  have hdoes := Does.finish hjob
  have hlt := (hs.coherent.of_load_pos (load_pos_of_jobsAt hjob)).1
  have hbatch := (hs.grows hdoes).batchOf job.node hlt
  have hsteady := ((hdoes.steps hs trivial).coherent_steady hs.coherent).2
  have hinverted (n : NodeId) : (s.finishAt stage position job).IsInverted n ↔ s.IsInverted n :=
    isInverted_congr (additions_finishAt ..) (discards_finishAt ..) n
  have hhanded (n i : Nat) : (n, some i) ∈ (s.finishAt stage position job).handovers ↔
      (n ∈ s.graph.passedOnBy (Graph.handJob s.system.grain) job.node ∧ i = job.node) ∨
        (n, some i) ∈ s.handovers := by
    rw [handovers_finishAt]
    simp [eq_comm]
  constructor
  · intro n i hn
    rcases (hhanded n i).mp hn with ⟨hnew, rfl⟩ | hold
    · refine (isComplete_finishAt hs hjob).mpr (Or.inr ⟨rfl, ?_⟩)
      by_contra hparts
      unfold Graph.passedOnBy at hnew
      rw [if_neg hparts] at hnew
      exact absurd hnew List.not_mem_nil
    · exact (hs.grows hdoes).later.isComplete i (h.complete n i hold)
  · intro b hb
    apply h.finishAt hs ha hw hgrain hjob (hb.trans_eq hsteady.batches)
    rw [h.misses_iff _ _ hs ha hdoes hhanded, hbatch]
    simp only [hinverted]

/-- Every move keeps this so. -/
theorem does (h : s.Reckoning) (hs : s.Orderly) (ha : s.Attentive) (hw : s.Worked)
    (hgrain : 0 < s.system.grain) (hdoes : Does s move s') : s'.Reckoning := by
  have hhand := Graph.faithful_handJob (κ := κ) s.system.grain
  have hsize (n : NodeId) :
      (Graph.handJob s.system.grain (s.graph.claim n).1 n).state.batches.size =
        s.graph.batches.size := by
    rcases hhand.state (s.graph.claim n).1 n with heq | heq <;> rw [heq] <;> rfl
  have hsame := h.of_same hs ha hdoes
  have hdoes' := hdoes
  cases hdoes with
  | keep => exact h
  | newBuilder =>
    apply hsame (fun _ _ => Iff.rfl)
    intro b hb hmisses
    have hb' : b < s.graph.batches.size + 1 := by rwa [← Graph.size_batches_startBatch]
    exact h.startBatch hs hb' rfl hmisses fun _ hcount => hcount
  | add hi work profile =>
    refine hsame (fun _ _ => Iff.rfl) fun b hb hmisses => h.add hs hi work profile ?_ hmisses
    exact hb.trans_eq (Graph.size_batches_updateBatch ..)
  | wire _ _ hwired _ =>
    apply hsame (fun _ _ => Iff.rfl)
    intro b hb hmisses
    have hold := h.reckons b (by rwa [← hwired.batches])
    exact hold.of_tally rfl hmisses fun _ hcount => hcount.wired hwired
  | reset | drop _ _ | begin _ | watch _ =>
    exact hsame (fun _ _ => Iff.rfl) fun b hb hmisses =>
      (h.reckons b hb).of_tally rfl hmisses fun _ hcount => hcount
  | discard _ _ =>
    exact hsame (fun _ _ => Iff.rfl) fun b hb hmisses =>
      (h.reckons b hb).of_tally rfl hmisses fun _ hcount => hcount.updateNode _
  | execute _ => exact hsame (fun _ _ => Iff.rfl) fun b hb hmisses => h.submit hs _ _ _ hb hmisses
  | abandon _ => exact hsame (fun _ _ => Iff.rfl) fun b hb hmisses => h.submit hs _ _ _ hb hmisses
  | skip hk _ =>
    exact h.set hs ha hdoes' hk rfl nofun nofun rfl (fun _ _ => Iff.rfl) rfl fun _ _ hcount => hcount
  | put hk _ _ _ =>
    exact h.set hs ha hdoes' hk rfl nofun nofun rfl (by simp [handovers, Note.handover]) (hsize _)
      fun b held hcount => (hcount.claim _).hand hhand _
  | stall hk _ _ _ =>
    exact h.set hs ha hdoes' hk rfl nofun nofun rfl (by simp [handovers, Note.handover]) (hsize _)
      fun b held hcount => (hcount.claim _).hand hhand _
  | close hk =>
    refine hsame (fun _ _ => Iff.rfl) fun b hb hmisses => h.close hs hk ?_ hmisses
    exact hb.trans_eq (Graph.size_batches_updateBatch ..)
  | split _ hsplit =>
    obtain ⟨rfl, _, _⟩ := Graph.splitJob_spec hsplit
    exact hsame (fun _ _ => Iff.rfl) fun b hb hmisses =>
      (h.reckons b hb).of_tally rfl hmisses fun _ hcount => hcount.updateNode _
  | finish hjob => exact h.finish hs ha hw hgrain hjob

/-- There are no batches at the start. -/
theorem start (tracker : Tracker) (grain : Nat) : (start tracker grain : Yard κ ε).Reckoning where
  complete _ _ hn := absurd hn List.not_mem_nil
  reckons _ hb := absurd hb (Nat.not_lt_zero _)

end Reckoning

end Yard

end HazardFlow
