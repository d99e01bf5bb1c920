import HazardFlow.Proofs.Graph.Attendance
import HazardFlow.Proofs.Yard.Order

/-!
# Nodes are handed over once

A submission and the parts that finish meanwhile both look at the nodes of its batch: the one arms
the batch and then looks at in-degrees, the others lower in-degrees and then look at whether the
batch is armed. Whichever comes later finds a node that waits for nothing, and the claim goes to
one of them. So no node is left behind, and none is handed over twice.
-/

namespace HazardFlow

variable {κ ε : Type}

namespace Graph

variable {grain : Nat} {g g' : Graph κ} {load load' : NodeId → Nat} {due : List NodeId}

/-- A step keeps all nodes attended to. -/
theorem Step.attended (h : Step grain g load g' load') (hs : g.Coherent load)
    (ha : g.Attended due) : g'.Attended due := by
  have hhand := faithful_handJob (κ := κ) grain
  have hclaim {n : Nat} (hn : n < g.nodes.size) :
      (handJob grain (g.claim n).1 n).state.Attended due := by
    have hclaimed : (g.claim n).1.Attended due :=
      ha.updateNode n (fun _ => rfl) (fun _ => rfl) (fun _ hfalse => nomatch hfalse) fun _ => rfl
    refine hclaimed.hand hhand ?_ ?_
    · exact (size_nodes_updateNode ..).symm ▸ hn
    · rw [claim, node_updateNode_self _ hn]
  cases h with
  | split _ => exact ha.updateNode _
  | finish hn _ => exact ha.finishPart hs hhand hn
  | die hn _ _ => exact ha.finishPart hs hhand hn
  | dispatch hn _ _ _ _ => exact hclaim hn
  | stall hn _ _ _ _ => exact hclaim hn

/-- So do any number of steps. -/
theorem Steps.attended (h : Steps grain g load g' load') (hs : g.Coherent load)
    (ha : g.Attended due) : g'.Attended due := by
  induction h with
  | refl => exact ha
  | tail hbefore hlast ih => exact hlast.attended (hbefore.coherent_steady hs).1 ih

end Graph

namespace Note

/-- The node that was handed over. -/
def handedNode : Note κ → Option NodeId
  | .handed n _ => some n
  | _ => none

/-- The first job that was made of a node. -/
def firstJob : Note κ → Option (Job κ)
  | .made job => some job
  | _ => none

/-- The fault that came up. -/
def faultOf : Note κ → Option Fault
  | .fault f => some f
  | _ => none

end Note

namespace Yard

variable {s s' : Yard κ ε} {move : Move κ}

/-- The nodes handed over so far, newest first. -/
def handedOver (s : Yard κ ε) : List NodeId := s.notes.filterMap Note.handedNode

/-- The first jobs made so far, newest first. -/
def firstJobs (s : Yard κ ε) : List (Job κ) := s.notes.filterMap Note.firstJob

/-- The faults that have come up so far, newest first. -/
def faults (s : Yard κ ε) : List Fault := s.notes.filterMap Note.faultOf

/-- The nodes that submissions have yet to look at. -/
def due (s : Yard κ ε) : List NodeId := s.submissions.toList.flatMap Submission.due

theorem mem_due {n : NodeId} :
    n ∈ s.due ↔ ∃ (k : Nat) (sub : Submission), s.submissions[k]? = some sub ∧ n ∈ sub.due := by
  unfold due
  simp only [List.mem_flatMap, Array.mem_toList_iff, Array.mem_iff_getElem?]
  exact ⟨fun ⟨sub, ⟨k, hk⟩, hn⟩ => ⟨k, sub, hk, hn⟩, fun ⟨k, sub, hk, hn⟩ => ⟨sub, ⟨k, hk⟩, hn⟩⟩

/-- A submission that goes on leaves the nodes of the others due. -/
theorem mem_due_of_set {k : Nat} {sub sub' : Submission} (hk : s.submissions[k]? = some sub)
    (hs' : s'.submissions = s.submissions.setIfInBounds k sub') {n : NodeId} (hn : n ∈ s.due)
    (hnot : n ∉ s'.due) : n ∈ sub.due ∧ n ∉ sub'.due := by
  rw [mem_due, hs'] at hnot
  obtain ⟨l, other, hl, hmem⟩ := mem_due.mp hn
  by_cases hlk : l = k
  · subst hlk
    obtain rfl := Option.some.inj (hk.symm.trans hl)
    refine ⟨hmem, fun hstill => hnot ⟨l, sub', ?_, hstill⟩⟩
    exact Array.getElem?_setIfInBounds_self_of_lt (Array.getElem?_eq_some_iff.mp hk).1
  · refine absurd ⟨l, other, ?_, hmem⟩ hnot
    exact (Array.getElem?_setIfInBounds_ne (Ne.symm hlk)).trans hl

section FinishAt

variable (s : Yard κ ε) (stage : Stage) (position : Nat) (job : Job κ)

/-- What is noted down when a part finishes. -/
theorem notes_finishAt : (s.finishAt stage position job).notes =
    (s.graph.finishPart (Graph.handJob s.system.grain) job.node).fault.toList.map .fault ++
      ((s.graph.finishPart (Graph.handJob s.system.grain) job.node).items.map .made).reverse ++
      ((s.graph.passedOnBy (Graph.handJob s.system.grain) job.node).map
        (.handed · (some job.node))).reverse ++ (s.noteDrop stage job).notes := by
  cases stage <;> rfl

/-- What can be read off the notes of a part that finishes. -/
theorem filterMap_finishAt {α : Type} (f : Note κ → Option α) :
    (s.finishAt stage position job).notes.filterMap f =
      (s.graph.finishPart (Graph.handJob s.system.grain) job.node).fault.toList.filterMap
          (fun fault => f (.fault fault)) ++
        ((s.graph.finishPart (Graph.handJob s.system.grain) job.node).items.filterMap
          fun made => f (.made made)).reverse ++
        ((s.graph.passedOnBy (Graph.handJob s.system.grain) job.node).filterMap
          fun n => f (.handed n (some job.node))).reverse ++
        (s.noteDrop stage job).notes.filterMap f := by
  rw [notes_finishAt, List.filterMap_append, List.filterMap_append, List.filterMap_append,
    List.filterMap_reverse, List.filterMap_reverse, List.filterMap_map, List.filterMap_map,
    List.filterMap_map]
  rfl

/-- The drop of a job is often of no interest. -/
theorem filterMap_noteDrop {α : Type} {f : Note κ → Option α}
    (hretired : f (.retired job) = none) :
    (s.noteDrop stage job).notes.filterMap f = s.notes.filterMap f := by
  cases stage with
  | queued => exact List.filterMap_cons_none hretired
  | running | watched => rfl

/-- The nodes that a part passes on are handed over. -/
theorem handedOver_finishAt : (s.finishAt stage position job).handedOver =
    (s.graph.passedOnBy (Graph.handJob s.system.grain) job.node).reverse ++ s.handedOver := by
  unfold handedOver
  rw [filterMap_finishAt, filterMap_noteDrop s stage job rfl]
  simp [Note.handedNode]

/-- The jobs made of them are first jobs. -/
theorem firstJobs_finishAt : (s.finishAt stage position job).firstJobs =
    (s.graph.finishPart (Graph.handJob s.system.grain) job.node).items.reverse ++ s.firstJobs := by
  unfold firstJobs
  rw [filterMap_finishAt, filterMap_noteDrop s stage job rfl]
  simp [Note.firstJob]

theorem faults_finishAt : (s.finishAt stage position job).faults =
    (s.graph.finishPart (Graph.handJob s.system.grain) job.node).fault.toList ++ s.faults := by
  unfold faults
  rw [filterMap_finishAt, filterMap_noteDrop s stage job rfl]
  simp [Note.faultOf]

end FinishAt

/-- Nodes are attended to, and what was handed over is what was claimed. -/
structure Attentive (s : Yard κ ε) : Prop where
  attended : s.graph.Attended s.due
  nodup : s.handedOver.Nodup
  mem_handedOver : ∀ n : Nat, n ∈ s.handedOver ↔ (s.graph.node n).claimed = true
  firstJobs : (s.firstJobs.map Job.node).Sublist s.handedOver
  length : s.handedOver.length = s.firstJobs.length + s.faults.length
  ofCursor : ∀ fault ∈ s.faults, fault.OfCursor

namespace Attentive

/-- Nodes are claimed and handed over, and jobs are made of them up to one that a fault stops
at. -/
theorem of_handed (h : s.Attentive) (nodes : List NodeId) (jobs : List (Job κ))
    (faults : List Fault) (hattended : s'.graph.Attended s'.due) (hnodes : nodes.Nodup)
    (hfree : ∀ n ∈ nodes, (s.graph.node n).claimed = false)
    (hclaimed : ∀ n : Nat, (s'.graph.node n).claimed = true ↔
      (s.graph.node n).claimed = true ∨ n ∈ nodes)
    (hhanded : s'.handedOver = nodes ++ s.handedOver) (hjobs : s'.firstJobs = jobs ++ s.firstJobs)
    (hfaults : s'.faults = faults ++ s.faults) (hsublist : (jobs.map Job.node).Sublist nodes)
    (hlength : nodes.length = jobs.length + faults.length) (hcursor : ∀ fault ∈ faults, fault.OfCursor) :
    s'.Attentive where
  attended := hattended
  nodup := by
    rw [hhanded, List.nodup_append]
    refine ⟨hnodes, h.nodup, fun n hn m hm heq => ?_⟩
    subst heq
    exact Bool.false_ne_true ((hfree n hn).symm.trans ((h.mem_handedOver n).mp hm))
  mem_handedOver n := by rw [hhanded, List.mem_append, hclaimed, h.mem_handedOver, Or.comm]
  firstJobs := by
    rw [hjobs, hhanded, List.map_append]
    exact hsublist.append h.firstJobs
  length := by
    rw [hhanded, hjobs, hfaults, List.length_append, List.length_append, List.length_append, hlength,
      h.length]
    omega
  ofCursor fault hfault := by
    rw [hfaults, List.mem_append] at hfault
    exact hfault.elim (hcursor fault) (h.ofCursor fault)

/-- Nothing is claimed and nothing is handed over. -/
theorem of_same (h : s.Attentive) (hattended : s'.graph.Attended s'.due)
    (hclaimed : ∀ n : Nat, (s'.graph.node n).claimed = (s.graph.node n).claimed)
    (hhanded : s'.handedOver = s.handedOver) (hjobs : s'.firstJobs = s.firstJobs)
    (hfaults : s'.faults = s.faults) : s'.Attentive := by
  refine h.of_handed [] [] [] hattended List.nodup_nil (fun n hn => absurd hn List.not_mem_nil)
    (fun n => ?_) hhanded hjobs hfaults (List.Sublist.refl []) rfl
    fun fault hfault => absurd hfault List.not_mem_nil
  rw [hclaimed, or_iff_left List.not_mem_nil]

/-- Beginning a submission makes the nodes of its batch due. -/
theorem submit (h : s.Attentive) (hs : s.Orderly) {i : Nat} {b : Builder}
    (hi : Crew.builderAt s.crews i = some b) (next : Builder → Crew) :
    (s.submit i b next).Attentive := by
  have hb := hs.staffed.holds i b hi
  have hdue : (s.submit i b next).due = s.due ++ b.nodes := by
    simp [due, Yard.submit]
  refine h.of_same ?_ (fun _ => rfl) rfl rfl rfl
  rw [hdue]
  exact (h.attended.startBatch hs.coherent).arm fun n hn hbatch => (hb.mem_nodes n).mpr ⟨hn, hbatch⟩

/-- A node that was looked at and not claimed was claimed before or waits for something. -/
theorem skip (h : s.Attentive) {k : Nat} {b : BatchId} {n : NodeId} {due : List NodeId}
    (hk : s.submissions[k]? = some ⟨b, n :: due, .underWay⟩)
    (hskip : (s.graph.node n).inDegree ≠ 0 ∨ (s.graph.node n).claimed = true) :
    Attentive { s with submissions := s.submissions.setIfInBounds k { batch := b, due } } := by
  refine h.of_same (h.attended.of_due fun m hm hnot => ?_) (fun _ => rfl) rfl rfl rfl
  obtain ⟨hmem, hgone⟩ := mem_due_of_set hk rfl hm hnot
  obtain rfl : m = n := (List.mem_cons.mp hmem).resolve_right hgone
  exact hskip.symm

/-- The submission of its batch hands a node over, or a fault stops it there. -/
theorem dispatch (h : s.Attentive) (hs : s.Orderly) {k : Nat} {b : BatchId} {n : NodeId}
    {due : List NodeId} {phase : Phase} (hk : s.submissions[k]? = some ⟨b, n :: due, .underWay⟩)
    (jobs : List (Job κ)) (faults : List Fault)
    (hunclaimed : (s.graph.node n).claimed = false)
    (hattended : s'.graph.Attended s.due)
    (hgraph : s'.graph = (Graph.handJob s.system.grain (s.graph.claim n).1 n).state)
    (hsubmissions : s'.submissions = s.submissions.setIfInBounds k ⟨b, due, phase⟩)
    (hhanded : s'.handedOver = n :: s.handedOver) (hjobs : s'.firstJobs = jobs ++ s.firstJobs)
    (hfaults : s'.faults = faults ++ s.faults) (hsublist : (jobs.map Job.node).Sublist [n])
    (hlength : 1 = jobs.length + faults.length) (hcursor : ∀ fault ∈ faults, fault.OfCursor) :
    s'.Attentive := by
  have hn : n < s.graph.nodes.size :=
    ((hs.scheduled.fits k _ hk).due n List.mem_cons_self).1
  have hclaimed (m : Nat) : (s'.graph.node m).claimed = true ↔
      (s.graph.node m).claimed = true ∨ m ∈ [n] := by
    rw [hgraph, (Graph.faithful_handJob s.system.grain).claimed, Graph.claimed_claim hn,
      List.mem_singleton]
  refine h.of_handed [n] jobs faults ?_ (List.nodup_singleton n) ?_ hclaimed hhanded hjobs hfaults
    hsublist hlength hcursor
  · refine hattended.of_due fun m hm hnot => ?_
    obtain ⟨hmem, hgone⟩ := mem_due_of_set hk hsubmissions hm hnot
    obtain rfl : m = n := (List.mem_cons.mp hmem).resolve_right hgone
    exact Or.inl ((hclaimed m).mpr (Or.inr List.mem_cons_self))
  · intro m hm
    rwa [List.mem_singleton.mp hm]

/-- The last part of a node hands over the nodes that it releases, up to one that a fault stops
at. -/
theorem finishAt (h : s.Attentive) (hs : s.Orderly) {stage : Stage} {position : Nat} {job : Job κ}
    (hjob : (s.jobsAt stage)[position]? = some job) : (s.finishAt stage position job).Attentive := by
  have hhand := Graph.faithful_handJob (κ := κ) s.system.grain
  have hpos : 0 < s.load job.node := load_pos_of_mem ((jobs_without hjob).mem_iff.mpr (by simp))
  have hfinished := hs.coherent.finished hhand hpos
  obtain ⟨hclaimed, hnodup, hfree⟩ := hfinished.claimed
  obtain ⟨hitems, hlength⟩ := hfinished.items
  obtain ⟨hgraph, _, _, _, hsubmissions⟩ := finishAt_eq s stage position job
  have hdue : (s.finishAt stage position job).due = s.due := by
    unfold due
    rw [hsubmissions]
  refine h.of_handed _ _ _ ?_ (List.nodup_reverse.mpr hnodup)
    (fun n hn => hfree n (List.mem_reverse.mp hn)) (fun n => ?_)
    (handedOver_finishAt s stage position job) (firstJobs_finishAt s stage position job)
    (faults_finishAt s stage position job) ?_ ?_ fun fault hfault => ?_
  · rw [hdue]
    exact (step_finishAt hjob).attended hs.coherent h.attended
  · rw [hgraph, hclaimed, List.mem_reverse]
  · rw [List.map_reverse]
    exact hitems.sublist.reverse
  · rw [List.length_reverse, List.length_reverse, hlength]
  · exact h.attended.ofCursor_of_finishPart hs.coherent hpos (Option.mem_toList.mp hfault)

/-- Every move keeps this so. -/
theorem does (h : s.Attentive) (hs : s.Orderly) (hdoes : Does s move s') : s'.Attentive := by
  have hsteps (hruns : move.Runs) : s'.graph.Attended s.due :=
    (hdoes.steps hs hruns).attended hs.coherent h.attended
  cases hdoes with
  | keep => exact h
  | newBuilder =>
    exact h.of_same (h.attended.startBatch hs.coherent) (fun _ => rfl) rfl rfl rfl
  | @add i b hi work profile =>
    have hb := hs.staffed.holds i b (Crew.builderAt_of_adding hi)
    exact h.of_same (h.attended.addNode hb.unarmed work profile)
      (Graph.claimed_addNode (s.graph.register b.batch) work b.batch profile) rfl rfl rfl
  | wire _ harmed hwired _ =>
    exact h.of_same (h.attended.wired hwired harmed) hwired.claimed rfl rfl rfl
  | reset => exact h.of_same h.attended (fun _ => rfl) rfl rfl rfl
  | execute hi => exact h.submit hs (Crew.builderAt_of_adding hi) _
  | drop _ _ => exact h.of_same h.attended (fun _ => rfl) rfl rfl rfl
  | @discard i b n left hi _ =>
    exact h.of_same (h.attended.setWork n .idle)
      (fun m => Graph.field_updateNode Node.claimed m) rfl rfl rfl
  | abandon hi => exact h.submit hs (Crew.builderAt_of_leaving hi) _
  | skip hk hskip => exact h.skip hk hskip
  | @put k b n due job hk hfree hunclaimed hjob =>
    have hnode : [job].map Job.node = [n] := by
      rw [List.map_singleton, (Graph.faithful_handJob s.system.grain).item _ n job hjob]
    refine h.dispatch hs hk [job] [] hunclaimed (hsteps trivial) rfl rfl rfl rfl rfl ?_ rfl
      fun fault hfault => absurd hfault List.not_mem_nil
    rw [hnode]
  | @stall k b n due fault hk hfree hunclaimed hjob =>
    have hn := ((hs.scheduled.fits k _ hk).due n List.mem_cons_self).1
    obtain ⟨work, hwork, _⟩ := h.attended.stocked n hn hunclaimed
    refine h.dispatch hs hk [] [fault] hunclaimed (hsteps trivial) rfl rfl rfl rfl rfl
      (List.nil_sublist _) rfl fun other hother => ?_
    obtain rfl := List.mem_singleton.mp hother
    have hclaim : ((s.graph.claim n).1.node n).work = some work :=
      (Graph.field_updateNode Node.work n).trans hwork
    exact Graph.ofCursor_of_takeJob hclaim hjob
  | @close k b hk =>
    refine h.of_same ((h.attended.finishOne b).of_due fun m hm hnot => ?_) (fun _ => rfl) rfl rfl rfl
    have hset : (s.close k b).submissions = s.submissions.setIfInBounds k ⟨b, [], .ended⟩ := rfl
    exact absurd (mem_due_of_set hk hset hm hnot).1 List.not_mem_nil
  | split hjob hsplit =>
    obtain ⟨rfl, _, _⟩ := Graph.splitJob_spec hsplit
    exact h.of_same (hsteps trivial) (fun m => Graph.field_updateNode Node.claimed m) rfl rfl rfl
  | begin _ => exact h.of_same (hsteps trivial) (fun _ => rfl) rfl rfl rfl
  | watch _ => exact h.of_same (hsteps trivial) (fun _ => rfl) rfl rfl rfl
  | finish hjob => exact h.finishAt hs hjob

/-- Nothing has been handed over at the start. -/
theorem start (tracker : Tracker) (grain : Nat) : (start tracker grain : Yard κ ε).Attentive where
  attended := .empty
  nodup := List.nodup_nil
  mem_handedOver n := by
    have hnode : (Yard.start tracker grain : Yard κ ε).graph.node n = default :=
      Graph.node_of_size_le (Nat.zero_le n)
    rw [hnode]
    exact iff_of_false List.not_mem_nil Bool.false_ne_true
  firstJobs := List.Sublist.refl []
  length := rfl
  ofCursor _ h := absurd h List.not_mem_nil

end Attentive

/-- Every node is handed over once, when its batch is armed and it waits for nothing. -/
structure HandsOverOnce (s : Yard κ ε) : Prop where
  /-- A claimed node may be dispatched and waits for nothing. -/
  claimed : ∀ n : Nat, (s.graph.node n).claimed = true →
    s.graph.isArmed n = true ∧ (s.graph.node n).inDegree = 0
  /-- A node that may be dispatched and waits for nothing is claimed, or the submission of its batch
  has yet to look at it. -/
  unclaimed : ∀ n : Nat, n < s.graph.nodes.size → s.graph.isArmed n = true →
    (s.graph.node n).inDegree = 0 → (s.graph.node n).claimed = false →
    ∃ (k : Nat) (sub : Submission), s.submissions[k]? = some sub ∧
      sub.batch = (s.graph.node n).batch ∧ n ∈ sub.due
  /-- When a submission has looked at all of its nodes, those are claimed that wait for nothing. -/
  submitted : ∀ (k : Nat) (sub : Submission), s.submissions[k]? = some sub → sub.due = [] →
    ∀ n : Nat, n < s.graph.nodes.size → (s.graph.node n).batch = sub.batch →
      ((s.graph.node n).claimed = true ↔ (s.graph.node n).inDegree = 0)
  /-- No node is handed over twice, be it by a submission or by a part that finishes. -/
  nodup : s.handedOver.Nodup
  /-- The nodes handed over are those that are claimed. -/
  mem_handedOver : ∀ n : Nat, n ∈ s.handedOver ↔ (s.graph.node n).claimed = true
  /-- First jobs are made of nodes handed over, in this order and of each at most once. -/
  firstJobs : (s.firstJobs.map Job.node).Sublist s.handedOver
  /-- One is made of each, but where a fault comes up. -/
  length : s.handedOver.length = s.firstJobs.length + s.faults.length
  /-- No fault but that of a range without a cursor comes up: works are never taken twice, lists
  never closed twice, no submitted node is wired and no submitted work discarded. -/
  ofCursor : ∀ fault ∈ s.faults, fault = .cursorInverted ∨ fault = .grainZero
  /-- A complete node waits for nothing. -/
  complete : ∀ n : Nat, s.graph.isComplete n = true → (s.graph.node n).inDegree = 0

/-- In an orderly yard that attends to its nodes, every node is handed over once. -/
theorem Attentive.handsOverOnce (h : s.Attentive) (hs : s.Orderly) : s.HandsOverOnce where
  claimed n hn := ⟨hs.coherent.armed n hn, hs.coherent.free n hn⟩
  unclaimed n hn harmed hzero hc := by
    have hdue : n ∈ s.due := by
      by_contra hnot
      exact h.attended.waits n hn harmed hc hnot hzero
    obtain ⟨k, sub, hk, hmem⟩ := mem_due.mp hdue
    exact ⟨k, sub, hk, ((hs.scheduled.fits k sub hk).due n hmem).2.symm, hmem⟩
  submitted k sub hk hnone n hn hbatch := by
    refine ⟨hs.coherent.free n, fun hzero => ?_⟩
    by_contra hc
    rw [Bool.not_eq_true] at hc
    have harmed : s.graph.isArmed n = true := by
      unfold Graph.isArmed
      rw [hbatch, (hs.scheduled.fits k sub hk).armed]
    refine h.attended.waits n hn harmed hc (fun hdue => ?_) hzero
    -- A node of the batch could only be due to the submission of the batch, which has none left.
    obtain ⟨l, other, hl, hmem⟩ := mem_due.mp hdue
    have hother := ((hs.scheduled.fits l other hl).due n hmem).2
    by_cases hlk : l = k
    · subst hlk
      obtain rfl := Option.some.inj (hk.symm.trans hl)
      rw [hnone] at hmem
      exact List.not_mem_nil hmem
    · exact hs.scheduled.apart l k other sub hlk hl hk (hother.symm.trans hbatch)
  nodup := h.nodup
  mem_handedOver := h.mem_handedOver
  firstJobs := h.firstJobs
  length := h.length
  ofCursor := h.ofCursor
  complete n hn := hs.coherent.free n (hs.coherent.claimed_of_isComplete n hn)

/-- However the submissions of builders and the parts that finish take turns, every node is handed
over once, and a node that is complete stays so and waits for nothing. -/
theorem handsOverOnce_run {tracker : Tracker} {count : Nat}
    (htracker : Tracker.create count = .ok tracker) (grain : Nat) (moves more : List (Move κ)) :
    ((start tracker grain : Yard κ ε).run moves).HandsOverOnce ∧
      ∀ n : Nat, ((start tracker grain : Yard κ ε).run moves).graph.isComplete n = true →
        ((start tracker grain : Yard κ ε).run (moves ++ more)).graph.isComplete n = true ∧
        (((start tracker grain : Yard κ ε).run (moves ++ more)).graph.node n).inDegree = 0 := by
  have hrun (moves : List (Move κ)) : ((start tracker grain : Yard κ ε).run moves).Orderly ∧
      ((start tracker grain : Yard κ ε).run moves).Attentive :=
    (Orderly.start htracker grain).run Attentive moves (.start tracker grain)
      fun _ _ _ _ hs h hdoes => h.does hs hdoes
  obtain ⟨hs, h⟩ := hrun moves
  refine ⟨h.handsOverOnce hs, fun n hn => ?_⟩
  have hmore : ((start tracker grain : Yard κ ε).run (moves ++ more)).graph.isComplete n = true := by
    unfold run at hn ⊢
    rw [List.foldl_append]
    exact (hs.grows_run more).later.isComplete n hn
  obtain ⟨hs', h'⟩ := hrun (moves ++ more)
  exact ⟨hmore, (h'.handsOverOnce hs').complete n hmore⟩

/-- Node 1 waits for node 0 and node 2 of another builder for node 1. Node 0 finishes after the
batch of both was armed and before its submission comes to node 1, and node 1 finishes before the
batch of node 2 is armed. -/
def armingRace : Yard Unit Unit :=
  (start { shards := #[{}] } 1).run
    [.newBuilder, .newBuilder, .add 0 .idle none, .add 0 .idle none, .wire 1 (.edge 0),
      .add 1 (.range ⟨0, 2⟩ ()) none, .wire 2 (.edge 1), .execute 0, .dispatch 0, .begin 0,
      .finish .running 0, .dispatch 0, .begin 0, .finish .running 0, .execute 1, .close 0,
      .dispatch 1, .close 1]

/-- All three nodes are handed over once. -/
theorem handsOverOnce_armingRace : armingRace.HandsOverOnce ∧
    armingRace.handedOver = [2, 1, 0] ∧ armingRace.graph.isComplete 1 = true := by
  have htracker : Tracker.create 1 = .ok { shards := #[{}] } := rfl
  exact ⟨(handsOverOnce_run htracker 1 _ []).1, by decide +kernel, by decide +kernel⟩

end Yard

end HazardFlow
