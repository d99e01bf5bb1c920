import HazardFlow.Proofs.Schedule.Discarding
import HazardFlow.Proofs.Yard.Stops
import HazardFlow.Proofs.Yard.Uninterrupted

/-!
# Builders that are dropped

Dropping a builder leaves the system as executing it would, but that the works of its nodes are idle.
So no work that was discarded is ever run, and in all else the nodes go on like others: they wait for
their predecessors, are handed over when they wait for nothing, release their successors, and keep
nodes in order that are ordered through them.
-/

namespace HazardFlow

variable {κ ε : Type}

/-- The job that begins to run, if that is what is noted down. -/
def Note.beginning : Note κ → Option (Job κ)
  | .began job => some job
  | _ => none

/-- An idle job is not split. -/
theorem Graph.splitJob_idle {g : Graph κ} {job : Job κ} (h : job.task = .idle) :
    g.splitJob job = none := by
  unfold Graph.splitJob
  rw [h]

namespace Yard

open Crew (builderAt)

variable {s s' : Yard κ ε} {move : Move κ} {n i : Nat} {b : Builder}

/-- The jobs that began to run so far, newest first. -/
def beginnings (s : Yard κ ε) : List (Job κ) := s.notes.filterMap Note.beginning

/-- Jobs begin to run that are queued. -/
theorem Does.beginnings (h : Does s move s') : s'.beginnings = s.beginnings ∨
    ∃ job ∈ s.jobs, s'.beginnings = job :: s.beginnings := by
  cases h with
  | @begin position job hjob =>
    exact Or.inr ⟨job, (jobs_without hjob).mem_iff.mpr List.mem_cons_self, rfl⟩
  | finish _ =>
    refine Or.inl ?_
    unfold Yard.beginnings
    rw [filterMap_finishAt, filterMap_noteDrop _ _ _ rfl]
    simp [Note.beginning]
  | _ => exact Or.inl rfl

/-- Jobs begin to run only of nodes that were claimed. -/
def Begins (s : Yard κ ε) : Prop := ∀ job ∈ s.beginnings, (s.graph.node job.node).claimed = true

namespace Begins

/-- Every move keeps this so. -/
theorem does (h : s.Begins) (hs : s.Orderly) (hdoes : Does s move s') : s'.Begins := by
  have hclaims := (hs.grows hdoes).claimed
  intro job hjob
  rcases hdoes.beginnings with hsame | ⟨first, hfirst, hmore⟩
  · rw [hsame] at hjob
    exact hclaims _ (h job hjob)
  · rw [hmore] at hjob
    rcases List.mem_cons.mp hjob with rfl | hold
    · exact hclaims _ (hs.coherent.of_load_pos (load_pos_of_mem hfirst)).2.1
    · exact hclaims _ (h job hold)

/-- No job has begun at the start. -/
theorem start (tracker : Tracker) (grain : Nat) : (start tracker grain : Yard κ ε).Begins :=
  fun _ hjob => absurd hjob List.not_mem_nil

end Begins

/-- What a builder that goes away does next. -/
theorem Does.leaving (h : Does s move s') (hs : s.Orderly) {left : List NodeId}
    (hi : s.crews[i]? = some (.leaving b left)) :
    s'.crews[i]? = some (.leaving b left) ∨
    (∃ (n : NodeId) (rest : List NodeId), left = n :: rest ∧
      s'.crews[i]? = some (.leaving b rest) ∧
      s'.graph = s.graph.updateNode n ({ · with work := some .idle }) ∧
      s'.discards = n :: s.discards) ∨
    left = [] ∧ s'.graph.nodes = s.graph.nodes ∧ (s'.graph.batch b.batch).armed = true := by
  have hother {j : Nat} {crew : Crew} (hj : s.crews[j]? = some crew) (next : Crew)
      (hcrew : crew ≠ .leaving b left) :
      (s.crews.setIfInBounds j next)[i]? = some (.leaving b left) := by
    have hji : j ≠ i := by
      rintro rfl
      exact hcrew (Option.some.inj (hj.symm.trans hi))
    rw [Array.getElem?_setIfInBounds_ne hji]
    exact hi
  cases h with
  | newBuilder =>
    have hlt := (Array.getElem?_eq_some_iff.mp hi).1
    exact Or.inl ((Array.getElem?_push.trans (if_neg (Nat.ne_of_lt hlt))).trans hi)
  | add hj _ _ => exact Or.inl (hother hj _ nofun)
  | execute hj => exact Or.inl (hother hj _ nofun)
  | drop hj _ => exact Or.inl (hother hj _ nofun)
  | @discard j c n rest hj _ =>
    by_cases hji : j = i
    · subst hji
      obtain ⟨rfl, rfl⟩ := Crew.leaving.inj (Option.some.inj (hj.symm.trans hi))
      refine Or.inr (Or.inl ⟨n, rest, rfl, ?_, rfl, rfl⟩)
      exact Array.getElem?_setIfInBounds_self_of_lt (Array.getElem?_eq_some_iff.mp hi).1
    · exact Or.inl ((Array.getElem?_setIfInBounds_ne hji).trans hi)
  | @abandon j c hj =>
    by_cases hji : j = i
    · subst hji
      obtain ⟨rfl, rfl⟩ := Crew.leaving.inj (Option.some.inj (hj.symm.trans hi))
      refine Or.inr (Or.inr ⟨rfl, rfl, ?_⟩)
      have hfresh : c.batch < s.graph.startBatch.1.batches.size := by
        rw [Graph.size_batches_startBatch]
        exact Nat.lt_succ_of_lt (hs.staffed.holds j c (Crew.builderAt_of_leaving hi)).batch_lt
      exact (Graph.armed_arm hfresh c.batch).mpr (Or.inl rfl)
    · exact Or.inl ((Array.getElem?_setIfInBounds_ne hji).trans hi)
  | finish _ =>
    refine Or.inl ?_
    rw [(finishAt_eq ..).2.2.2.1]
    exact hi
  | _ => exact Or.inl hi

/-- A builder was dropped. It still discards works, or its batch is armed. Either way no node joins
its batch any more. -/
structure Away (i : Nat) (b : Builder) (s : Yard κ ε) : Prop where
  leaving : (∃ left, s.crews[i]? = some (.leaving b left)) ∨
    (s.graph.batch b.batch).armed = true
  mem_nodes : ∀ n : Nat, n ∈ b.nodes ↔ n < s.graph.nodes.size ∧ (s.graph.node n).batch = b.batch

namespace Away

/-- Every move keeps this so. -/
theorem does (h : s.Away i b) (hs : s.Orderly) (hdoes : Does s move s') : s'.Away i b := by
  have hgrows := hs.grows hdoes
  have hkept (hnew : ∀ n : Nat, s.graph.nodes.size ≤ n → n < s'.graph.nodes.size →
      (s'.graph.node n).batch ≠ b.batch) (n : Nat) :
      n ∈ b.nodes ↔ n < s'.graph.nodes.size ∧ (s'.graph.node n).batch = b.batch := by
    by_cases hn : n < s.graph.nodes.size
    · rw [h.mem_nodes, hgrows.batchOf n hn]
      exact and_congr_left fun _ => iff_of_true hn (Nat.lt_of_lt_of_le hn hgrows.size)
    · refine iff_of_false (fun hmem => hn ((h.mem_nodes n).mp hmem).1) fun hyes => ?_
      exact hnew n (Nat.not_lt.mp hn) hyes.1 hyes.2
  rcases h.leaving with ⟨left, hi⟩ | harmed
  · have hstill {rest : List NodeId} (hi' : s'.crews[i]? = some (.leaving b rest)) : s'.Away i b := by
      have hb := (hs.does hdoes).staffed.holds i b (Crew.builderAt_of_leaving hi')
      exact ⟨Or.inl ⟨rest, hi'⟩, hb.mem_nodes⟩
    rcases hdoes.leaving hs hi with hi' | ⟨_, _, _, hi', _⟩ | ⟨_, hsame, harmed⟩
    · exact hstill hi'
    · exact hstill hi'
    · refine ⟨Or.inr harmed, hkept fun n hn hlt => ?_⟩
      rw [hsame] at hlt
      omega
  · refine ⟨Or.inr (hs.armed hdoes harmed), hkept fun n hn hlt hbatch => ?_⟩
    have hunarmed := hs.unarmed_of_new hdoes hn hlt
    rw [hbatch, harmed] at hunarmed
    cases hunarmed

end Away

/-- A builder was dropped: the works of its nodes are idle, or it has yet to discard them. All jobs of
these nodes are idle. -/
structure Dropped (i : Nat) (b : Builder) (s : Yard κ ε) : Prop where
  away : s.Away i b
  nodes : ∀ n ∈ b.nodes,
    (n ∈ s.discards ∧ ((s.graph.node n).claimed = false → (s.graph.node n).work = some .idle)) ∨
    ∃ left, s.crews[i]? = some (.leaving b left) ∧ n ∈ left
  jobs : ∀ job, job ∈ s.jobs ∨ job ∈ s.beginnings → job.node ∈ b.nodes → job.task = .idle

namespace Dropped

/-- The work of such a node is idle when the node is handed over. -/
theorem work (h : s.Dropped i b) (hs : s.Orderly) (hn : n ∈ b.nodes)
    (harmed : s.graph.isArmed n = true) (hfree : (s.graph.node n).claimed = false) :
    (s.graph.node n).work = some .idle := by
  rcases h.nodes n hn with ⟨_, hidle⟩ | ⟨left, hi, _⟩
  · exact hidle hfree
  · have hheld := (hs.staffed.holds i b (Crew.builderAt_of_leaving hi)).isArmed hn
    rw [harmed] at hheld
    cases hheld

/-- A move that discards nothing keeps this so when works of nodes that nobody has claimed and other
jobs stay as they are. -/
theorem of_kept (h : s.Dropped i b) (hs : s.Orderly) (hdoes : Does s move s')
    (hdiscards : s'.discards = s.discards)
    (hkept : ∀ n ∈ b.nodes, (s'.graph.node n).claimed = false →
      (s.graph.node n).claimed = false ∧ (s'.graph.node n).work = (s.graph.node n).work)
    (hjobs : ∀ job ∈ s'.jobs, job.node ∈ b.nodes → job ∈ s.jobs ∨ job.task = .idle) :
    s'.Dropped i b where
  away := h.away.does hs hdoes
  nodes n hn := by
    rcases h.nodes n hn with ⟨hmem, hidle⟩ | ⟨left, hi, hmem⟩
    · refine Or.inl ⟨by rwa [hdiscards], fun hfree => ?_⟩
      obtain ⟨hbefore, hwork⟩ := hkept n hn hfree
      exact hwork.trans (hidle hbefore)
    · rcases hdoes.leaving hs hi with hi' | ⟨m, _, _, _, _, hmore⟩ | ⟨rfl, _⟩
      · exact Or.inr ⟨left, hi', hmem⟩
      · exact absurd (hmore.symm.trans hdiscards) (List.cons_ne_self m _)
      · exact absurd hmem List.not_mem_nil
  jobs job hjob hn := by
    rcases hjob with hjob | hjob
    · exact (hjobs job hjob hn).elim (fun hold => h.jobs job (Or.inl hold) hn) id
    · rcases hdoes.beginnings with hsame | ⟨first, hfirst, hmore⟩
      · rw [hsame] at hjob
        exact h.jobs job (Or.inr hjob) hn
      · rw [hmore] at hjob
        rcases List.mem_cons.mp hjob with rfl | hold
        · exact h.jobs job (Or.inl hfirst) hn
        · exact h.jobs job (Or.inr hold) hn

/-- A work is discarded. -/
theorem discard (h : s.Dropped i b) (hs : s.Orderly) (hdoes : Does s move s') {m : NodeId}
    (hm : m < s.graph.nodes.size)
    (hgraph : s'.graph = s.graph.updateNode m ({ · with work := some .idle }))
    (hdiscards : s'.discards = m :: s.discards) (hjobs : s'.jobs = s.jobs)
    (hbeginnings : s'.beginnings = s.beginnings) : s'.Dropped i b := by
  have hwork (n : Nat) (hn : n = m ∨ (s.graph.node n).work = some .idle) :
      (s'.graph.node n).work = some .idle := by
    rw [hgraph]
    by_cases hmn : m = n
    · subst hmn
      rw [Graph.node_updateNode_self _ hm]
    · rw [Graph.node_updateNode_of_ne _ hmn]
      exact hn.resolve_left (Ne.symm hmn)
  have hclaimed (n : Nat) : (s'.graph.node n).claimed = (s.graph.node n).claimed := by
    rw [hgraph]
    exact Graph.field_updateNode Node.claimed n
  refine ⟨h.away.does hs hdoes, fun n hn => ?_, fun job hjob hn => ?_⟩
  · rw [hdiscards, hclaimed]
    rcases h.nodes n hn with ⟨hmem, hidle⟩ | ⟨left, hi, hmem⟩
    · exact Or.inl ⟨List.mem_cons_of_mem m hmem, fun hfree => hwork n (Or.inr (hidle hfree))⟩
    · rcases hdoes.leaving hs hi with hi' | ⟨k, rest, rfl, hi', _, hmore⟩ | ⟨rfl, _⟩
      · exact Or.inr ⟨left, hi', hmem⟩
      · obtain ⟨rfl, _⟩ := List.cons.inj (hmore.symm.trans hdiscards)
        rcases List.mem_cons.mp hmem with rfl | hrest
        · exact Or.inl ⟨List.mem_cons_self, fun _ => hwork n (Or.inl rfl)⟩
        · exact Or.inr ⟨rest, hi', hrest⟩
      · exact absurd hmem List.not_mem_nil
  · rw [hjobs, hbeginnings] at hjob
    exact h.jobs job hjob hn

/-- A submission comes to a node. The job that is made of it, if any, is idle. -/
theorem dispatch (h : s.Dropped i b) (hs : s.Orderly) (hdoes : Does s move s') {k : Nat}
    {c : BatchId} {m : NodeId} {due : List NodeId}
    (hk : s.submissions[k]? = some ⟨c, m :: due, .underWay⟩)
    (hfree : (s.graph.node m).claimed = false)
    (hgraph : s'.graph = (Graph.handJob s.system.grain (s.graph.claim m).1 m).state)
    (hdiscards : s'.discards = s.discards)
    (hjobs : ∀ job ∈ s'.jobs, job ∈ s.jobs ∨
      (Graph.handJob s.system.grain (s.graph.claim m).1 m).result = .ok job) : s'.Dropped i b := by
  have hfits := hs.scheduled.fits k _ hk
  have hm := (hfits.due m List.mem_cons_self).1
  refine h.of_kept hs hdoes hdiscards (fun n _ hunclaimed => ?_) fun job hjob hn => ?_
  · rw [hgraph] at hunclaimed ⊢
    by_cases hmn : m = n
    · subst hmn
      rw [Graph.claimed_take s.system.grain hm] at hunclaimed
      cases hunclaimed
    · rw [Graph.node_take_of_ne s.graph s.system.grain hmn] at hunclaimed ⊢
      exact ⟨hunclaimed, rfl⟩
  · rcases hjobs job hjob with hold | hmade
    · exact Or.inl hold
    · obtain rfl := (Graph.faithful_handJob s.system.grain).item _ m job hmade
      have hidle := h.work hs hn (hfits.isArmed List.mem_cons_self) hfree
      have hkept : ((s.graph.claim job.node).1.node job.node).work = some .idle :=
        (Graph.field_updateNode Node.work job.node).trans hidle
      have htake := Graph.takeJob_idle s.system.grain hkept
      exact Or.inr (by rw [Except.ok.inj (hmade.symm.trans htake)])

/-- A part finishes. The jobs that are made of nodes that it passes on are idle. -/
theorem finishAt (h : s.Dropped i b) (hs : s.Orderly) {stage : Stage} {position : Nat} {job : Job κ}
    (hjob : (s.jobsAt stage)[position]? = some job) :
    (s.finishAt stage position job).Dropped i b := by
  have hdoes : Does s (.finish stage position) (s.finishAt stage position job) := .finish hjob
  have hpos : 0 < s.load job.node := load_pos_of_jobsAt hjob
  have hfinished := hs.coherent.finished (Graph.faithful_handJob s.system.grain) hpos
  have hsteady := ((hdoes.steps hs trivial).coherent_steady hs.coherent).2
  have hgraph := (finishAt_eq s stage position job).1
  refine h.of_kept hs hdoes (discards_finishAt ..) (fun n _ hfree => ?_) fun other hother hn => ?_
  · rw [hgraph] at hfree ⊢
    have hunclaimed : ¬ ((s.graph.finishPart (Graph.handJob s.system.grain) job.node).graph.node
        n).claimed = true := by rw [hfree]; exact Bool.false_ne_true
    rw [hfinished.claimed.1, not_or, Bool.not_eq_true] at hunclaimed
    exact ⟨hunclaimed.1, hfinished.work hunclaimed.2⟩
  · rcases List.mem_append.mp ((jobs_finishAt s stage position job).mem_iff.mp hother)
      with hmade | hrest
    · have hpassed := hfinished.items.1.subset (List.mem_map_of_mem hmade)
      have hclaimed := (hfinished.claimed.1 other.node).mpr (Or.inr hpassed)
      rw [← hgraph] at hclaimed
      have harmed := (hs.does hdoes).coherent.armed other.node hclaimed
      rw [hsteady.isArmed] at harmed
      exact Or.inr (Graph.task_of_mem_items hs.coherent hpos hmade
        (h.work hs hn harmed (hfinished.claimed.2.2 _ hpassed)))
    · exact Or.inl ((jobs_without hjob).mem_iff.mpr (List.mem_cons_of_mem job hrest))

/-- Every move keeps this so. -/
theorem does (h : s.Dropped i b) (hs : s.Orderly) (hdoes : Does s move s') : s'.Dropped i b := by
  have hdoes' := hdoes
  cases hdoes with
  | keep => exact h
  | newBuilder | reset | execute _ | drop _ _ | abandon _ | skip _ _ | close _ =>
    exact h.of_kept hs hdoes' rfl (fun _ _ hfree => ⟨hfree, rfl⟩) fun _ hjob _ => Or.inl hjob
  | @add j c hj work profile =>
    refine h.of_kept hs hdoes' rfl (fun n hn hfree => ?_) fun _ hjob _ => Or.inl hjob
    have hnode : (s.add j c work profile).graph.node n = s.graph.node n :=
      Graph.node_addNode_of_ne (g := s.graph.register c.batch) work c.batch profile
        (Nat.ne_of_lt ((h.away.mem_nodes n).mp hn).1)
    rw [hnode] at hfree ⊢
    exact ⟨hfree, rfl⟩
  | wire _ _ hwired _ =>
    refine h.of_kept hs hdoes' rfl (fun n _ hfree => ⟨?_, hwired.work n⟩)
      fun _ hjob _ => Or.inl hjob
    rwa [← hwired.claimed]
  | @discard j c m left hj _ =>
    have hmem := hs.staffed.left j c (m :: left) hj List.mem_cons_self
    have hm := ((hs.staffed.holds j c (Crew.builderAt_of_leaving hj)).mem_nodes m).mp hmem
    exact h.discard hs hdoes' hm.1 rfl rfl rfl rfl
  | @put k c m due job hk _ hfree hmade =>
    refine h.dispatch hs hdoes' hk hfree rfl rfl fun other hother => ?_
    have hjobs : other ∈ [job] ++ s.jobs := by
      refine (List.Perm.mem_iff ?_).mp hother
      exact jobs_of_put rfl rfl rfl
    rcases List.mem_append.mp hjobs with hnew | hold
    · rw [List.mem_singleton.mp hnew]
      exact Or.inr hmade
    · exact Or.inl hold
  | stall hk _ hfree _ => exact h.dispatch hs hdoes' hk hfree rfl rfl fun _ hjob => Or.inl hjob
  | @split position job piece rest g hjob hsplit =>
    obtain ⟨rfl, hpiece, hrest⟩ := Graph.splitJob_spec hsplit
    refine h.of_kept hs hdoes' rfl (fun n _ hfree => ⟨?_, Graph.field_updateNode Node.work n⟩)
      fun other hother hn => ?_
    · exact (Graph.field_updateNode Node.claimed n).symm.trans hfree
    · have hnone (hnode : other.node = job.node) : False := by
        have hmem : job ∈ s.jobs := (jobs_without hjob).mem_iff.mpr List.mem_cons_self
        have hidle := Graph.splitJob_idle (g := s.graph) (h.jobs job (Or.inl hmem) (hnode ▸ hn))
        cases hidle.symm.trans hsplit
      rcases List.mem_cons.mp ((jobs_split hjob _ piece rest).mem_iff.mp hother) with rfl | hmore
      · exact (hnone hpiece).elim
      · rcases List.mem_cons.mp hmore with rfl | hold
        · exact (hnone hrest).elim
        · exact Or.inl ((jobs_without hjob).mem_iff.mpr (List.mem_cons_of_mem job hold))
  | begin hjob =>
    exact h.of_kept hs hdoes' rfl (fun _ _ hfree => ⟨hfree, rfl⟩)
      fun _ hother _ => Or.inl ((jobs_begin hjob _).mem_iff.mp hother)
  | watch hjob =>
    exact h.of_kept hs hdoes' rfl (fun _ _ hfree => ⟨hfree, rfl⟩)
      fun _ hother _ => Or.inl ((jobs_watch hjob).mem_iff.mp hother)
  | finish hjob => exact h.finishAt hs hjob

/-- A builder that begins to go away has all works to discard, and none of its nodes has a job. -/
theorem drop (hs : s.Orderly) (hbegins : s.Begins) (hi : s.crews[i]? = some (.adding b))
    (hnodes : b.nodes ≠ []) : (s.act (.drop i)).Dropped i b := by
  have hb := hs.staffed.holds i b (Crew.builderAt_of_adding hi)
  have hdrop : s.act (.drop i) =
      { s with crews := s.crews.setIfInBounds i (.leaving b b.nodes) } := by
    simp only [act, hi]
    rw [if_neg (by simpa using hnodes)]
  have hleaving : (s.crews.setIfInBounds i (.leaving b b.nodes))[i]? = some (.leaving b b.nodes) :=
    Array.getElem?_setIfInBounds_self_of_lt (Array.getElem?_eq_some_iff.mp hi).1
  have hnone (job : Job κ) (hclaimed : (s.graph.node job.node).claimed = true) :
      job.node ∉ b.nodes := fun hn =>
    Bool.false_ne_true ((hb.not_claimed hs.coherent hn).symm.trans hclaimed)
  rw [hdrop]
  refine ⟨⟨Or.inl ⟨b.nodes, hleaving⟩, hb.mem_nodes⟩, fun n hn => Or.inr ⟨b.nodes, hleaving, hn⟩,
    fun job hjob hn => ?_⟩
  rcases hjob with hjob | hjob
  · exact absurd hn (hnone job (hs.coherent.of_load_pos (load_pos_of_mem hjob)).2.1)
  · exact absurd hn (hnone job (hbegins job hjob))

end Dropped

/-- The parts of a node do not become more while its jobs are idle. -/
theorem Does.parts_le (h : Does s move s') (hs : s.Orderly) (hn : n < s.graph.nodes.size)
    (hidle : ∀ job ∈ s.jobs, job.node = n → job.task = .idle) :
    (s'.graph.node n).parts ≤ (s.graph.node n).parts := by
  have hhand {m : NodeId} :
      ((Graph.handJob s.system.grain (s.graph.claim m).1 m).state.node n).parts =
        (s.graph.node n).parts := by
    rw [(Graph.faithful_handJob s.system.grain).field _ Node.parts]
    exact Graph.field_updateNode Node.parts n
  cases h with
  | @add j c _ work profile =>
    exact le_of_eq (congrArg Node.parts (Graph.node_addNode_of_ne (g := s.graph.register c.batch)
      work c.batch profile (Nat.ne_of_lt hn)))
  | wire _ _ hwired _ => exact le_of_eq (hwired.parts n)
  | discard _ _ => exact le_of_eq (Graph.field_updateNode Node.parts n)
  | put _ _ _ _ => exact le_of_eq hhand
  | stall _ _ _ _ => exact le_of_eq hhand
  | @split position job _ _ _ hjob hsplit =>
    have hne : job.node ≠ n := fun heq => by
      have hmem : job ∈ s.jobs := (jobs_without hjob).mem_iff.mpr List.mem_cons_self
      cases (Graph.splitJob_idle (hidle job hmem heq)).symm.trans hsplit
    obtain ⟨rfl, _, _⟩ := Graph.splitJob_spec hsplit
    exact le_of_eq (congrArg Node.parts (Graph.node_updateNode_of_ne _ hne))
  | finish hjob =>
    have hpos := load_pos_of_jobsAt hjob
    have hfinished := hs.coherent.finished (Graph.faithful_handJob s.system.grain) hpos
    rw [(finishAt_eq ..).1, hfinished.parts (hs.coherent.of_load_pos hpos).1]
    split <;> omega
  | _ => exact le_refl _

/-- A node that nobody has claimed has one part. -/
theorem Made.parts_of_unclaimed (h : s.Made) (hs : s.Orderly) (ha : s.Attentive)
    (hfree : (s.graph.node n).claimed = false) : (s.graph.node n).parts = 1 := by
  have hload : s.load n = 0 := (hs.coherent.of_not_claimed hfree).1
  have hnone : n ∉ s.firstJobs.map Job.node := fun hmem => by
    have hclaimed := (ha.mem_handedOver n).mp ((h.mem_firstJobs n).mp hmem).1
    rw [hfree] at hclaimed
    cases hclaimed
  have hparts := h.parts n
  rw [List.count_eq_zero.mpr hnone, hload] at hparts
  omega

/-- The nodes of a builder that was dropped keep their places in the graph, and do nothing there. -/
structure KeepsPlaces (b : Builder) (s : Yard κ ε) : Prop where
  /-- No work that was discarded is ever run. -/
  idle : ∀ job, job ∈ s.jobs ∨ job ∈ s.beginnings → job.node ∈ b.nodes → job.task = .idle
  /-- No fault stops the submission of the nodes. -/
  goesOn : ∀ (k : Nat) (sub : Submission), s.submissions[k]? = some sub → sub.batch = b.batch →
    sub.phase ≠ .stopped
  /-- A node that was submitted and looked at waits for something until it is claimed. -/
  waits : ∀ n ∈ b.nodes, s.graph.isArmed n = true → (s.graph.node n).claimed = false → n ∉ s.due →
    (s.graph.node n).inDegree ≠ 0
  /-- Then it has one job, with which it completes. -/
  completes : ∀ n ∈ b.nodes, (s.graph.node n).claimed = true →
    s.graph.isComplete n = true ∨ s.load n = 1
  /-- When the job finishes, the node releases its successors. -/
  releases : ∀ (stage : Stage) (position : Nat) (job : Job κ),
    (s.jobsAt stage)[position]? = some job → job.node ∈ b.nodes →
      ∃ walked left ready : List NodeId,
        s.Releases (s.act (.finish stage position)) job.node walked left ready
  /-- When nothing is under way any more, all nodes are complete but those that are behind a fault
  or a cycle. What a worker that died had in its queue or watched is still under way. -/
  quiet : s.Quiet → ∀ n ∈ b.nodes, (s.graph.isComplete n = true ↔ ¬ s.Jammed n)

namespace Dropped

/-- The work of a node that has been claimed was discarded before that. -/
theorem mem_discards (h : s.Dropped i b) (hs : s.Orderly) (hn : n ∈ b.nodes)
    (hclaimed : (s.graph.node n).claimed = true) : n ∈ s.discards := by
  rcases h.nodes n hn with ⟨hmem, _⟩ | ⟨left, hi, _⟩
  · exact hmem
  · have hb := hs.staffed.holds i b (Crew.builderAt_of_leaving hi)
    exact absurd ((hb.not_claimed hs.coherent hn).symm.trans hclaimed) Bool.false_ne_true

/-- So it is no inverted range. -/
theorem not_isInverted (h : s.Dropped i b) (hs : s.Orderly) (hn : n ∈ b.nodes)
    (hclaimed : (s.graph.node n).claimed = true) : ¬ s.IsInverted n :=
  fun ⟨_, _, hkept, _⟩ => hkept (h.mem_discards hs hn hclaimed)

/-- The nodes of such a builder keep their places as long as none has more than one part. -/
theorem keepsPlaces (h : s.Dropped i b) (hs : s.Orderly) (ht : s.Traced)
    (hparts : ∀ n ∈ b.nodes, (s.graph.node n).parts ≤ 1) : s.KeepsPlaces b where
  idle := h.jobs
  goesOn k sub hk hbatch hstopped := by
    obtain ⟨n, hn, hof, hinverted⟩ := (ht.halting.stopped k sub hk).mp hstopped
    have hclaimed := ht.attentive.claimed_of_handover hn
    have hmem := (h.away.mem_nodes n).mpr ⟨Graph.lt_size_of_claimed hclaimed, hof.trans hbatch⟩
    exact h.not_isInverted hs hmem hclaimed hinverted
  waits n hn := ht.attentive.attended.waits n ((h.away.mem_nodes n).mp hn).1
  completes n hn hclaimed := by
    have hmade := (ht.made.mem_firstJobs n).mpr
      ⟨(ht.attentive.mem_handedOver n).mpr hclaimed, h.not_isInverted hs hn hclaimed⟩
    have hcount := List.count_eq_one_of_mem
      (ht.attentive.firstJobs.nodup ht.attentive.nodup) hmade
    have hcounted := ht.made.parts n
    rw [hcount] at hcounted
    have hone := hparts n hn
    rw [hs.coherent.isComplete_iff]
    omega
  releases stage position job hjob hn := by
    have hpos := load_pos_of_jobsAt hjob
    have hle := hs.coherent.load_le job.node
    have hone := hparts job.node hn
    exact ht.worked.exists_releases hs ht.attentive ht.grain hjob (by omega)
  quiet hquiet n hn :=
    hquiet.isComplete_iff hs ht.attentive ht.made ht.halting ((h.away.mem_nodes n).mp hn).1

end Dropped

/-- The graph at some time of a run grows into the one at its end. -/
theorem Orderly.grows_of_isPrefix (hs : s.Orderly) {earlier moves : List (Move κ)}
    (h : earlier <+: moves) : (s.run earlier).graph.Grows (s.run moves).graph := by
  obtain ⟨rest, rfl⟩ := h
  rw [run_append]
  exact (hs.orderly_run earlier).grows_run rest

/-- Whatever has happened, dropping a builder leaves the system as executing it would, but for the
works, unless an inverted range stops the latter. And whatever happens afterwards, none of the works
is run, each node waits for all that was recorded before it, completes with its only job, unless a
worker that dies takes that with it, and releases its successors then, up to an inverted range, and
stays between the nodes that are ordered through it. A builder that goes away without interruption
is dropped as a whole (`run_drop`). No system is set up with a grain of zero
(`Settings.validate`). -/
theorem mirrorsExecute_keepsPlaces_run {tracker : Tracker} {count grain : Nat}
    (htracker : Tracker.create count = .ok tracker) (hgrain : 0 < grain)
    (before more moves : List (Move κ))
    (hi : ((start tracker grain : Yard κ ε).run before).crews[i]? = some (.adding b))
    (hnodes : b.nodes ≠ []) (hmoves : moves = before ++ .drop i :: more) :
    ((start tracker grain : Yard κ ε).run before).system.MirrorsExecute b ∧
      ((start tracker grain : Yard κ ε).run moves).KeepsPlaces b ∧
      ∀ n ∈ b.nodes, ∀ earlier later : List (Move κ), earlier <+: moves → later <+: moves →
        (∀ j : Nat, n ∈ ((start tracker grain : Yard κ ε).run earlier).graph.entries j →
          (((start tracker grain : Yard κ ε).run moves).graph.node n).claimed = true →
          ((start tracker grain : Yard κ ε).run moves).graph.isComplete j = true) ∧
        ∀ j m : Nat, ((start tracker grain : Yard κ ε).run earlier).graph.Reaches j n →
          ((start tracker grain : Yard κ ε).run later).graph.Reaches n m → j ≠ m →
          (((start tracker grain : Yard κ ε).run moves).graph.node m).claimed = true →
          ((start tracker grain : Yard κ ε).run moves).graph.isComplete j = true := by
  have hstart : (start tracker grain : Yard κ ε).Orderly := .start htracker grain
  obtain ⟨hs, htraced, hbegins⟩ := hstart.run (fun s : Yard κ ε => s.Traced ∧ s.Begins) before
    ⟨.start tracker hgrain, .start tracker grain⟩
    fun _ _ _ _ hs ht hdoes => ⟨ht.1.does hs hdoes, ht.2.does hs hdoes⟩
  have hrun : (start tracker grain : Yard κ ε).run moves =
      (((start tracker grain : Yard κ ε).run before).act (.drop i)).run more := by
    rw [hmoves, run_append]
    rfl
  have hlater {earlier : List (Move κ)} (hearlier : earlier <+: moves) :=
    (hstart.grows_of_isPrefix hearlier).later
  rw [hrun] at hlater ⊢
  set s := (start tracker grain : Yard κ ε).run before
  have hb := hs.staffed.holds i b (Crew.builderAt_of_adding hi)
  have hunclaimed (n : Nat) (hn : n ∈ b.nodes) : (s.graph.node n).claimed = false :=
    hb.not_claimed hs.coherent hn
  have hwork (n : Nat) (hn : n ∈ b.nodes) : (s.graph.node n).work.isSome = true := by
    obtain ⟨work, hwork, _⟩ := htraced.attentive.attended.stocked n ((hb.mem_nodes n).mp hn).1
      (hunclaimed n hn)
    rw [hwork]
    rfl
  have hjobs (job : Job κ) (hjob : job ∈ s.system.inbox.waiting) : job.node ∉ b.nodes := fun hn => by
    have hmem : job ∈ s.jobs := List.mem_append_left _ (List.mem_append_left _ hjob)
    have hclaimed := (hs.coherent.of_load_pos (load_pos_of_mem hmem)).2.1
    rw [hunclaimed job.node hn] at hclaimed
    cases hclaimed
  have hdoes := hs.does_act (.drop i)
  have hdropped := Dropped.drop hs hbegins hi hnodes
  have hparts (n : Nat) (hn : n ∈ b.nodes) : ((s.act (.drop i)).graph.node n).parts ≤ 1 := by
    have hone := htraced.made.parts_of_unclaimed hs htraced.attentive (hunclaimed n hn)
    have hle := hdoes.parts_le hs ((hb.mem_nodes n).mp hn).1 fun job hjob hnode => by
      have hclaimed := (hs.coherent.of_load_pos (load_pos_of_mem hjob)).2.1
      rw [hnode, hunclaimed n hn] at hclaimed
      cases hclaimed
    omega
  obtain ⟨hs', htraced', hdropped', hparts'⟩ := (hs.does hdoes).run
    (fun t : Yard κ ε => t.Traced ∧ t.Dropped i b ∧ ∀ n ∈ b.nodes, (t.graph.node n).parts ≤ 1) more
    ⟨htraced.does hs hdoes, hdropped, hparts⟩
    fun _ _ _ _ ht ⟨htraced, hdropped, hparts⟩ hdoes =>
      ⟨htraced.does ht hdoes, hdropped.does ht hdoes, fun n hn =>
        (hdoes.parts_le ht ((hdropped.away.mem_nodes n).mp hn).1 fun job hjob hnode =>
          hdropped.jobs job (Or.inl hjob) (hnode ▸ hn)).trans (hparts n hn)⟩
  refine ⟨System.mirrorsExecute htraced.grain hb hunclaimed hwork hjobs hnodes,
    hdropped'.keepsPlaces hs' htraced' hparts', fun n _ earlier later hearlier hprefix =>
      ⟨fun j hj hclaimed => ?_, fun j m hj hm hne hclaimed => ?_⟩⟩
  · exact hs'.coherent.isComplete_of_holdsUp ((hlater hearlier).holdsUp (Or.inr hj)) hclaimed
  · exact hs'.coherent.isComplete_of_reaches
      (((hlater hearlier).reaches hj).trans ((hlater hprefix).reaches hm)) hne hclaimed

/-- Node 1 waits for node 0, and node 2 for node 1, each of a builder of its own. -/
def betweenOthers : List (Move Unit) :=
  [.newBuilder, .newBuilder, .newBuilder, .add 0 (.host ()) none, .add 1 (.host ()) none,
    .add 2 (.host ()) none, .wire 1 (.edge 0), .wire 2 (.edge 1), .execute 2, .dispatch 0, .close 0]

/-- The builder of node 1 is dropped, and that of node 0 is executed. Nodes 0 and 1 complete. -/
def droppedBetween : List (Move Unit) :=
  betweenOthers ++ .drop 1 :: [.discard 1, .abandon 1, .dispatch 1, .close 1, .execute 0, .dispatch 2,
    .close 2, .begin 0, .finish .running 0, .begin 0, .finish .running 0]

/-- The job of node 1 did nothing, and node 2 was handed over only when node 0 was complete. -/
theorem mirrorsExecute_keepsPlaces_run_droppedBetween :
    ((start { shards := #[{}] } 1 : Yard Unit Unit).run betweenOthers).system.MirrorsExecute
        { batch := 1, nodes := [1] } ∧
      (((start { shards := #[{}] } 1 : Yard Unit Unit).run droppedBetween).beginnings.map Job.node =
          [1, 0] ∧
        ∀ job ∈ ((start { shards := #[{}] } 1 : Yard Unit Unit).run droppedBetween).beginnings,
          job.node = 1 → job.task = .idle) ∧
      (((start { shards := #[{}] } 1 : Yard Unit Unit).run droppedBetween).jobs.map Job.node = [2] ∧
        ((start { shards := #[{}] } 1 : Yard Unit Unit).run droppedBetween).graph.isComplete 0 =
          true) := by
  have htracker : Tracker.create 1 = .ok { shards := #[{}] } := rfl
  obtain ⟨hmirrors, hkeeps, hordered⟩ := mirrorsExecute_keepsPlaces_run (ε := Unit) (i := 1)
    (b := { batch := 1, nodes := [1] }) htracker Nat.one_pos betweenOthers _ droppedBetween rfl
    (List.cons_ne_nil 1 []) rfl
  have hbefore : betweenOthers <+: droppedBetween := List.prefix_append _ _
  have hentries : ∀ m < 2, m + 1 ∈ ((start { shards := #[{}] } 1 : Yard Unit Unit).run
      betweenOthers).graph.entries m := by
    decide +kernel
  refine ⟨hmirrors, ⟨by decide +kernel, fun job hjob hnode => ?_⟩, by decide +kernel, ?_⟩
  · exact hkeeps.idle job (Or.inr hjob) (hnode ▸ List.mem_cons_self)
  · refine (hordered 1 List.mem_cons_self betweenOthers betweenOthers hbefore hbefore).2 0 2
      (.single (Or.inr ?_)) (.single (Or.inr ?_)) (by decide) (by decide +kernel)
    · exact hentries 0 (by decide)
    · exact hentries 1 (by decide)

/-- Nodes 1 and 2 wait for node 0, whose builder is dropped and whose part finishes. The range of node
2 is inverted. -/
def droppedBeforeInverted : List (Move Unit) :=
  [.newBuilder, .newBuilder, .add 0 (.host ()) none, .add 1 (.host ()) none,
    .add 1 (.range ⟨5, 2⟩ ()) none, .wire 1 (.edge 0), .wire 2 (.edge 0), .execute 1, .dispatch 0,
    .dispatch 0, .close 0]

/-- A node that was dropped may complete and leave a node waiting that waits for nothing else. -/
theorem not_released_droppedBeforeInverted :
    ¬ ∀ (before more : List (Move Unit)) (i : Nat) (b : Builder),
      ((start { shards := #[{}] } 1 : Yard Unit Unit).run before).crews[i]? = some (.adding b) →
      ∀ n ∈ b.nodes, ∀ m ∈ ((start { shards := #[{}] } 1 : Yard Unit Unit).run before).graph.entries n,
        ((start { shards := #[{}] } 1 : Yard Unit Unit).run
          (before ++ .drop i :: more)).graph.isComplete n = true →
        (∀ j : Nat, ¬ ((start { shards := #[{}] } 1 : Yard Unit Unit).run
          (before ++ .drop i :: more)).graph.Edge j m) →
        (((start { shards := #[{}] } 1 : Yard Unit Unit).run
          (before ++ .drop i :: more)).graph.node m).inDegree = 0 := by
  intro hall
  have hwaits := hall droppedBeforeInverted
    [.discard 0, .abandon 0, .dispatch 1, .close 1, .begin 0, .finish .running 0] 0
    { batch := 0, nodes := [0] } rfl 0 List.mem_cons_self 1 (by decide +kernel) (by decide +kernel)
    fun j hedge => by
      have hnone : ∀ j < 3, 1 ∉ ((start { shards := #[{}] } 1 : Yard Unit Unit).run
          (droppedBeforeInverted ++ .drop 0 :: [.discard 0, .abandon 0, .dispatch 1, .close 1,
            .begin 0, .finish .running 0])).graph.entries j := by
        decide +kernel
      exact hnone j hedge.lt hedge
  revert hwaits
  decide +kernel

end Yard

end HazardFlow
