import HazardFlow.Proofs.Yard.Pieces

/-!
# Ranges are covered once

Nothing comes of a node before it is claimed. Then its first job covers all of its range, and every
split replaces a job by two that cover the same indices. The node counts its jobs as parts, so that
it completes with the last of them.
-/

namespace HazardFlow

variable {κ ε : Type}

/-- Only the jobs of a node cover pieces of its range. -/
theorem Job.filterMap_pieceOf (jobs : List (Job κ)) (n : NodeId) :
    jobs.filterMap (pieceOf n) = (jobs.filter (·.node == n)).filterMap (pieceOf n) := by
  rw [List.filterMap_filter]
  refine List.filterMap_congr fun job _ => ?_
  split
  · rfl
  · next hne => exact pieceOf_of_ne fun heq => hne (beq_iff_eq.mpr heq)

/-- Splitting a job splits its cursor. -/
theorem Graph.cursor_of_splitJob {g g' : Graph κ} {job piece rest : Job κ}
    (h : g.splitJob job = some (g', piece, rest)) :
    ∃ cursor call first second, job.task = .range cursor call ∧
      cursor.split = some (first, second) ∧ piece = ⟨job.node, .range first call⟩ ∧
        rest = ⟨job.node, .range second call⟩ := by
  unfold splitJob at h
  split at h
  · next cursor call htask =>
    obtain ⟨⟨first, second⟩, hsplit, heq⟩ := Option.map_eq_some_iff.mp h
    simp only [Prod.mk.injEq] at heq
    exact ⟨cursor, call, first, second, htask, hsplit, heq.2.1.symm, heq.2.2.symm⟩
  · cases h

namespace Yard

variable {s s' : Yard κ ε} {move : Move κ} {n : NodeId} {span : Span} {call : κ}

/-- A node was added with an ordered range, which has not been discarded. -/
structure HasRange (s : Yard κ ε) (n : NodeId) (span : Span) (call : κ) : Prop where
  added : (n, .range span call) ∈ s.additions
  kept : n ∉ s.discards
  ordered : span.start ≤ span.stop

/-- The jobs of a node cover a span once. -/
structure Covered (s : Yard κ ε) (n : NodeId) (span : Span) : Prop where
  parts : (s.graph.node n).parts = s.load n
  tiles : Span.Tiles (s.pieces n) span
  length : (s.pieces n).length = s.splits n + 1
  wide : 0 < s.splits n → ∀ piece ∈ s.pieces n, s.system.grain ≤ piece.length
  grain : ∀ job ∈ s.system.inbox.waiting, job.node = n → ∀ (cursor : Cursor) (call : κ),
    job.task = .range cursor call → cursor.grain = s.system.grain

/-- What is known of a node: before it is claimed it has its work and nothing comes of it, and after
that its jobs cover its range, if it has one. -/
structure Pieced (s : Yard κ ε) (n : NodeId) : Prop where
  lt : ∀ work : Work κ, (n, work) ∈ s.additions → n < s.graph.nodes.size
  untouched : (s.graph.node n).claimed = false →
    (s.graph.node n).parts = 1 ∧ s.pieces n = [] ∧ s.splits n = 0
  waiting : (s.graph.node n).claimed = false → ∀ (span : Span) (call : κ), s.HasRange n span call →
    (s.graph.node n).work = some (.range span call)
  covered : (s.graph.node n).claimed = true → ∀ (span : Span) (call : κ),
    s.HasRange n span call → s.Covered n span

/-- The jobs of a node move on, one of them may finish, and those in `made` come up. None is
split. -/
structure Advances (s s' : Yard κ ε) (n : NodeId) (made : List (Job κ)) : Prop where
  grain : s'.system.grain = s.system.grain
  size : s.graph.nodes.size ≤ s'.graph.nodes.size
  additions : ∀ work : Work κ, (n, work) ∈ s'.additions → (n, work) ∈ s.additions
  discards : n ∈ s.discards → n ∈ s'.discards
  splits : s'.splits n = s.splits n
  parts : (s'.graph.node n).parts + s.load n + made.length = (s.graph.node n).parts + s'.load n
  pieces : (s'.pieces n).Perm (made.filterMap (Job.pieceOf n) ++ s.pieces n)
  waiting : ∀ job ∈ s'.system.inbox.waiting, job.node = n →
    job ∈ s.system.inbox.waiting ∨ job ∈ made

namespace Advances

/-- All jobs stay where they are. -/
theorem of_idle (hgrain : s'.system.grain = s.system.grain)
    (hsize : s.graph.nodes.size ≤ s'.graph.nodes.size)
    (hadditions : ∀ work : Work κ, (n, work) ∈ s'.additions → (n, work) ∈ s.additions)
    (hdiscards : n ∈ s.discards → n ∈ s'.discards) (hsplits : s'.splits n = s.splits n)
    (hparts : (s'.graph.node n).parts = (s.graph.node n).parts) (hload : s'.load = s.load)
    (hpieces : s'.pieces n = s.pieces n)
    (hinbox : s'.system.inbox.waiting = s.system.inbox.waiting) : Advances s s' n [] where
  grain := hgrain
  size := hsize
  additions := hadditions
  discards := hdiscards
  splits := hsplits
  parts := by
    rw [hparts, hload]
    exact Int.add_zero _
  pieces := List.Perm.of_eq hpieces
  waiting job hjob _ := Or.inl (by rwa [← hinbox])

/-- Jobs of several nodes come up. -/
theorem of_jobs {jobs : List (Job κ)} (hgrain : s'.system.grain = s.system.grain)
    (hsize : s.graph.nodes.size ≤ s'.graph.nodes.size) (hadditions : s'.additions = s.additions)
    (hdiscards : s'.discards = s.discards) (hsplits : s'.splits n = s.splits n)
    (hparts : (s'.graph.node n).parts + s.load n + (jobs.map Job.node).count n =
      (s.graph.node n).parts + s'.load n)
    (hpieces : (s'.pieces n).Perm (jobs.filterMap (Job.pieceOf n) ++ s.pieces n))
    (hwaiting : ∀ job ∈ s'.system.inbox.waiting, job ∈ s.system.inbox.waiting ∨ job ∈ jobs) :
    Advances s s' n (jobs.filter (·.node == n)) where
  grain := hgrain
  size := hsize
  additions work hwork := by rwa [← hadditions]
  discards hn := by rwa [hdiscards]
  splits := hsplits
  parts := by
    have hlength : (jobs.map Job.node).count n = (jobs.filter (·.node == n)).length := by
      rw [List.count, List.countP_map, List.countP_eq_length_filter]
      rfl
    rwa [← hlength]
  pieces := by rwa [← Job.filterMap_pieceOf]
  waiting job hjob hnode :=
    (hwaiting job hjob).imp_right fun hnew => List.mem_filter.mpr ⟨hnew, beq_iff_eq.mpr hnode⟩

end Advances

variable {made : List (Job κ)}

theorem HasRange.of_advances (ha : Advances s s' n made) (h : s'.HasRange n span call) :
    s.HasRange n span call :=
  ⟨ha.additions _ h.added, fun hn => h.kept (ha.discards hn), h.ordered⟩

/-- What is known of a node stays so while no job of it comes up and none is split. -/
theorem Pieced.of_kept (h : s.Pieced n) (hs : s.Orderly) (hs' : s'.Orderly)
    (ha : Advances s s' n [])
    (hclaimed : (s'.graph.node n).claimed = (s.graph.node n).claimed)
    (hwork : n ∉ s'.discards → (s'.graph.node n).work = (s.graph.node n).work) : s'.Pieced n := by
  have hparts := ha.parts
  have hpieces := ha.pieces
  rw [List.length_nil] at hparts
  rw [List.filterMap_nil, List.nil_append] at hpieces
  refine ⟨fun work hmem => Nat.lt_of_lt_of_le (h.lt work (ha.additions work hmem)) ha.size,
    fun hfree => ?_, fun hfree span call hrange => ?_, fun hyes span call hrange => ?_⟩
  · rw [hclaimed] at hfree
    obtain ⟨hone, hnone, hzero⟩ := h.untouched hfree
    have hload := (hs.coherent.of_not_claimed hfree).1
    have hload' := (hs'.coherent.of_not_claimed (hclaimed.trans hfree)).1
    rw [hnone] at hpieces
    exact ⟨by omega, List.perm_nil.mp hpieces, ha.splits.trans hzero⟩
  · rw [hclaimed] at hfree
    exact (hwork hrange.kept).trans (h.waiting hfree span call (hrange.of_advances ha))
  · rw [hclaimed] at hyes
    have hc := h.covered hyes span call (hrange.of_advances ha)
    refine ⟨?_, hc.tiles.perm hpieces, ?_, fun hsplit piece hpiece => ?_,
      fun job hjob hnode cursor call htask => ?_⟩
    · have hsame := hc.parts
      omega
    · rw [hpieces.length_eq, ha.splits]
      exact hc.length
    · rw [ha.grain]
      exact hc.wide (ha.splits ▸ hsplit) piece (hpieces.mem_iff.mp hpiece)
    · rw [ha.grain]
      have hold := (ha.waiting job hjob hnode).resolve_right List.not_mem_nil
      exact hc.grain job hold hnode cursor call htask

/-- When the first job of a node comes up, it covers all of the node's range. -/
theorem Pieced.of_first (h : s.Pieced n) (hs : s.Orderly) (hgrain : 0 < s.system.grain)
    (ha : Advances s s' n made) (hfree : (s.graph.node n).claimed = false)
    (hclaimed : (s'.graph.node n).claimed = true)
    (hmade : ∀ (span : Span) (call : κ) (hspan : span.start ≤ span.stop),
      (s.graph.node n).work = some (.range span call) →
        made = [.ofRange n span call hgrain hspan]) : s'.Pieced n := by
  refine ⟨fun work hmem => Nat.lt_of_lt_of_le (h.lt work (ha.additions work hmem)) ha.size,
    fun hno => absurd (hno.symm.trans hclaimed) Bool.false_ne_true,
    fun hno => absurd (hno.symm.trans hclaimed) Bool.false_ne_true,
    fun _ span call hrange => ?_⟩
  have hbefore := hrange.of_advances ha
  obtain ⟨hone, hnone, hzero⟩ := h.untouched hfree
  have hnoload := (hs.coherent.of_not_claimed hfree).1
  have hfirst := hmade span call hrange.ordered (h.waiting hfree span call hbefore)
  have hwhole : (Job.ofRange n span call hgrain hrange.ordered).pieceOf n = some span := if_pos rfl
  have hpieces := ha.pieces
  rw [hfirst, hnone, List.append_nil, List.filterMap_cons_some hwhole, List.filterMap_nil] at hpieces
  have hparts := ha.parts
  rw [hfirst, hone, hnoload, List.length_singleton] at hparts
  refine ⟨by omega, (Span.Tiles.singleton span).perm hpieces, ?_, fun hsplit => ?_,
    fun job hjob hnode cursor call htask => ?_⟩
  · rw [hpieces.length_eq, ha.splits, hzero]
    rfl
  · rw [ha.splits, hzero] at hsplit
    exact absurd hsplit (Nat.lt_irrefl 0)
  · rcases ha.waiting job hjob hnode with hold | hnew
    · have hpos : 0 < s.load job.node :=
        load_pos_of_mem (List.mem_append_left _ (List.mem_append_left _ hold))
      rw [hnode, hnoload] at hpos
      exact absurd hpos (Nat.lt_irrefl 0)
    · rw [hfirst, List.mem_singleton] at hnew
      rw [hnew] at htask
      obtain ⟨rfl, _⟩ := Task.range.inj htask
      exact ha.grain.symm

/-- A node that is added has not been touched. -/
theorem Pieced.add (h : ∀ n : NodeId, s.Pieced n) (hs : s.Orderly) {i : Nat} {b : Builder}
    (hi : s.crews[i]? = some (.adding b)) (work : Work κ) (profile : Option Profile) (n : NodeId) :
    (s.add i b work profile).Pieced n := by
  have hgrows : s.graph.Grows (s.add i b work profile).graph := .addNode s.graph work b.batch profile
  have hclaimed : ((s.add i b work profile).graph.node n).claimed = (s.graph.node n).claimed :=
    Graph.claimed_addNode (s.graph.register b.batch) work b.batch profile n
  have hparts : ((s.add i b work profile).graph.node n).parts = (s.graph.node n).parts :=
    Graph.field_addNode (s.graph.register b.batch) Node.parts rfl n
  have hadded (other : Work κ) (hmem : (n, other) ∈ (s.add i b work profile).additions) :
      n = s.graph.nodes.size ∧ other = work ∨ (n, other) ∈ s.additions :=
    (List.mem_cons.mp hmem).imp_left Prod.mk.inj
  by_cases hn : n = s.graph.nodes.size
  · have hfree : (s.graph.node n).claimed = false := by
      rw [hn, Graph.node_of_size_le (le_refl _)]
      rfl
    refine ⟨fun _ _ => ?_, fun _ => ?_, fun _ span call hrange => ?_, fun hyes => ?_⟩
    · have hsize : (s.add i b work profile).graph.nodes.size = s.graph.nodes.size + 1 :=
        Graph.size_nodes_addNode (s.graph.register b.batch) work b.batch profile
      rw [hsize, hn]
      exact Nat.lt_succ_self _
    · rw [hparts]
      exact (h n).untouched hfree
    · rcases hadded _ hrange.added with ⟨_, rfl⟩ | hold
      · subst hn
        exact congrArg Node.work
          (Graph.node_addNode_self (s.graph.register b.batch) (.range span call) b.batch profile)
      · exact absurd hn (Nat.ne_of_lt ((h n).lt _ hold))
    · rw [hclaimed, hfree] at hyes
      cases hyes
  · refine (h n).of_kept hs (hs.add hi work profile) (.of_idle rfl hgrows.size
      (fun other hmem => (hadded other hmem).resolve_left fun hnew => hn hnew.1) id rfl hparts rfl rfl
      rfl) hclaimed fun _ => ?_
    exact congrArg Node.work
      (Graph.node_addNode_of_ne (g := s.graph.register b.batch) work b.batch profile hn)

/-- The halves of a job that is split cover what it covered. -/
theorem Covered.split (h : s.Covered n span) {position : Nat} {job piece rest : Job κ} {g : Graph κ}
    (hjob : (s.jobsAt .queued)[position]? = some job) (hnode : job.node = n)
    (hsplit : s.graph.splitJob job = some (g, piece, rest))
    (hparts : (g.node n).parts = (s.graph.node n).parts + 1)
    (hload : (s.split position g piece rest).load n = s.load n + 1) :
    (s.split position g piece rest).Covered n span := by
  obtain ⟨cursor, call, first, second, htask, hcursor, rfl, rfl⟩ := Graph.cursor_of_splitJob hsplit
  obtain ⟨hnext, hmiddle, hstop, hfirst, hsecond, hlow, hhigh⟩ := Cursor.split_spec hcursor
  have hmem : job ∈ s.system.inbox.waiting := List.mem_of_getElem? hjob
  have hgrain : cursor.grain = s.system.grain := h.grain job hmem hnode cursor call htask
  have hpieceOf (cursor : Cursor) :
      (⟨job.node, .range cursor call⟩ : Job κ).pieceOf n = some cursor.remaining := if_pos hnode
  have hwhole : job.pieceOf n = some cursor.remaining := by
    unfold Job.pieceOf
    rw [htask]
    exact if_pos hnode
  obtain ⟨others, hbefore, hafter⟩ := pieces_split n hjob g
    ⟨job.node, .range first call⟩ ⟨job.node, .range second call⟩
  rw [hwhole, Option.toList_some, List.singleton_append] at hbefore
  rw [hpieceOf, hpieceOf, Option.toList_some, Option.toList_some, List.singleton_append,
    List.singleton_append] at hafter
  have hsplits : (s.split position g ⟨job.node, .range first call⟩
      ⟨job.node, .range second call⟩).splits n = s.splits n + 1 := by
    rw [← hnode]
    exact List.count_cons_self
  have hlength := h.length
  rw [hbefore.length_eq, List.length_cons] at hlength
  refine ⟨?_, ?_, ?_, fun _ part hpart => ?_, fun other hother hn c k htask' => ?_⟩
  · exact hparts.trans (by rw [hload, h.parts]; rfl)
  · have htiles := h.tiles.perm hbefore.symm
    have hcut : Span.Tiles (⟨cursor.next, first.stop⟩ :: ⟨first.stop, cursor.stop⟩ :: others) span :=
      Span.Tiles.cut htiles (by rw [← hnext]; exact first.next_le_stop)
        (by rw [hmiddle, ← hstop]; exact second.next_le_stop)
    refine Span.Tiles.perm ?_ hafter
    unfold Cursor.remaining
    rw [hnext, ← hmiddle, hstop]
    exact hcut
  · rw [hafter.length_eq, hsplits, List.length_cons, List.length_cons, hlength]
  · have hgrain' : s.system.grain ≤ part.length := by
      rw [hafter.mem_iff, List.mem_cons, List.mem_cons] at hpart
      rcases hpart with rfl | rfl | hpart
      · rwa [← hgrain]
      · rwa [← hgrain]
      · -- There are other pieces only if there was a split before.
        refine h.wide ?_ part (hbefore.mem_iff.mpr (List.mem_cons_of_mem _ hpart))
        have hpos := List.length_pos_of_mem hpart
        omega
    exact hgrain'
  · rcases List.mem_append.mp hother with hold | hnew
    · rcases List.mem_or_eq_of_mem_set hold with hold | rfl
      · exact h.grain other hold hn c k htask'
      · obtain ⟨rfl, _⟩ := Task.range.inj htask'
        exact hsecond.trans hgrain
    · rw [List.mem_singleton.mp hnew] at htask'
      obtain ⟨rfl, _⟩ := Task.range.inj htask'
      exact hfirst.trans hgrain

/-- Splitting a job covers the ranges of nodes as before. -/
theorem Pieced.split (h : s.Pieced n) (hs : s.Orderly) {position : Nat} {job piece rest : Job κ}
    {g : Graph κ} (hjob : (s.jobsAt .queued)[position]? = some job)
    (hsplit : s.graph.splitJob job = some (g, piece, rest)) :
    (s.split position g piece rest).Pieced n := by
  have hs' : (s.split position g piece rest).Orderly :=
    hs.of_runs (Does.split hjob hsplit) trivial
  obtain ⟨hg, hpiece, hrest⟩ := Graph.splitJob_spec hsplit
  have hload := load_split hjob g hpiece hrest
  have hsize : g.nodes.size = s.graph.nodes.size := by rw [hg, Graph.size_nodes_updateNode]
  have hkept : (g.node n).claimed = (s.graph.node n).claimed := by
    rw [hg]
    exact Graph.field_updateNode Node.claimed n
  by_cases hn : job.node = n
  · have hpos : 0 < s.load job.node := load_pos_of_mem ((jobs_without hjob).mem_iff.mpr (by simp))
    obtain ⟨hlt, hclaimed, _⟩ := hs.coherent.of_load_pos hpos
    rw [hn] at hlt hclaimed
    refine ⟨fun _ _ => Nat.lt_of_lt_of_eq hlt hsize.symm, fun hfree => ?_, fun hfree => ?_,
      fun _ span call hrange => ?_⟩
    · exact absurd ((hkept.symm.trans hfree).symm.trans hclaimed) Bool.false_ne_true
    · exact absurd ((hkept.symm.trans hfree).symm.trans hclaimed) Bool.false_ne_true
    · have hbefore : s.HasRange n span call := ⟨hrange.added, hrange.kept, hrange.ordered⟩
      refine (h.covered hclaimed span call hbefore).split hjob hn hsplit ?_ ?_
      · rw [hg, hn, Graph.node_updateNode_self _ hlt]
      · rw [hload, hn]
        exact congrArg (s.load n + ·) (if_pos rfl)
  · obtain ⟨others, hbefore, hafter⟩ := pieces_split n hjob g piece rest
    rw [Job.pieceOf_of_ne hn] at hbefore
    rw [Job.pieceOf_of_ne (hpiece ▸ hn), Job.pieceOf_of_ne (hrest ▸ hn)] at hafter
    have hnode : g.node n = s.graph.node n := by rw [hg, Graph.node_updateNode_of_ne _ hn]
    have hsame : (s.split position g piece rest).load n = s.load n := by
      rw [hload]
      exact congrArg (s.load n + ·) (if_neg (Ne.symm hn))
    refine h.of_kept hs hs' ⟨rfl, Nat.le_of_eq hsize.symm, fun _ => id, id, ?_, ?_,
      hafter.trans hbefore.symm, fun other hother hnode => ?_⟩ hkept fun _ => congrArg Node.work hnode
    · exact List.count_cons_of_ne (by rwa [hpiece])
    · rw [hsame]
      exact (Int.add_zero _).trans (congrArg (fun m => m.parts + (s.load n : Int)) hnode)
    · rcases List.mem_append.mp hother with hold | hnew
      · rcases List.mem_or_eq_of_mem_set hold with hold | rfl
        · exact Or.inl hold
        · exact absurd (hrest.symm.trans hnode) hn
      · rw [List.mem_singleton.mp hnew] at hnode
        exact absurd (hpiece.symm.trans hnode) hn

/-- When a node is dispatched, its first job comes up, or a fault. -/
theorem Pieced.dispatch (h : s.Pieced n) (hs : s.Orderly) (hs' : s'.Orderly)
    (hgrain : 0 < s.system.grain) {m : Nat} (hm : m < s.graph.nodes.size)
    (hunclaimed : (s.graph.node m).claimed = false) {jobs : List (Job κ)}
    (hgraph : s'.graph = (Graph.handJob s.system.grain (s.graph.claim m).1 m).state)
    (hwaiting : s'.system.inbox.waiting = s.system.inbox.waiting ++ jobs)
    (hrunning : s'.running = s.running) (hwatched : s'.watched = s.watched)
    (hsame : s'.system.grain = s.system.grain) (hadditions : s'.additions = s.additions)
    (hdiscards : s'.discards = s.discards) (hsplits : s'.splits n = s.splits n)
    (hnotes : s'.notes.filterMap (Note.pieceOf n) = s.notes.filterMap (Note.pieceOf n))
    (hjobs : ∀ job ∈ jobs, job.node = m)
    (hfirst : ∀ job, (Graph.handJob s.system.grain (s.graph.claim m).1 m).result = .ok job →
      jobs = [job]) : s'.Pieced n := by
  have hhand := Graph.faithful_handJob (κ := κ) s.system.grain
  have hclaimed (k : Nat) : (s'.graph.node k).claimed = true ↔
      (s.graph.node k).claimed = true ∨ k = m := by
    rw [hgraph, hhand.claimed, Graph.claimed_claim hm]
  have ha : Advances s s' n (jobs.filter (·.node == n)) := by
    refine .of_jobs hsame ?_ hadditions hdiscards hsplits ?_ ?_ fun job hjob => ?_
    · rw [hgraph, (Graph.hand_of_ne hhand _ m).1]
      exact Nat.le_of_eq (Graph.size_nodes_updateNode ..).symm
    · have hparts : (s'.graph.node n).parts = (s.graph.node n).parts := by
        rw [hgraph, hhand.field _ Node.parts]
        exact Graph.field_updateNode Node.parts n
      rw [hparts, load_append (jobs_of_put hwaiting hrunning hwatched)]
      omega
    · unfold pieces
      rw [hwaiting, hnotes, List.filterMap_append, List.append_assoc]
      exact List.perm_append_comm_assoc ..
    · rw [hwaiting] at hjob
      exact List.mem_append.mp hjob
  by_cases hn : m = n
  · subst hn
    refine h.of_first hs hgrain ha hunclaimed ((hclaimed m).mpr (Or.inr rfl))
      fun span call hspan hwork => ?_
    have hclaim : ((s.graph.claim m).1.node m).work = some (.range span call) :=
      (Graph.field_updateNode Node.work m).trans hwork
    rw [hfirst _ (Graph.takeJob_range hgrain hspan hclaim)]
    exact List.filter_cons_of_pos (beq_self_eq_true m)
  · have hnone : jobs.filter (·.node == n) = [] := by
      refine List.filter_eq_nil_iff.mpr fun job hjob hyes => hn ?_
      rw [← hjobs job hjob, beq_iff_eq.mp hyes]
    have hnode : s'.graph.node n = s.graph.node n := by
      rw [hgraph, (Graph.hand_of_ne hhand _ m).2 n hn]
      exact Graph.node_updateNode_of_ne _ hn
    rw [hnone] at ha
    exact h.of_kept hs hs' ha (by rw [hnode]) fun _ => by rw [hnode]

/-- When a part finishes, the first jobs of the nodes that it passes on come up. -/
theorem Pieced.finishAt (h : s.Pieced n) (hs : s.Orderly) (hgrain : 0 < s.system.grain)
    {stage : Stage} {position : Nat} {job : Job κ}
    (hjob : (s.jobsAt stage)[position]? = some job) : (s.finishAt stage position job).Pieced n := by
  have hs' : (s.finishAt stage position job).Orderly :=
    hs.of_runs (Does.finish hjob) trivial
  have hhand := Graph.faithful_handJob (κ := κ) s.system.grain
  have hwithout := load_cons (jobs_without hjob)
  have hpos : 0 < s.load job.node := by
    rw [hwithout]
    exact Graph.addLoad_pos ..
  have hfinished := hs.coherent.finished hhand hpos
  have hlt := (hs.coherent.of_load_pos hpos).1
  obtain ⟨hclaimed, _, hfree⟩ := hfinished.claimed
  obtain ⟨hitems, _⟩ := hfinished.items
  obtain ⟨hgraph, _, hsame, _, _⟩ := finishAt_eq s stage position job
  have ha : Advances s (s.finishAt stage position job) n
      ((s.graph.finishPart (Graph.handJob s.system.grain) job.node).items.filter
        (·.node == n)) := by
    refine .of_jobs hsame ?_ ?_ ?_ ?_ ?_ (pieces_finishAt n hjob) fun other hother => ?_
    · exact ((Does.finish hjob).steps hs trivial |>.coherent_steady hs.coherent).2.grows.size
    · unfold additions
      rw [filterMap_finishAt, filterMap_noteDrop s stage job rfl]
      simp [Note.addition]
    · unfold discards
      rw [filterMap_finishAt, filterMap_noteDrop s stage job rfl]
      simp [Note.discard]
    · unfold splits
      rw [filterMap_finishAt, filterMap_noteDrop s stage job rfl]
      simp [Note.splitNode]
    · have hload := load_append (jobs_finishAt s stage position job) n
      rw [hgraph, hfinished.parts hlt, hload, hwithout]
      unfold Graph.addLoad
      split <;> omega
    · rw [waiting_finishAt] at hother
      exact (List.mem_append.mp hother).imp_left mem_waiting_without
  by_cases hn : n ∈ s.graph.passedOnBy (Graph.handJob s.system.grain) job.node
  · refine h.of_first hs hgrain ha (hfree n hn) ?_ fun span call hspan hwork => ?_
    · rw [hgraph]
      exact (hclaimed n).mpr (Or.inr hn)
    · exact Graph.filter_items_finishPart hs.coherent hpos hgrain hspan hwork hn
  · have hnone : (s.graph.finishPart (Graph.handJob s.system.grain) job.node).items.filter
        (·.node == n) = [] := by
      refine List.filter_eq_nil_iff.mpr fun item hitem hyes => hn (hitems.subset ?_)
      rw [← beq_iff_eq.mp hyes]
      exact List.mem_map_of_mem hitem
    rw [hnone] at ha
    refine h.of_kept hs hs' ha ?_ fun _ => ?_
    · rw [hgraph, Bool.eq_iff_iff, hclaimed, or_iff_left hn]
    · rw [hgraph, hfinished.work hn]

/-- Moves keep what is known of nodes. -/
theorem Pieced.does (h : ∀ n : NodeId, s.Pieced n) (hs : s.Orderly) (hgrain : 0 < s.system.grain)
    (hdoes : Does s move s') (n : NodeId) : s'.Pieced n := by
  have hs' := hs.does hdoes
  have hsize := (hs.grows hdoes).size
  have hdue {k : Nat} {b : BatchId} {m : NodeId} {due : List NodeId}
      (hk : s.submissions[k]? = some ⟨b, m :: due, .underWay⟩) : m < s.graph.nodes.size :=
    ((hs.scheduled.fits k _ hk).due m List.mem_cons_self).1
  cases hdoes with
  | keep => exact h n
  | newBuilder | reset | execute _ | drop _ _ | abandon _ | skip _ _ | close _ =>
    exact (h n).of_kept hs hs' (.of_idle rfl hsize (fun _ => id) id rfl rfl rfl rfl rfl) rfl
      fun _ => rfl
  | add hi work profile => exact .add h hs hi work profile n
  | wire _ _ hwired _ =>
    exact (h n).of_kept hs hs' (.of_idle rfl hsize (fun _ => id) id rfl (hwired.parts n) rfl rfl rfl)
      (hwired.claimed n) fun _ => hwired.work n
  | @discard i b m left _ _ =>
    refine (h n).of_kept hs hs' (.of_idle rfl hsize (fun _ => id) (List.mem_cons_of_mem m) rfl
      (Graph.field_updateNode Node.parts n) rfl rfl rfl)
      (Graph.field_updateNode Node.claimed n) fun hkept => ?_
    have hne : m ≠ n := fun heq => hkept (heq ▸ List.mem_cons_self)
    exact congrArg Node.work (Graph.node_updateNode_of_ne _ hne)
  | @put k b m due job hk _ hunclaimed hjob =>
    have hnode : job.node = m := (Graph.faithful_handJob s.system.grain).item _ m job hjob
    refine (h n).dispatch hs hs' hgrain (hdue hk) hunclaimed rfl rfl rfl rfl rfl rfl rfl rfl rfl
      (fun other hother => ?_) fun other hother => ?_
    · rw [List.mem_singleton.mp hother, hnode]
    · rw [Except.ok.inj (hjob.symm.trans hother)]
  | @stall k b m due fault hk _ hunclaimed hjob =>
    refine (h n).dispatch hs hs' hgrain (hdue hk) hunclaimed rfl (List.append_nil _).symm rfl rfl rfl
      rfl rfl rfl rfl (fun other hother => absurd hother List.not_mem_nil) fun other hother => ?_
    cases hjob.symm.trans hother
  | split hjob hsplit => exact (h n).split hs hjob hsplit
  | begin hjob =>
    refine (h n).of_kept hs hs' ⟨rfl, hsize, fun _ => id, id, rfl, ?_, pieces_of_noted n hjob rfl,
      fun other hother _ => ?_⟩ rfl fun _ => rfl
    · rw [load_congr (jobs_begin hjob _)]
      exact Int.add_zero _
    · exact Or.inl (mem_waiting_without hother)
  | watch hjob =>
    exact (h n).of_kept hs hs' (.of_idle rfl hsize (fun _ => id) id rfl rfl
      (load_congr (jobs_watch hjob)) rfl rfl) rfl fun _ => rfl
  | finish hjob => exact (h n).finishAt hs hgrain hjob

/-- Nothing is known of any node at the start. -/
theorem Pieced.start (tracker : Tracker) (grain : Nat) (n : NodeId) :
    (start tracker grain : Yard κ ε).Pieced n := by
  have hnode : (Yard.start tracker grain : Yard κ ε).graph.node n = default :=
    Graph.node_of_size_le (Nat.zero_le n)
  refine ⟨fun _ hmem => absurd hmem List.not_mem_nil, fun _ => ⟨by rw [hnode]; rfl, rfl, rfl⟩,
    fun _ _ _ hrange => absurd hrange.added List.not_mem_nil, fun hclaimed => ?_⟩
  rw [hnode] at hclaimed
  cases hclaimed

end Yard

end HazardFlow
