import HazardFlow.Proofs.Yard.Partition

/-!
# Splitting a range

Queued jobs of a range may be split and begun in any order, and jobs that were begun may finish in
any order, with or without an event. What was begun covers each index of the range once, and the
node is complete when the last of its jobs finishes and not before.
-/

namespace HazardFlow

variable {κ ε : Type}

namespace Yard

variable {s s' : Yard κ ε} {move : Move κ} {n : Nat} {span : Span} {call : κ}

/-- The move finishes a part of a node. -/
def FinishesPart (s : Yard κ ε) (n : NodeId) (move : Move κ) : Prop :=
  ∃ (stage : Stage) (position : Nat) (job : Job κ), move = .finish stage position ∧
    (s.jobsAt stage)[position]? = some job ∧ job.node = n

/-- A node that a part of its own finishes is complete if that was the last one. -/
theorem isComplete_finishAt (hs : s.Orderly) {stage : Stage} {position : Nat} {job : Job κ}
    (hjob : (s.jobsAt stage)[position]? = some job) :
    (s.finishAt stage position job).graph.isComplete n = true ↔
      s.graph.isComplete n = true ∨ n = job.node ∧ (s.graph.node job.node).parts = 1 := by
  have hpos : 0 < s.load job.node := load_pos_of_mem ((jobs_without hjob).mem_iff.mpr (by simp))
  have hfinished := hs.coherent.finished (Graph.faithful_handJob s.system.grain) hpos
  rw [(finishAt_eq s stage position job).1]
  exact hfinished.isComplete (hs.coherent.of_load_pos hpos).1 n

/-- Nothing else completes a node. -/
theorem Does.isComplete (h : Does s move s') (hs : s.Orderly)
    (hcomplete : s'.graph.isComplete n = true) : s.graph.isComplete n = true ∨
      s.FinishesPart n move ∧ (s.graph.node n).parts = 1 := by
  have hclaim (m : NodeId) : (Graph.handJob s.system.grain (s.graph.claim m).1 m).state.isComplete n =
      s.graph.isComplete n :=
    ((Graph.faithful_handJob s.system.grain).field _ Node.isComplete m n).trans
      (Graph.field_updateNode Node.isComplete n)
  cases h with
  | keep | newBuilder | reset | execute _ | drop _ _ | abandon _ => exact Or.inl hcomplete
  | skip _ _ | close _ | begin _ | watch _ => exact Or.inl hcomplete
  | @add i b hi work profile =>
    exact Or.inl ((Graph.field_addNode (s.graph.register b.batch) Node.isComplete rfl n).symm.trans
      hcomplete)
  | wire _ _ hwired _ => exact Or.inl ((hwired.isComplete n).symm.trans hcomplete)
  | discard _ _ =>
    exact Or.inl (Eq.trans (Graph.field_updateNode Node.isComplete n).symm hcomplete)
  | put _ _ _ _ => exact Or.inl ((hclaim _).symm.trans hcomplete)
  | stall _ _ _ _ => exact Or.inl ((hclaim _).symm.trans hcomplete)
  | split _ hsplit =>
    obtain ⟨rfl, _, _⟩ := Graph.splitJob_spec hsplit
    exact Or.inl (Eq.trans (Graph.field_updateNode Node.isComplete n).symm hcomplete)
  | @finish stage position job hjob =>
    refine ((isComplete_finishAt hs hjob).mp hcomplete).imp_right ?_
    rintro ⟨rfl, hparts⟩
    exact ⟨⟨stage, position, job, rfl, hjob, rfl⟩, hparts⟩

/-- So a move completes a node that is not complete exactly if it finishes the node's last part. -/
theorem Orderly.isComplete_act (hs : s.Orderly) (move : Move κ) :
    (s.act move).graph.isComplete n = true ↔ s.graph.isComplete n = true ∨
      s.FinishesPart n move ∧ (s.graph.node n).parts = 1 := by
  refine ⟨(hs.does_act move).isComplete hs, ?_⟩
  rintro (hbefore | ⟨⟨stage, position, job, rfl, hjob, rfl⟩, hparts⟩)
  · exact (hs.grows (hs.does_act move)).later.isComplete n hbefore
  · simp only [act, hjob]
    exact (isComplete_finishAt hs hjob).mpr (Or.inr ⟨rfl, hparts⟩)

/-- A node whose work is a range, split as the yard goes on. -/
structure SplitsExactly (s : Yard κ ε) (grain : Nat) (n : NodeId) (span : Span) : Prop where
  /-- The pieces queued, begun and dropped cover every index of the range once, and no other. -/
  tiles : Span.Tiles (s.pieces n) span
  /-- There is one more of them than there were splits. -/
  length : (s.pieces n).length = s.splits n + 1
  /-- After a split they have at least a grain of indices. -/
  wide : 0 < s.splits n → ∀ piece ∈ s.pieces n, grain ≤ piece.length
  /-- Those that were begun are disjoint. -/
  disjoint : (s.begun n).Pairwise fun piece other =>
    ∀ x : Nat, piece.has x = true → other.has x = false
  /-- When no job is queued and none was dropped, what was begun is the whole range. -/
  whole : (∀ job ∈ s.jobsAt .queued, job.node ≠ n) → (∀ job, .retired job ∈ s.notes → job.node ≠ n) →
    (s.begun n).length = s.splits n + 1 ∧
      ∀ x : Nat, (∃ piece ∈ s.begun n, piece.has x = true) ↔ span.start ≤ x ∧ x < span.stop
  /-- The node counts its jobs that are queued, running or watched. -/
  parts : (s.graph.node n).parts = s.load n
  /-- It is complete when there are none left. -/
  complete : s.graph.isComplete n = true ↔ s.load n = 0
  /-- What completes it is that the last of them finishes, and nothing else. -/
  completes : ∀ move : Move κ, s.graph.isComplete n = false →
    ((s.act move).graph.isComplete n = true ↔ s.FinishesPart n move ∧ s.load n = 1)
  /-- No list of successors is closed twice. -/
  sealedOnce : .sealedTwice ∉ s.faults

/-- Pieces that were begun are pieces. -/
theorem begun_sublist (s : Yard κ ε) (n : NodeId) : (s.begun n).Sublist (s.pieces n) :=
  (List.filter_sublist.filterMap _).trans (List.sublist_append_right ..)

/-- When nothing is queued or was dropped, all pieces were begun. -/
theorem begun_eq_pieces (hqueued : ∀ job ∈ s.jobsAt .queued, job.node ≠ n)
    (hdropped : ∀ job, .retired job ∈ s.notes → job.node ≠ n) : s.begun n = s.pieces n := by
  have hwaiting : s.system.inbox.waiting.filterMap (Job.pieceOf n) = [] :=
    List.filterMap_eq_nil_iff.mpr fun job hjob => Job.pieceOf_of_ne (hqueued job hjob)
  unfold begun pieces
  rw [hwaiting, List.nil_append, List.filterMap_filter]
  refine List.filterMap_congr fun note hnote => ?_
  cases note with
  | retired job => exact (Job.pieceOf_of_ne (hdropped job hnote)).symm
  | _ => rfl

/-- A node whose jobs cover its range once splits it exactly. -/
theorem Covered.splitsExactly (h : s.Covered n span) (hs : s.Orderly) (ha : s.Attentive) :
    s.SplitsExactly s.system.grain n span where
  tiles := h.tiles
  length := h.length
  wide := h.wide
  disjoint := h.tiles.pairwise.sublist (begun_sublist s n)
  whole hqueued hdropped := by
    rw [begun_eq_pieces hqueued hdropped]
    exact ⟨h.length, fun x => (h.tiles.exists_has_iff x).trans Span.has_iff⟩
  parts := h.parts
  complete := by
    rw [hs.coherent.isComplete_iff, h.parts]
    exact Int.natCast_eq_zero
  completes move hopen := by
    have hlast : (s.load n : Int) = 1 ↔ s.load n = 1 := by omega
    rw [hs.isComplete_act, hopen, h.parts, hlast]
    exact or_iff_right Bool.false_ne_true
  sealedOnce hmem := by
    rcases ha.ofCursor _ hmem with hfault | hfault <;> cases hfault

/-- However a range is split, and in whatever order its jobs are begun and finish while other nodes
are added, submitted and run, its pieces cover it once, and its node is complete when the last of
them has finished and not before. -/
theorem splitsExactly_run {tracker : Tracker} {count grain : Nat}
    (htracker : Tracker.create count = .ok tracker) (hgrain : 0 < grain) (moves : List (Move κ))
    (hrange : ((start tracker grain : Yard κ ε).run moves).HasRange n span call)
    (hclaimed : (((start tracker grain : Yard κ ε).run moves).graph.node n).claimed = true) :
    ((start tracker grain : Yard κ ε).run moves).SplitsExactly grain n span := by
  obtain ⟨hs, hsame, ha, hpieced⟩ := (Orderly.start htracker grain).run
    (fun s : Yard κ ε => s.system.grain = grain ∧ s.Attentive ∧ ∀ n : NodeId, s.Pieced n) moves
    ⟨rfl, .start tracker grain, .start tracker grain⟩
    fun t _ _ _ hs ⟨hsame, ha, hpieced⟩ hdoes =>
      ⟨hdoes.grain.trans hsame, ha.does hs hdoes, .does hpieced hs (hsame.symm ▸ hgrain) hdoes⟩
  have hexact := ((hpieced n).covered hclaimed span call hrange).splitsExactly hs ha
  rwa [hsame] at hexact

/-- The range of node 1 is split twice. One of the three jobs is begun before the second split, and
one answers an event that completes after the others have finished. -/
def splitTwice : Yard Unit Unit :=
  (start { shards := #[{}] } 2).run
    [.newBuilder, .add 0 .idle none, .add 0 (.range ⟨3, 12⟩ ()) none, .wire 1 (.edge 0), .execute 0,
      .dispatch 0, .dispatch 0, .begin 0, .finish .running 0, .split 0, .begin 1, .split 0,
      .begin 0, .watch 0, .finish .running 0, .begin 0, .finish .running 0]

/-- The node is not complete as long as the event is pending. -/
theorem splitsExactly_splitTwice : splitTwice.SplitsExactly 2 1 ⟨3, 12⟩ ∧
    splitTwice.begun 1 = [⟨7, 9⟩, ⟨9, 12⟩, ⟨3, 7⟩] ∧ splitTwice.load 1 = 1 ∧
      splitTwice.graph.isComplete 1 = false ∧
        (splitTwice.act (.finish .watched 0)).graph.isComplete 1 = true := by
  have htracker : Tracker.create 1 = .ok { shards := #[{}] } := rfl
  have hadditions : splitTwice.additions = [(1, .range ⟨3, 12⟩ ()), (0, .idle)] := rfl
  have hrange : splitTwice.HasRange 1 ⟨3, 12⟩ () :=
    ⟨by simp [hadditions], by decide +kernel, by decide⟩
  exact ⟨splitsExactly_run htracker Nat.two_pos _ hrange (by decide +kernel), by decide +kernel,
    by decide +kernel, by decide +kernel, by decide +kernel⟩

end Yard

end HazardFlow
