import HazardFlow.Proofs.Graph.Jamming
import HazardFlow.Proofs.Yard.Halts

/-!
# What never completes

An inverted range strands nodes: itself, nodes that a stopped submission has yet to look at, and
nodes whose edges were left by a walk that stopped. No move brings a stranded node on, nor a node that
waits for one or for itself. When nothing is under way any more, all other nodes are complete.
-/

namespace HazardFlow.Yard

variable {κ ε : Type} {s s' : Yard κ ε} {move : Move κ} {n : NodeId}

/-- What happened stays noted down. -/
theorem Does.notes_isSuffix (h : Does s move s') : s.notes <:+ s'.notes := by
  cases h with
  | newBuilder | add _ _ _ | execute _ | discard _ _ | abandon _ | split _ _ | begin _ =>
    exact List.suffix_cons _ _
  | put _ _ _ _ => exact (List.suffix_cons _ _).trans (List.suffix_cons _ _)
  | stall _ _ _ _ => exact (List.suffix_cons _ _).trans (List.suffix_cons _ _)
  | @finish stage position job _ =>
    rw [notes_finishAt]
    refine List.IsSuffix.trans ?_ (List.suffix_append _ _)
    cases stage with
    | queued => exact List.suffix_cons _ _
    | running | watched => exact List.suffix_refl _
  | _ => exact List.suffix_refl _

/-- Moves make edges onto nodes that are not armed, and take others. They leave edges that no list
holds any more only when a fault comes up. -/
theorem Does.exists_edgesChange (h : Does s move s') (hs : s.Orderly) (n : NodeId) :
    ∃ made taken left : Nat, Graph.EdgesChange s.graph s'.graph n made taken left ∧
      (0 < made → s.graph.isArmed n = false) ∧ (0 < left → s'.faults ≠ []) := by
  have hhand := Graph.faithful_handJob (κ := κ) s.system.grain
  have hsame (hchange : Graph.EdgesChange s.graph s'.graph n 0 0 0) :
      ∃ made taken left : Nat, Graph.EdgesChange s.graph s'.graph n made taken left ∧
        (0 < made → s.graph.isArmed n = false) ∧ (0 < left → s'.faults ≠ []) :=
    ⟨0, 0, 0, hchange, fun hpos => absurd hpos (Nat.lt_irrefl 0),
      fun hpos => absurd hpos (Nat.lt_irrefl 0)⟩
  cases h with
  | keep | newBuilder | reset | execute _ | drop _ _ | abandon _ => exact hsame (.of_same rfl rfl)
  | skip _ _ | close _ | begin _ | watch _ => exact hsame (.of_same rfl rfl)
  | @add i b _ work profile =>
    apply hsame
    exact .of_same (Graph.field_addNode (s.graph.register b.batch) Node.inDegree rfl n)
      (Graph.total_addNode (s.graph.register b.batch) work b.batch profile _)
  | @wire m c t g sources _ harmed hwired _ =>
    refine ⟨_, 0, 0, .wired hwired, fun hpos => ?_, fun hpos => absurd hpos (Nat.lt_irrefl 0)⟩
    split at hpos
    · next heq => rwa [heq]
    · exact absurd hpos (Nat.lt_irrefl 0)
  | discard _ _ => exact hsame (.updateNode _)
  | put _ _ _ _ => exact hsame (.hand hhand s.graph _)
  | stall _ _ _ _ => exact hsame (.hand hhand s.graph _)
  | split _ hsplit =>
    obtain ⟨rfl, _, _⟩ := Graph.splitJob_spec hsplit
    exact hsame (.updateNode _)
  | @finish stage position job hjob =>
    have hpos : 0 < s.load job.node := load_pos_of_jobsAt hjob
    obtain ⟨walked, left, hleft, hchange⟩ :=
      (hs.coherent.finished hhand hpos).exists_edgesChange (hs.coherent.of_load_pos hpos).1
    rw [(finishAt_eq s stage position job).1]
    refine ⟨0, _, _, hchange n, fun hzero => absurd hzero (Nat.lt_irrefl 0), fun hsome hnone => ?_⟩
    rw [faults_finishAt, List.append_eq_nil_iff, Option.toList_eq_nil_iff] at hnone
    rw [hleft hnone.1] at hsome
    exact absurd hsome (Nat.lt_irrefl 0)

/-- A node that waits for nothing is claimed by the submission that looks at it. -/
theorem Does.exists_underWay (h : Does s move s') (hs : s.Orderly)
    (hfree : (s.graph.node n).inDegree = 0) (hbefore : (s.graph.node n).claimed = false)
    (hafter : (s'.graph.node n).claimed = true) :
    ∃ (k : Nat) (b : BatchId) (due : List NodeId),
      s.submissions[k]? = some ⟨b, n :: due, .underWay⟩ := by
  have hhand := Graph.faithful_handJob (κ := κ) s.system.grain
  have hno (hsame : (s'.graph.node n).claimed = (s.graph.node n).claimed) : False :=
    Bool.false_ne_true (hbefore.symm.trans (hsame.symm.trans hafter))
  have hof {k : Nat} {b : BatchId} {m : NodeId} {due : List NodeId}
      (hk : s.submissions[k]? = some ⟨b, m :: due, .underWay⟩)
      (hclaimed : ((Graph.handJob s.system.grain (s.graph.claim m).1 m).state.node n).claimed =
        true) : ∃ (k : Nat) (b : BatchId) (due : List NodeId),
      s.submissions[k]? = some ⟨b, n :: due, .underWay⟩ := by
    have hm := ((hs.scheduled.fits k _ hk).due m List.mem_cons_self).1
    rw [hhand.claimed, Graph.claimed_claim hm, hbefore] at hclaimed
    obtain rfl := hclaimed.resolve_left Bool.false_ne_true
    exact ⟨k, b, due, hk⟩
  cases h with
  | put hk _ _ _ => exact hof hk hafter
  | stall hk _ _ _ => exact hof hk hafter
  | @add i b _ work profile =>
    exact (hno (Graph.claimed_addNode (s.graph.register b.batch) work b.batch profile n)).elim
  | wire _ _ hwired _ => exact (hno (hwired.claimed n)).elim
  | discard _ _ => exact (hno (Graph.field_updateNode Node.claimed n)).elim
  | split _ hsplit =>
    obtain ⟨rfl, _, _⟩ := Graph.splitJob_spec hsplit
    exact (hno (Graph.field_updateNode Node.claimed n)).elim
  | @finish stage position job hjob =>
    have hpos : 0 < s.load job.node := load_pos_of_jobsAt hjob
    have hfinished := hs.coherent.finished hhand hpos
    rw [(finishAt_eq s stage position job).1, hfinished.claimed.1, hbefore] at hafter
    have hwaits := hfinished.one_le_inDegree (hafter.resolve_left Bool.false_ne_true)
    omega
  | _ => exact (hno rfl).elim

/-- A submission that stopped stays as it is. -/
theorem Does.stopped (h : Does s move s') {k : Nat} {sub : Submission}
    (hk : s.submissions[k]? = some sub) (hphase : sub.phase = .stopped) :
    s'.submissions[k]? = some sub := by
  have hset {l : Nat} {other next : Submission} (hl : s.submissions[l]? = some other)
      (hother : other.phase = .underWay) : (s.submissions.setIfInBounds l next)[k]? = some sub := by
    have hne : l ≠ k := by
      rintro rfl
      obtain rfl := Option.some.inj (hk.symm.trans hl)
      cases hphase.symm.trans hother
    exact (Array.getElem?_setIfInBounds_ne hne).trans hk
  have hpush (next : Submission) : (s.submissions.push next)[k]? = some sub := by
    have hlt := (Array.getElem?_eq_some_iff.mp hk).1
    rw [Array.getElem?_push, if_neg (Nat.ne_of_lt hlt)]
    exact hk
  cases h with
  | execute _ => exact hpush _
  | abandon _ => exact hpush _
  | skip hl _ => exact hset hl rfl
  | put hl _ _ _ => exact hset hl rfl
  | stall hl _ _ _ => exact hset hl rfl
  | close hl => exact hset hl rfl
  | finish _ =>
    rw [(finishAt_eq ..).2.2.2.2]
    exact hk
  | _ => exact hk

/-- Nothing can bring the node on. -/
inductive Stranded (s : Yard κ ε) (n : NodeId) : Prop where
  /-- It was claimed, but no job is made of an inverted range. -/
  | jobless (hclaimed : (s.graph.node n).claimed = true) (hinverted : s.IsInverted n)
  /-- Its submission stopped before it came to the node, and there is no edge to be taken. -/
  | passed {k : Nat} {sub : Submission} (hk : s.submissions[k]? = some sub)
      (hphase : sub.phase = .stopped) (hdue : n ∈ sub.due)
      (hfree : (s.graph.node n).inDegree = 0) (hunclaimed : (s.graph.node n).claimed = false)
  /-- It counts edges that no list holds any more. -/
  | short (hshort : (s.graph.edgeCount n : Int) < (s.graph.node n).inDegree)

/-- A node is idle as long as no part of it is queued, running or watched, and it is not complete. -/
def Idle (s : Yard κ ε) (n : NodeId) : Prop := s.load n = 0 ∧ s.graph.isComplete n = false

/-- A node that nobody has claimed is idle. -/
theorem Orderly.idle (hs : s.Orderly) (h : (s.graph.node n).claimed = false) : s.Idle n := by
  obtain ⟨hload, _, hopen⟩ := hs.coherent.of_not_claimed h
  exact ⟨hload, hopen⟩

/-- An idle node does not complete with the next move. -/
theorem Idle.isComplete (h : s.Idle n) (hs : s.Orderly) (hdoes : Does s move s') :
    s'.graph.isComplete n = false := by
  by_contra hcomplete
  rw [Bool.not_eq_false] at hcomplete
  rcases hdoes.isComplete hs hcomplete with hbefore | ⟨⟨stage, position, job, _, hjob, rfl⟩, _⟩
  · rw [h.2] at hbefore
    cases hbefore
  · have hpos : 0 < s.load job.node := load_pos_of_jobsAt hjob
    have hzero := h.1
    omega

namespace Stranded

/-- Stranded nodes are idle. -/
theorem idle (h : s.Stranded n) (hs : s.Orderly) (hmade : s.Made) : s.Idle n := by
  cases h with
  | jobless _ hinverted =>
    have hnone : n ∉ s.firstJobs.map Job.node := fun hmem =>
      ((hmade.mem_firstJobs n).mp hmem).2 hinverted
    have hload := hmade.load n hnone
    have hparts := hmade.parts n
    rw [List.count_eq_zero.mpr hnone, hload] at hparts
    refine ⟨hload, ?_⟩
    rw [← Bool.not_eq_true, hs.coherent.isComplete_iff]
    omega
  | passed _ _ _ _ hunclaimed => exact hs.idle hunclaimed
  | short hshort =>
    refine hs.idle ?_
    by_contra hclaimed
    rw [Bool.not_eq_false] at hclaimed
    have hfree := hs.coherent.free n hclaimed
    omega

/-- Stranded nodes stay stranded. -/
theorem does (h : s.Stranded n) (hs : s.Orderly) (hdoes : Does s move s') : s'.Stranded n := by
  cases h with
  | jobless hclaimed hinverted =>
    exact .jobless ((hs.grows hdoes).claimed n hclaimed)
      ((hdoes.isInverted_iff hs hclaimed).mpr hinverted)
  | @passed k sub hk hphase hdue hfree hunclaimed =>
    obtain ⟨made, taken, left, ⟨hdegree, hedge⟩, hmade, _⟩ := hdoes.exists_edgesChange hs n
    have hnone : made = 0 := by
      by_contra hne
      have harmed := (hs.scheduled.fits k sub hk).isArmed hdue
      rw [hmade (Nat.pos_of_ne_zero hne)] at harmed
      cases harmed
    have hle := hs.coherent.edgeCount_le n
    refine .passed (hdoes.stopped hk hphase) hphase hdue (by omega) ?_
    by_contra hclaimed
    rw [Bool.not_eq_false] at hclaimed
    obtain ⟨l, b, due, hl⟩ := hdoes.exists_underWay hs hfree hunclaimed hclaimed
    have hne : k ≠ l := by
      rintro rfl
      obtain rfl := Option.some.inj (hk.symm.trans hl)
      cases hphase
    have hmine := ((hs.scheduled.fits k sub hk).due n hdue).2
    have htheirs := ((hs.scheduled.fits l _ hl).due n List.mem_cons_self).2
    exact hs.scheduled.apart k l sub _ hne hk hl (hmine.symm.trans htheirs)
  | short hshort =>
    obtain ⟨made, taken, left, ⟨hdegree, hedge⟩, _⟩ := hdoes.exists_edgesChange hs n
    exact .short (by omega)

end Stranded

/-- Edges are lost only after a fault has come up. -/
def LosesByFault (s : Yard κ ε) : Prop :=
  ∀ n : Nat, (s.graph.edgeCount n : Int) < (s.graph.node n).inDegree → s.faults ≠ []

namespace LosesByFault

/-- Every move keeps this so. -/
theorem does (h : s.LosesByFault) (hs : s.Orderly) (hdoes : Does s move s') : s'.LosesByFault := by
  intro n hshort
  obtain ⟨made, taken, left, ⟨hdegree, hedge⟩, _, hleft⟩ := hdoes.exists_edgesChange hs n
  by_cases hpos : 0 < left
  · exact hleft hpos
  · have hbefore : s.faults ≠ [] := h n (by omega)
    obtain ⟨fault, hfault⟩ := List.exists_mem_of_ne_nil _ hbefore
    have hkept : s.faults <:+ s'.faults := hdoes.notes_isSuffix.filterMap Note.faultOf
    exact List.ne_nil_of_mem (hkept.subset hfault)

/-- Nothing is lost at the start. -/
theorem start (tracker : Tracker) (grain : Nat) :
    (start tracker grain : Yard κ ε).LosesByFault := by
  intro n hshort
  have hnode : (Yard.start tracker grain : Yard κ ε).graph.node n = default :=
    Graph.node_of_size_le (Nat.zero_le n)
  rw [hnode] at hshort
  exact absurd hshort (Int.not_lt.mpr (Int.natCast_nonneg _))

end LosesByFault

/-- Faults come from inverted ranges that were handed over. -/
theorem Made.exists_inverted (h : s.Made) (ha : s.Attentive) (hfaults : s.faults ≠ []) :
    ∃ m ∈ s.handedOver, s.IsInverted m := by
  by_contra hno
  have hsubset : s.handedOver ⊆ s.firstJobs.map Job.node := fun m hm =>
    (h.mem_firstJobs m).mpr ⟨hm, fun hinverted => hno ⟨m, hm, hinverted⟩⟩
  have hle := (ha.nodup.subperm hsubset).length_le
  rw [List.length_map, ha.length] at hle
  exact hfaults (List.length_eq_zero_iff.mp (by omega))

/-- Nodes are stranded by inverted ranges that were handed over. -/
theorem Stranded.exists_inverted (h : s.Stranded n) (ha : s.Attentive) (hmade : s.Made)
    (hhalting : s.Halting) (hloses : s.LosesByFault) : ∃ m ∈ s.handedOver, s.IsInverted m := by
  cases h with
  | jobless hclaimed hinverted => exact ⟨n, (ha.mem_handedOver n).mpr hclaimed, hinverted⟩
  | @passed k sub hk hphase _ _ _ =>
    obtain ⟨m, hm, _, hinverted⟩ := (hhalting.stopped k sub hk).mp hphase
    refine ⟨m, ?_, hinverted⟩
    rw [handedOver_eq_map]
    exact List.mem_map_of_mem hm
  | short hshort => exact hmade.exists_inverted ha (hloses n hshort)

/-- A chain of edges leads to the node from a stranded one, or from a cycle. -/
def Jammed (s : Yard κ ε) (n : NodeId) : Prop := s.graph.Jammed s.Stranded n

namespace Jammed

/-- A stranded node, or one that stands in a list, is idle. -/
theorem idle_of (hs : s.Orderly) (hmade : s.Made) (h : s.Stranded n ∨ ∃ i, s.graph.Edge i n) :
    s.Idle n := by
  rcases h with hstranded | ⟨i, hedge⟩
  · exact hstranded.idle hs hmade
  · exact hs.idle (hs.coherent.not_claimed_of_mem hedge)

/-- Jammed nodes are idle. -/
theorem idle (h : s.Jammed n) (hs : s.Orderly) (hmade : s.Made) : s.Idle n :=
  idle_of hs hmade h.cases

/-- Jammed nodes stay jammed. -/
theorem does (h : s.Jammed n) (hs : s.Orderly) (hmade : s.Made) (hdoes : Does s move s') :
    s'.Jammed n :=
  h.later (hs.grows hdoes).later (fun _ hi => hi.does hs hdoes)
    fun _ hi => (idle_of hs hmade hi).isComplete hs hdoes

end Jammed

/-- Nothing is under way, and every node was submitted. -/
structure Quiet (s : Yard κ ε) : Prop where
  jobs : s.jobs = []
  submissions : ∀ (k : Nat) (sub : Submission), s.submissions[k]? = some sub → sub.phase ≠ .underWay
  armed : ∀ n : Nat, n < s.graph.nodes.size → s.graph.isArmed n = true

/-- In a yard at rest, a node that is not complete is stranded or waits for another such node. -/
theorem Quiet.waits (h : s.Quiet) (hs : s.Orderly) (ha : s.Attentive) (hmade : s.Made)
    (hhalting : s.Halting) (hn : n < s.graph.nodes.size) (hopen : s.graph.isComplete n = false) :
    s.Stranded n ∨
      ∃ i, (i < s.graph.nodes.size ∧ s.graph.isComplete i = false) ∧ s.graph.Edge i n := by
  cases hclaimed : (s.graph.node n).claimed with
  | true =>
    refine Or.inl (.jobless hclaimed ?_)
    by_contra hordered
    have hmem := (hmade.mem_firstJobs n).mpr ⟨(ha.mem_handedOver n).mpr hclaimed, hordered⟩
    have hone := List.count_pos_iff.mpr hmem
    have hparts := hmade.parts n
    have hload : s.load n = 0 := by
      unfold load
      rw [h.jobs, List.countP_nil]
    have hle := hs.coherent.load_le n
    have hzero : (s.graph.node n).parts = 0 := by omega
    rw [(hs.coherent.isComplete_iff n).mpr hzero] at hopen
    cases hopen
  | false =>
    by_cases hfree : (s.graph.node n).inDegree = 0
    · have hdue : n ∈ s.due := by
        by_contra hnot
        exact ha.attended.waits n hn (h.armed n hn) hclaimed hnot hfree
      obtain ⟨k, sub, hk, hmem⟩ := mem_due.mp hdue
      refine Or.inl (.passed hk ?_ hmem hfree hclaimed)
      cases hphase : sub.phase with
      | underWay => exact absurd hphase (h.submissions k sub hk)
      | stopped => rfl
      | ended =>
        rw [hhalting.ended k sub hk hphase] at hmem
        exact absurd hmem List.not_mem_nil
    · have hle := hs.coherent.edgeCount_le n
      by_cases hshort : (s.graph.edgeCount n : Int) < (s.graph.node n).inDegree
      · exact Or.inl (.short hshort)
      · obtain ⟨i, hi, hedge⟩ := Graph.exists_mem_of_edgeCount_pos (g := s.graph) (m := n) (by omega)
        refine Or.inr ⟨i, ⟨hi, ?_⟩, hedge⟩
        by_contra hcomplete
        rw [Bool.not_eq_false] at hcomplete
        rw [Graph.entries_of_isComplete hcomplete] at hedge
        exact absurd hedge List.not_mem_nil

/-- In a yard at rest, the nodes that are not jammed are complete. -/
theorem Quiet.isComplete_iff (h : s.Quiet) (hs : s.Orderly) (ha : s.Attentive) (hmade : s.Made)
    (hhalting : s.Halting) (hn : n < s.graph.nodes.size) :
    s.graph.isComplete n = true ↔ ¬ s.Jammed n := by
  constructor
  · intro hcomplete hjammed
    rw [(hjammed.idle hs hmade).2] at hcomplete
    cases hcomplete
  · intro hfree
    by_contra hopen
    rw [Bool.not_eq_true] at hopen
    exact hfree (Graph.jammed_of_forall
      (fun i => i < s.graph.nodes.size ∧ s.graph.isComplete i = false)
      (fun _ hi => h.waits hs ha hmade hhalting hi.1 hi.2) ⟨hn, hopen⟩)

end HazardFlow.Yard
