import HazardFlow.Proofs.Schedule.Faultless
import HazardFlow.Proofs.Yard.Count

/-!
# The signal of a batch is exact

A batch counts its incomplete nodes, and one thing more until its submission has ended. Nodes may
finish before, during and after submissions, and each is counted down once, with its last part. So
the batch is done when its submission has ended and all of its nodes are complete, and not before.
-/

namespace HazardFlow

variable {κ ε : Type}

/-- A move that adds no range that no cursor covers. -/
def Move.Ordered : Move κ → Prop
  | .add _ work _ => work.Ordered
  | _ => True

namespace Yard

variable {s s' : Yard κ ε} {move : Move κ}

/-- Whether the submission of a batch has ended. -/
def hasEnded (s : Yard κ ε) (b : BatchId) : Bool :=
  s.submissions.any fun sub => sub.batch == b && sub.phase == .ended

/-- What a batch counts besides its nodes: its submission, until that has ended. -/
def held (s : Yard κ ε) (b : BatchId) : Nat := if s.hasEnded b then 0 else 1

theorem hasEnded_iff {b : BatchId} : s.hasEnded b = true ↔
    ∃ (k : Nat) (sub : Submission), s.submissions[k]? = some sub ∧ sub.batch = b ∧
      sub.phase = .ended := by
  unfold hasEnded
  simp only [Array.any_eq_true, Bool.and_eq_true, beq_iff_eq]
  exact ⟨fun ⟨k, hk, h⟩ => ⟨k, s.submissions[k], Array.getElem?_eq_getElem hk, h⟩,
    fun ⟨k, sub, hk, h⟩ => by
      obtain ⟨hlt, rfl⟩ := Array.getElem?_eq_some_iff.mp hk
      exact ⟨k, hlt, h⟩⟩

/-- A batch that is not submitted counts its submission. -/
theorem held_of_forall {b : BatchId}
    (h : ∀ (k : Nat) (sub : Submission), s.submissions[k]? = some sub → sub.batch = b →
      sub.phase ≠ .ended) : s.held b = 1 := by
  refine if_neg fun hended => ?_
  obtain ⟨k, sub, hk, hbatch, hphase⟩ := hasEnded_iff.mp hended
  exact h k sub hk hbatch hphase

/-- A submission that goes on may end the one of its batch. -/
theorem hasEnded_set {k : Nat} {sub sub' : Submission} (hk : s.submissions[k]? = some sub)
    (hs' : s'.submissions = s.submissions.setIfInBounds k sub') (hphase : sub.phase ≠ .ended)
    (hbatch : sub'.batch = sub.batch) (b : BatchId) :
    s'.hasEnded b = true ↔ s.hasEnded b = true ∨ sub'.phase = .ended ∧ b = sub.batch := by
  have hself : (s.submissions.setIfInBounds k sub')[k]? = some sub' :=
    Array.getElem?_setIfInBounds_self_of_lt (Array.getElem?_eq_some_iff.mp hk).1
  have hother {l : Nat} (hl : l ≠ k) :
      (s.submissions.setIfInBounds k sub')[l]? = s.submissions[l]? :=
    Array.getElem?_setIfInBounds_ne (Ne.symm hl)
  rw [hasEnded_iff, hasEnded_iff, hs']
  constructor
  · rintro ⟨l, other, hl, rfl, hended⟩
    by_cases hlk : l = k
    · subst hlk
      obtain rfl := Option.some.inj (hself.symm.trans hl)
      exact Or.inr ⟨hended, hbatch⟩
    · exact Or.inl ⟨l, other, (hother hlk).symm.trans hl, rfl, hended⟩
  · rintro (⟨l, other, hl, rfl, hended⟩ | ⟨hended, rfl⟩)
    · have hlk : l ≠ k := by
        rintro rfl
        obtain rfl := Option.some.inj (hk.symm.trans hl)
        exact hphase hended
      exact ⟨l, other, (hother hlk).trans hl, rfl, hended⟩
    · exact ⟨k, sub', hself, hbatch, hended⟩

/-- A batch counts the same as long as the submissions that have ended are the same. -/
theorem held_congr (h : ∀ b : Nat, s'.hasEnded b = true ↔ s.hasEnded b = true) (b : BatchId) :
    s'.held b = s.held b := by
  unfold held
  rw [Bool.eq_iff_iff.mpr (h b)]

/-- The graph is exact, and batches count their incomplete nodes and submissions. -/
structure Exact (s : Yard κ ε) : Prop where
  grain : 0 < s.system.grain
  graph : s.graph.Exact s.load s.due
  tally : ∀ b : Nat, b < s.graph.batches.size → s.graph.Tally b (s.held b)

namespace Exact

/-- The batch of a builder counts a submission still to come. -/
theorem held_of_holds (hs : s.Orderly) {b : Builder} (hb : b.Holds s.graph) :
    s.held b.batch = 1 := by
  refine held_of_forall fun k sub hk hbatch _ => ?_
  have harmed := (hs.scheduled.fits k sub hk).armed
  rw [hbatch, hb.unarmed] at harmed
  cases harmed

/-- So does the batch of a submission that is under way. -/
theorem held_of_underWay (hs : s.Orderly) {k : Nat} {sub : Submission}
    (hk : s.submissions[k]? = some sub) (hphase : sub.phase ≠ .ended) : s.held sub.batch = 1 := by
  refine held_of_forall fun l other hl hbatch => ?_
  by_cases hlk : l = k
  · subst hlk
    obtain rfl := Option.some.inj (hk.symm.trans hl)
    exact hphase
  · exact absurd hbatch (hs.scheduled.apart l k other sub hlk hl hk)

/-- So does a batch that is started. -/
theorem tally_startBatch (h : s.Exact) (hs : s.Orderly)
    (hheld : ∀ b : Nat, s'.held b = s.held b) {b : Nat} (hb : b < s.graph.batches.size + 1) :
    s.graph.startBatch.1.Tally b (s'.held b) := by
  rw [hheld]
  by_cases hfresh : b = s.graph.batches.size
  · have hone : s.held b = 1 := held_of_forall fun k sub hk hbatch _ => by
      have hlt := (hs.scheduled.fits k sub hk).batch_lt
      rw [hbatch, hfresh] at hlt
      exact absurd hlt (Nat.lt_irrefl _)
    rw [hone, hfresh]
    exact .startBatch_self hs.coherent
  · have hold : b < s.graph.batches.size := by omega
    exact (h.tally b hold).startBatch hold

theorem newBuilder (h : s.Exact) (hs : s.Orderly) : (s.act .newBuilder).Exact where
  grain := h.grain
  graph := h.graph.startBatch hs.coherent
  tally b hb := by
    have hlt : b < s.graph.batches.size + 1 := by
      rw [← Graph.size_batches_startBatch]
      exact hb
    exact h.tally_startBatch hs (fun _ => rfl) hlt

theorem add (h : s.Exact) (hs : s.Orderly) {i : Nat} {b : Builder}
    (hi : s.crews[i]? = some (.adding b)) {work : Work κ} (hwork : work.Ordered)
    (profile : Option Profile) : (s.add i b work profile).Exact := by
  have hb := hs.staffed.holds i b (Crew.builderAt_of_adding hi)
  refine ⟨h.grain, h.graph.addNode hwork hb.unarmed profile, fun c hc => ?_⟩
  have hlt : c < s.graph.batches.size := by
    rw [← Graph.size_batches_updateBatch s.graph b.batch]
    exact hc
  by_cases hne : b.batch = c
  · subst hne
    have hone : s.held b.batch = 0 + 1 := held_of_holds hs hb
    have htally := h.tally b.batch hlt
    rw [hone] at htally
    have hself := htally.addNode_self hlt work profile
    rw [← hone] at hself
    exact hself
  · exact (h.tally c hlt).addNode_of_ne hne work profile

theorem submit (h : s.Exact) (hs : s.Orderly) {i : Nat} {b : Builder}
    (hi : Crew.builderAt s.crews i = some b) (next : Builder → Crew) :
    (s.submit i b next).Exact := by
  have hb := hs.staffed.holds i b hi
  have hended (c : Nat) : (s.submit i b next).hasEnded c = s.hasEnded c := by
    simp [hasEnded, Yard.submit]
  have hdue : (s.submit i b next).due = s.due ++ b.nodes := by
    simp [due, Yard.submit]
  refine ⟨h.grain, ?_, fun c hc => ?_⟩
  · rw [hdue]
    exact (h.graph.startBatch hs.coherent).arm fun n hn hbatch =>
      (hb.mem_nodes n).mpr ⟨hn, hbatch⟩
  · have hlt : c < s.graph.batches.size + 1 := by
      rw [← Graph.size_batches_startBatch,
        ← Graph.size_batches_updateBatch s.graph.startBatch.1 b.batch]
      exact hc
    refine (h.tally_startBatch hs (held_congr fun c => ?_) hlt).arm b.batch
    rw [hended]

theorem close (h : s.Exact) (hs : s.Orderly) {k : Nat} {b : BatchId}
    (hk : s.submissions[k]? = some ⟨b, [], .underWay⟩) : (s.close k b).Exact := by
  have hset : (s.close k b).submissions = s.submissions.setIfInBounds k ⟨b, [], .ended⟩ := rfl
  have hended := hasEnded_set hk hset nofun rfl
  refine ⟨h.grain, (h.graph.finishOne b).of_due fun n hn hnot => ?_, fun c hc => ?_⟩
  · exact absurd (mem_due_of_set hk hset hn hnot).1 List.not_mem_nil
  · have hlt : c < s.graph.batches.size := by
      rw [← Graph.size_batches_updateBatch s.graph b]
      exact hc
    have htally := h.tally c hlt
    by_cases hne : b = c
    · subst hne
      rw [held_of_underWay hs hk nofun] at htally
      have hzero : (s.close k b).held b = 0 := if_pos ((hended b).mpr (Or.inr ⟨rfl, rfl⟩))
      rw [hzero]
      exact htally.finishOne_self hlt
    · have hsame : (s.close k b).held c = s.held c := by
        unfold held
        rw [Bool.eq_iff_iff.mpr ((hended c).trans (or_iff_left fun hc => hne hc.2.symm))]
      rw [hsame]
      exact htally.finishOne_of_ne hne

/-- A yard stays exact while its graph only takes steps. -/
theorem of_steps (h : s.Exact) (hs : s.Orderly)
    (hsteps : Graph.Steps s.system.grain s.graph s.load s'.graph s'.load)
    (hgrain : s'.system.grain = s.system.grain) (hsubmissions : s'.submissions = s.submissions) :
    s'.Exact := by
  obtain ⟨hgraph, htally⟩ := hsteps.exact h.grain hs.coherent h.graph
  have hbatches := (hsteps.coherent_steady hs.coherent).2.batches
  have hdue : s'.due = s.due := by
    unfold due
    rw [hsubmissions]
  refine ⟨hgrain ▸ h.grain, hdue ▸ hgraph, fun b hb => ?_⟩
  have hheld : s'.held b = s.held b := by
    unfold held hasEnded
    rw [hsubmissions]
  rw [hheld]
  exact htally b _ (h.tally b (by rwa [hbatches] at hb))

/-- Moves that dispatch nodes and run jobs keep a yard exact, and meet no fault. -/
theorem of_runs (h : s.Exact) (hs : s.Orderly) (hdoes : Does s move s') (hruns : move.Runs) :
    s'.Exact := by
  have hsteps := hdoes.steps hs hruns
  obtain ⟨hgraph, htally⟩ := hsteps.exact h.grain hs.coherent h.graph
  have hgrain : 0 < s'.system.grain := by
    rw [hdoes.grain]
    exact h.grain
  have hbatches := (hsteps.coherent_steady hs.coherent).2.batches
  have hof (hdue : ∀ n : Nat, n ∈ s.due → n ∉ s'.due →
      (s'.graph.node n).claimed = true ∨ (s'.graph.node n).inDegree ≠ 0)
      (hheld : ∀ b : Nat, s'.held b = s.held b) : s'.Exact := by
    refine ⟨hgrain, hgraph.of_due hdue, fun b hb => ?_⟩
    rw [hheld]
    exact htally b _ (h.tally b (by rwa [hbatches] at hb))
  have hsame (hsubmissions : s'.submissions = s.submissions) : s'.Exact :=
    h.of_steps hs hsteps hdoes.grain hsubmissions
  have hnext {k : Nat} {b : BatchId} {n : NodeId} {due : List NodeId}
      (hk : s.submissions[k]? = some ⟨b, n :: due, .underWay⟩)
      (hset : s'.submissions = s.submissions.setIfInBounds k ⟨b, due, .underWay⟩)
      (hself : (s'.graph.node n).claimed = true ∨ (s'.graph.node n).inDegree ≠ 0) : s'.Exact := by
    refine hof (fun m hm hnot => ?_) (held_congr fun c => ?_)
    · obtain ⟨hmem, hgone⟩ := mem_due_of_set hk hset hm hnot
      obtain rfl : m = n := (List.mem_cons.mp hmem).resolve_right hgone
      exact hself
    · rw [hasEnded_set hk hset nofun rfl]
      exact or_iff_left fun hended => nomatch hended.1
  cases hdoes with
  | keep => exact h
  | skip hk hskip => exact hnext hk rfl hskip.symm
  | @put k b n due job hk _ _ _ =>
    refine hnext hk rfl (Or.inl ?_)
    have hn := ((hs.scheduled.fits k _ hk).due n List.mem_cons_self).1
    have hclaimed := (Graph.faithful_handJob s.system.grain).claimed (s.graph.claim n).1 n n
    exact hclaimed.trans ((Graph.claimed_claim hn n).mpr (Or.inr rfl))
  | @stall k b n due fault hk _ hunclaimed hjob =>
    have hn := ((hs.scheduled.fits k _ hk).due n List.mem_cons_self).1
    obtain ⟨job, hok⟩ := h.graph.exists_handJob h.grain hn hunclaimed
    cases hjob.symm.trans hok
  | split _ _ => exact hsame rfl
  | begin _ => exact hsame rfl
  | watch _ => exact hsame rfl
  | finish _ => exact hsame (finishAt_eq ..).2.2.2.2
  | _ => exact hruns.elim

/-- Moves keep a yard exact, as long as ranges are ordered. -/
theorem does (h : s.Exact) (hs : s.Orderly) (hdoes : Does s move s') (hordered : move.Ordered) :
    s'.Exact := by
  by_cases hruns : move.Runs
  · exact h.of_runs hs hdoes hruns
  · cases hdoes with
    | keep => exact h
    | newBuilder => exact h.newBuilder hs
    | add hi work profile => exact h.add hs hi hordered profile
    | wire _ harmed hwired _ =>
      refine ⟨h.grain, h.graph.wired hwired harmed, fun b hb => (h.tally b ?_).wired hwired⟩
      rwa [← hwired.batches]
    | reset => exact ⟨h.grain, h.graph, h.tally⟩
    | execute hi => exact h.submit hs (Crew.builderAt_of_adding hi) _
    | drop _ _ => exact ⟨h.grain, h.graph, h.tally⟩
    | @discard i b n left _ _ =>
      exact ⟨h.grain, h.graph.setWork n fun _ => ⟨.idle, rfl, trivial⟩,
        fun c hc => (h.tally c hc).updateNode n⟩
    | abandon hi => exact h.submit hs (Crew.builderAt_of_leaving hi) _
    | close hk => exact h.close hs hk
    | _ => exact absurd trivial hruns

/-- Nothing is counted at the start. -/
theorem start (tracker : Tracker) {grain : Nat} (hgrain : 0 < grain) :
    (start tracker grain : Yard κ ε).Exact :=
  ⟨hgrain, .empty, fun _ hb => absurd hb (Nat.not_lt_zero _)⟩

/-- A batch is done when its submission has ended and its nodes are complete. -/
theorem done_iff (h : s.Exact) {b : Nat} (hb : b < s.graph.batches.size) :
    (s.graph.batch b).done = true ↔ s.hasEnded b = true ∧
      ∀ n : Nat, n < s.graph.nodes.size → (s.graph.node n).batch = b →
        s.graph.isComplete n = true := by
  rw [(h.tally b hb).done, (h.tally b hb).remaining, ← Graph.outstanding_eq_zero_iff]
  unfold held
  split
  · next hended => simp [hended]
  · next hended =>
    refine iff_of_false (by omega) fun hyes => hended hyes.1

/-- A node is complete when it was claimed and has no job left. -/
theorem isComplete_iff (h : s.Exact) (hs : s.Orderly) (n : Nat) :
    s.graph.isComplete n = true ↔ (s.graph.node n).claimed = true ∧ s.load n = 0 := by
  rw [hs.coherent.isComplete_iff]
  constructor
  · intro hparts
    have hclaimed := hs.coherent.claimed_of_isComplete n ((hs.coherent.isComplete_iff n).mpr hparts)
    have hload := h.graph.parts n hclaimed
    exact ⟨hclaimed, by omega⟩
  · rintro ⟨hclaimed, hload⟩
    rw [h.graph.parts n hclaimed, hload]
    rfl

end Exact

/-- Batches count their nodes and their submission, each until it has finished, and are done when
nothing is left to count. -/
structure SignalsExactly (s : Yard κ ε) : Prop where
  /-- A batch counts its incomplete nodes, and one thing more until its submission has ended. -/
  remaining : ∀ b : Nat, b < s.graph.batches.size →
    (s.graph.batch b).remaining = s.graph.outstanding b + if s.hasEnded b then 0 else 1
  /-- It never counts below zero. -/
  nonneg : ∀ b : Nat, b < s.graph.batches.size → 0 ≤ (s.graph.batch b).remaining
  /-- A batch is done when its submission has ended and its nodes are complete. -/
  done : ∀ b : Nat, b < s.graph.batches.size → ((s.graph.batch b).done = true ↔
    s.hasEnded b = true ∧
      ∀ n : Nat, n < s.graph.nodes.size → (s.graph.node n).batch = b → s.graph.isComplete n = true)
  /-- A node is complete when it was dispatched and no part of it is queued, running or watched. -/
  complete : ∀ n : Nat, n < s.graph.nodes.size →
    (s.graph.isComplete n = true ↔ (s.graph.node n).claimed = true ∧ s.load n = 0)
  /-- The size of a batch is the number of nodes that its builder added before it submitted the
  batch, and after it submitted the one before. -/
  size : ∀ (i : Nat) (b : BatchId) (before : List BuilderNote),
    (.submitted i b :: before) <:+ s.builderNotes → (s.graph.batch b).size = addedSince i before

/-- In an orderly and exact yard, the signals of batches are exact. -/
theorem Exact.signalsExactly (h : s.Exact) (hs : s.Orderly) (hcounted : s.Counted) :
    s.SignalsExactly where
  remaining b hb := by
    rw [(h.tally b hb).remaining]
    unfold held
    split <;> rfl
  nonneg b hb := by
    rw [(h.tally b hb).remaining]
    omega
  done _ hb := h.done_iff hb
  complete n _ := h.isComplete_iff hs n
  size i b before hb := (hcounted.submitted i b before hb).2

/-- Yards stay exact from the start. -/
theorem exact_run {tracker : Tracker} {count grain : Nat}
    (htracker : Tracker.create count = .ok tracker) (hgrain : 0 < grain) {moves : List (Move κ)}
    (hordered : ∀ move ∈ moves, move.Ordered) :
    ((start tracker grain : Yard κ ε).run moves).Orderly ∧
      ((start tracker grain : Yard κ ε).run moves).Exact ∧
        ((start tracker grain : Yard κ ε).run moves).Counted :=
  (Orderly.start htracker grain).run (fun s : Yard κ ε => s.Exact ∧ s.Counted) moves
    ⟨.start tracker hgrain, .start tracker grain⟩
    fun _ _ move hmem hs h hdoes =>
      ⟨h.1.does hs hdoes (hordered move hmem), h.2.does hs hdoes⟩

/-- However builders, submissions and jobs take turns, the signals of batches are exact, and a batch
that is done stays so. No system is set up with a grain of zero (`Settings.validate`). -/
theorem signalsExactly_run {tracker : Tracker} {count grain : Nat}
    (htracker : Tracker.create count = .ok tracker) (hgrain : 0 < grain) {moves : List (Move κ)}
    (hordered : ∀ move ∈ moves, move.Ordered) (more : List (Move κ)) :
    ((start tracker grain : Yard κ ε).run moves).SignalsExactly ∧
      ∀ b : Nat, (((start tracker grain : Yard κ ε).run moves).graph.batch b).done = true →
        (((start tracker grain : Yard κ ε).run (moves ++ more)).graph.batch b).done = true := by
  obtain ⟨hs, hexact, hcounted⟩ := exact_run (ε := ε) htracker hgrain hordered
  refine ⟨hexact.signalsExactly hs hcounted, fun b hb => ?_⟩
  unfold run at hb ⊢
  rw [List.foldl_append]
  exact (hs.grows_run more).done b hb

/-- Node 0 is split, and one of its pieces answers an event. Node 1 of another builder, which goes
away, waits for it. The submission of node 0 ends while its pieces are under way. -/
def splitAndDropped : List (Move Unit) :=
  [.newBuilder, .newBuilder, .add 0 (.range ⟨0, 8⟩ ()) none, .add 1 (.host ()) none,
    .wire 1 (.edge 0), .execute 0, .dispatch 0, .split 0, .begin 0, .begin 0, .drop 1, .discard 1,
    .abandon 1, .watch 0, .finish .running 0, .dispatch 1, .close 0, .finish .watched 0]

/-- The first batch is done before the second one, which waits for its node and its submission. -/
theorem signalsExactly_splitAndDropped :
    ((start { shards := #[{}] } 2 : Yard Unit Unit).run splitAndDropped).SignalsExactly ∧
      (((start { shards := #[{}] } 2 : Yard Unit Unit).run splitAndDropped).graph.batches.toList.map
        fun b => (b.remaining, b.size, b.done)) =
          [(0, 1, true), (2, 1, false), (1, 0, false), (1, 0, false)] := by
  have htracker : Tracker.create 1 = .ok { shards := #[{}] } := rfl
  exact ⟨(signalsExactly_run htracker Nat.two_pos
    (by simp [splitAndDropped, Move.Ordered, Work.Ordered]) []).1, by decide +kernel⟩

end Yard

end HazardFlow
