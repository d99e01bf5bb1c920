import HazardFlow.Proofs.Plant.Keeping
import HazardFlow.Proofs.Yard.Jams

/-!
# What a stopped system completes

A system that stops completes every node that was added until then, unless a chain of edges leads to
the node from a cycle. Afterwards it has no workers, and nodes that are submitted to it are queued for
good: no later call completes one, since a system without workers has nothing to be stopped. So a batch
whose submission has ended is done when all of its nodes were completed in this way, and not otherwise.
-/

namespace HazardFlow

variable {κ ε : Type}

namespace Yard

variable {s : Yard κ ε} {n : NodeId}

/-- In an exact yard at rest, a node that is not complete waits for another such node. -/
theorem Quiet.exists_edge (h : s.Quiet) (hs : s.Orderly) (he : s.Exact) (hl : s.Looked)
    (hn : n < s.graph.nodes.size) (hopen : s.graph.isComplete n = false) :
    ∃ i, (i < s.graph.nodes.size ∧ s.graph.isComplete i = false) ∧ s.graph.Edge i n := by
  have hunclaimed : (s.graph.node n).claimed = false := by
    by_contra hclaimed
    rw [Bool.not_eq_false] at hclaimed
    have hload : s.load n = 0 := by
      unfold load
      rw [h.jobs, List.countP_nil]
    rw [(he.isComplete_iff hs n).mpr ⟨hclaimed, hload⟩] at hopen
    cases hopen
  have hdue : n ∉ s.due := fun hmem => by
    obtain ⟨k, sub, hk, hdue⟩ := mem_due.mp hmem
    rw [hl k sub hk (h.submissions k sub hk)] at hdue
    exact absurd hdue List.not_mem_nil
  have hwaits := he.graph.waits n hn (h.armed n hn) hunclaimed hdue
  have hdegree := he.graph.inDegree n
  obtain ⟨i, hi, hedge⟩ := Graph.exists_mem_of_edgeCount_pos (g := s.graph) (m := n) (by omega)
  refine ⟨i, ⟨hi, ?_⟩, hedge⟩
  by_contra hcomplete
  rw [Bool.not_eq_false] at hcomplete
  rw [Graph.entries_of_isComplete hcomplete] at hedge
  exact absurd hedge List.not_mem_nil

/-- In an exact yard at rest, all nodes are complete but those behind cycles. -/
theorem Quiet.isComplete_iff_not_jammed (h : s.Quiet) (hs : s.Orderly) (he : s.Exact)
    (hl : s.Looked) (n : NodeId) :
    s.graph.isComplete n = true ↔
      n < s.graph.nodes.size ∧ ¬ s.graph.Jammed (fun _ => False) n := by
  constructor
  · intro hcomplete
    have hclaimed := hs.coherent.claimed_of_isComplete n hcomplete
    refine ⟨Graph.lt_size_of_claimed hclaimed, fun hjammed => ?_⟩
    obtain ⟨i, hedge⟩ := hjammed.cases.resolve_left id
    rw [hs.coherent.not_claimed_of_mem hedge] at hclaimed
    cases hclaimed
  · rintro ⟨hn, hfree⟩
    by_contra hopen
    rw [Bool.not_eq_true] at hopen
    exact hfree (Graph.jammed_of_forall
      (fun i => i < s.graph.nodes.size ∧ s.graph.isComplete i = false)
      (fun _ hi => Or.inr (h.exists_edge hs he hl hi.1 hi.2)) ⟨hn, hopen⟩)

end Yard

/-- Nothing happens at the behest of a worker that is not there. -/
theorem Site.act_of_absent {s : Site κ ε} {a : Action κ ε} {w : Nat} (ha : a.worker? = some w)
    (hw : s.system.workers[w]? = none) : s.act a = s := by
  have hfree : s.system.isFree w = false := by simp [System.isFree, hw]
  cases a with
  | take v place position split =>
    obtain rfl := Option.some.inj ha
    simp [act, take, hfree]
  | begin v =>
    obtain rfl := Option.some.inj ha
    simp [act, begin, hfree]
  | conclude v result =>
    obtain rfl := Option.some.inj ha
    simp [act, System.conclude, System.runningOn, hw]
  | settle v position =>
    obtain rfl := Option.some.inj ha
    simp [act, System.settle, System.watchedAt, hw]
  | poll v query =>
    obtain rfl := Option.some.inj ha
    simp [act, System.poll, hw]
  | _ => cases ha

namespace Plant

variable {p p' : Plant κ ε} {move : Move κ ε}

/-- Nothing is under way in a plant whose inbox was emptied. -/
theorem Kept.quiet (h : p.Kept) {retired : Nat} (hcourse : p.course = .emptying retired)
    (hwaiting : p.system.inbox.waiting = []) : p.yard.Quiet := by
  have hfits := h.course
  rw [hcourse] at hfits
  obtain ⟨hvacant, hworkers⟩ := hfits
  unfold isVacant at hvacant
  rw [Bool.and_eq_true, Array.all_eq_true, Array.all_eq_true] at hvacant
  refine ⟨?_, fun k sub hk hphase => ?_, fun n hn => ?_⟩
  · unfold Yard.jobs yard System.underWay System.watched
    rw [hwaiting, hworkers]
    rfl
  · obtain ⟨hlt, rfl⟩ := Array.getElem?_eq_some_iff.mp hk
    have hover := hvacant.2 k hlt
    rw [bne_iff_ne] at hover
    exact hover hphase
  · by_contra hunarmed
    rw [Bool.not_eq_true] at hunarmed
    obtain ⟨i, b, hi, _⟩ := h.crewed n hn hunarmed
    unfold Crew.builderAt at hi
    obtain ⟨crew, hcrew, hbuilder⟩ := Option.bind_eq_some_iff.mp hi
    obtain ⟨hlt, rfl⟩ := Array.getElem?_eq_some_iff.mp hcrew
    have hgone := hvacant.1 i hlt
    rw [beq_iff_eq] at hgone
    have hnone : (Crew.gone).builder = some b := hgone ▸ hbuilder
    cases hnone

/-- A plant that may be used has not been told to stop, or has stopped. -/
theorem Kept.course_of_isOpen (h : p.Kept) (hopen : p.isOpen = true) :
    p.course = .serving ∨ p.course = .stopped := by
  have hfits := h.course
  unfold isOpen at hopen
  cases hcourse : p.course with
  | serving => exact Or.inl rfl
  | stopped => exact Or.inr rfl
  | stopping | emptying _ =>
    rw [hcourse] at hopen
    cases hopen
  | failed =>
    rw [hcourse] at hfits
    exact hfits.elim

/-- A plant that may be used but has no workers. -/
structure Unmanned (p : Plant κ ε) : Prop where
  usable : p.isOpen = true
  gone : p.system.workers = #[]

/-- A call that tells a plant to stop returns when it finds no workers, or when it has emptied the
inbox. -/
theorem Does.stops_cases (hdoes : Does p move p') (h : p.Kept) :
    p'.stops = p.stops ∨
    p'.stops = p.stops + 1 ∧ (p.Unmanned ∨ p'.Unmanned ∧ p'.yard.Quiet) := by
  have hrest {c : Closing κ ε} (hcourse : c.course ≠ .stopped) :
      (p.withClosing c).stops = p.stops := if_neg fun hboth => hcourse hboth.1
  cases hdoes with
  | skip hopen _ hworkers => exact Or.inr ⟨rfl, Or.inl ⟨hopen, hworkers⟩⟩
  | leave hcourse hdoes =>
    refine Or.inl (hrest ?_)
    rw [hdoes.course_of_leave, show p.closing.course = .stopping from hcourse]
    nofun
  | close hdoes =>
    cases hdoes with
    | keep => exact Or.inl (congrArg Plant.stops (withClosing_closing p))
    | dismiss _ _ =>
      refine Or.inl (hrest ?_)
      nofun
    | retire _ _ =>
      refine Or.inl (hrest ?_)
      dsimp only
      split <;> nofun
    | @finish retired system hcourse hwaiting hsystem =>
      have hcourse' : p.course = .emptying retired := hcourse
      have hquiet := h.quiet hcourse' hwaiting
      have hfits := h.course
      rw [hcourse'] at hfits
      have hopen : p.course ≠ .stopped := by
        rw [hcourse']
        nofun
      refine Or.inr ⟨if_pos ⟨rfl, hopen⟩, Or.inr ⟨⟨rfl, ?_⟩, ?_⟩⟩
      · rcases hsystem with rfl | rfl <;> exact hfits.2
      · rcases hsystem with rfl | rfl <;> exact ⟨hquiet.jobs, hquiet.submissions, hquiet.armed⟩
  | _ => exact Or.inl rfl

/-- A plant that has not stopped yet has workers. -/
def Unstopped (p : Plant κ ε) : Prop :=
  p.stops = 0 → p.course ≠ .stopped ∧ (p.isOpen = true → p.system.workers ≠ #[])

/-- Every move keeps this so. -/
theorem Unstopped.does (hbefore : p.Unstopped) (h : p.Kept) (h' : p'.Kept) (hdoes : Does p move p') :
    p'.Unstopped := by
  intro hstops
  have hsame : p.stops = 0 := by
    rcases hdoes.stops_cases h with hsame | ⟨hmore, _⟩ <;> omega
  obtain ⟨hcourse, hworkers⟩ := hbefore hsame
  cases hdoes with
  | keep => exact ⟨hcourse, hworkers⟩
  | @build move hopen hmove =>
    obtain ⟨_, hsupplies⟩ := h.exact.exists_supplies h.orderly (h.orderly.does_act move) hmove
    exact ⟨hcourse, fun _ hnone => hworkers hopen (hsupplies.workers.symm.trans hnone)⟩
  | @work a w ha _ _ =>
    have hhands := Site.hands_of_worker (s := { system := p.system }) h.coherent h.system ha
    refine ⟨hcourse, fun hopen hnone => hworkers hopen (Array.eq_empty_of_size_eq_zero ?_)⟩
    exact (hhands.spares w ha).size.symm.trans (congrArg Array.size hnone)
  | skip => cases hstops
  | stop => exact ⟨nofun, nofun⟩
  | @leave w c hstopping hdoes =>
    have hcourse' : (p.withClosing c).course = .stopping := hdoes.course_of_leave.trans hstopping
    unfold isOpen
    rw [hcourse']
    exact ⟨nofun, nofun⟩
  | close hdoes =>
    cases hdoes with
    | keep =>
      rw [withClosing_closing]
      exact ⟨hcourse, hworkers⟩
    | dismiss => exact ⟨nofun, nofun⟩
    | retire =>
      refine ⟨?_, fun hopen => absurd (h'.course_of_isOpen hopen) ?_⟩
      all_goals
        unfold withClosing
        dsimp only
        split <;> simp
    | finish =>
      unfold withClosing at hstops
      rw [if_pos ⟨rfl, hcourse⟩] at hstops
      cases hstops

/-- In a plant without workers nothing completes any more. -/
theorem Unmanned.does (hp : p.Unmanned) (h : p.Kept) (h' : p'.Kept) (hdoes : Does p move p') :
    p'.Unmanned ∧
      ∀ n : Nat, p'.graph.isComplete n = true ↔ p.graph.isComplete n = true := by
  have hcourse := h.course_of_isOpen hp.usable
  cases hdoes with
  | keep => exact ⟨hp, fun _ => Iff.rfl⟩
  | @build move _ hmove =>
    obtain ⟨made, hsupplies⟩ :=
      h.exact.exists_supplies h.orderly (h.orderly.does_act move) hmove
    have horderly := h.orderly.does (h.orderly.does_act move)
    have hexact := h'.exact
    rw [yard_build hsupplies] at hexact
    refine ⟨⟨hp.usable, hsupplies.workers.trans hp.gone⟩, fun n => ?_⟩
    exact hsupplies.isComplete_iff h.orderly horderly h.exact (exact_of_notes hexact _) n
  | @work a w ha _ _ =>
    have hkeep : (p.work a).system = p.system := by
      unfold work
      rw [Site.act_of_absent ha (by rw [hp.gone]; rfl)]
    refine ⟨⟨hp.usable, (congrArg System.workers hkeep).trans hp.gone⟩, fun n => ?_⟩
    unfold graph
    rw [hkeep]
  | skip => exact ⟨⟨hp.usable, hp.gone⟩, fun _ => Iff.rfl⟩
  | stop _ _ hworkers => exact absurd hp.gone hworkers
  | leave hstopping _ => simp [hstopping] at hcourse
  | close hdoes =>
    cases hdoes with
    | keep =>
      rw [withClosing_closing]
      exact ⟨hp, fun _ => Iff.rfl⟩
    | dismiss hcourse' _ | retire hcourse' _ | finish hcourse' _ _ =>
      rw [show p.course = _ from hcourse'] at hcourse
      simp at hcourse

/-- Moves made in turn after others. -/
theorem run_append (p : Plant κ ε) (moves more : List (Move κ ε)) :
    p.run (moves ++ more) = (p.run moves).run more := List.foldl_append ..

/-- A plant that is set up with a worker has one until it has stopped. -/
theorem unstopped_start (tracker : Tracker) {workers : Nat} (hworkers : 0 < workers)
    (grain cap : Nat) : (start tracker workers grain cap : Plant κ ε).Unstopped := by
  refine fun _ => ⟨nofun, fun _ hnone => ?_⟩
  have hsize : workers = 0 := Array.size_replicate.symm.trans (congrArg Array.size hnone)
  omega

/-- Once the first call that stops the system has returned, whatever is done later, a batch whose
submission has ended is done when all of its nodes had been added before that, and none of them is
behind a cycle, and not otherwise. No system is set up without workers or with a grain of zero
(`Settings.validate`). -/
theorem done_run_iff {tracker : Tracker} {count workers grain : Nat}
    (htracker : Tracker.create count = .ok tracker) (hworkers : 0 < workers) (hgrain : 0 < grain)
    (cap : Nat) {before more : List (Move κ ε)} {move : Move κ ε}
    (hordered : ∀ other ∈ before ++ [move] ++ more, other.Ordered)
    (hopen : ((start tracker workers grain cap).run before).stops = 0)
    (hreturned : ((start tracker workers grain cap).run (before ++ [move])).stops = 1) {b : BatchId}
    (hended : ((start tracker workers grain cap).run (before ++ [move] ++ more)).yard.hasEnded b =
      true) :
    (((start tracker workers grain cap).run (before ++ [move] ++ more)).graph.batch b).done = true ↔
      ∀ n : Nat,
        n < ((start tracker workers grain cap).run (before ++ [move] ++ more)).graph.nodes.size →
        (((start tracker workers grain cap).run (before ++ [move] ++ more)).graph.node n).batch = b →
        n < ((start tracker workers grain cap).run (before ++ [move])).graph.nodes.size ∧
        ¬ ((start tracker workers grain cap).run (before ++ [move])).graph.Jammed (fun _ => False) n := by
  have hof {other : Move κ ε} (hother : other ∈ before ∨ other = move ∨ other ∈ more) :
      other.Ordered := hordered other (by simpa [or_assoc] using hother)
  obtain ⟨hkept, hunstopped⟩ := (Kept.start htracker hgrain workers cap).run
    (fun p : Plant κ ε => p.Unstopped) (fun other hother => hof (Or.inl hother))
    (unstopped_start tracker hworkers grain cap) fun _ _ _ hq hunstopped hmine hdoes =>
      hunstopped.does hq (hq.does hmine hdoes) hdoes
  rw [run_append, run_append] at *
  set p := (start tracker workers grain cap : Plant κ ε).run before
  have hdoes : Does p move (p.run [move]) := does_step p move
  have hstopped := hkept.does (hof (Or.inr (Or.inl rfl))) hdoes
  have hreturns := ((hdoes.stops_cases hkept).resolve_left (by omega)).2
  obtain ⟨hunmanned, hquiet⟩ := hreturns.resolve_left fun hnone =>
    (hunstopped hopen).2 hnone.usable hnone.gone
  obtain ⟨hlater, _, hsame⟩ := hstopped.run
    (fun q => q.Unmanned ∧
      ∀ n : Nat, q.graph.isComplete n = true ↔ (p.run [move]).graph.isComplete n = true)
    (fun other hother => hof (Or.inr (Or.inr hother))) ⟨hunmanned, fun _ => Iff.rfl⟩
    fun _ _ _ hq hkeeps hmine hdoes => by
      obtain ⟨hstill, hsame⟩ := hkeeps.1.does hq (hq.does hmine hdoes) hdoes
      exact ⟨hstill, fun n => (hsame n).trans (hkeeps.2 n)⟩
  have hcomplete (n : Nat) : ((p.run [move]).run more).graph.isComplete n = true ↔
      n < (p.run [move]).graph.nodes.size ∧ ¬ (p.run [move]).graph.Jammed (fun _ => False) n :=
    (hsame n).trans (hquiet.isComplete_iff_not_jammed hstopped.orderly hstopped.exact
      hstopped.looked n)
  obtain ⟨k, sub, hk, rfl, _⟩ := Yard.hasEnded_iff.mp hended
  have hdone := hlater.exact.done_iff (hlater.orderly.scheduled.fits k sub hk).batch_lt
  simp only [← hcomplete]
  exact hdone.trans (and_iff_right hended)

/-- The system is told to stop while a node is queued, and the node is dropped. The call has yet to
return. -/
def stopsOnce : List (Move Unit Unit) :=
  [.build .newBuilder, .build (.add 0 (.host ()) none), .build (.execute 0), .build (.dispatch 0),
    .build (.close 0), .build (.drop 0), .stop, .leave 0, .leave 0, .leave 0, .close, .close]

/-- Another builder submits a node without edges, and the system is told to stop once more. -/
def submittedLater : List (Move Unit Unit) :=
  [.build .newBuilder, .build (.add 1 (.host ()) none), .build (.execute 1), .build (.dispatch 1),
    .build (.close 1), .build (.drop 1), .stop]

/-- The first batch is done and the other one is not, although both calls have returned. -/
theorem done_run_iff_submittedLater :
    ((start { shards := #[{}] } 1 2 0).run (stopsOnce ++ [.close] ++ submittedLater)).stops = 2 ∧
    (((start { shards := #[{}] } 1 2 0).run (stopsOnce ++ [.close] ++ submittedLater)).graph.batch
      0).done = true ∧
    (((start { shards := #[{}] } 1 2 0).run (stopsOnce ++ [.close] ++ submittedLater)).graph.batch
      2).done ≠ true := by
  have htracker : Tracker.create 1 = .ok { shards := #[{}] } := rfl
  have hordered : ∀ other ∈ stopsOnce ++ [.close] ++ submittedLater, other.Ordered := by
    simp [stopsOnce, submittedLater, Move.Ordered, HazardFlow.Move.Ordered, Work.Ordered]
  refine ⟨by decide +kernel, ?_, fun hdone => ?_⟩
  · refine (done_run_iff htracker Nat.one_pos Nat.two_pos 0 hordered (by decide +kernel)
      (by decide +kernel) (by decide +kernel)).mpr fun n hn hbatch => ?_
    have hfirst : n = 0 := by
      revert n
      decide +kernel
    subst hfirst
    have hnone : ∀ i : Nat, i < ((start { shards := #[{}] } 1 2 0).run
        (stopsOnce ++ [.close])).graph.nodes.size →
        0 ∉ ((start { shards := #[{}] } 1 2 0).run (stopsOnce ++ [.close])).graph.entries i := by
      decide +kernel
    refine ⟨by decide +kernel, fun hjammed => ?_⟩
    obtain ⟨i, hedge⟩ := hjammed.cases.resolve_left id
    exact hnone i hedge.lt hedge
  · have hlt := ((done_run_iff htracker Nat.one_pos Nat.two_pos 0 hordered (by decide +kernel)
      (by decide +kernel) (by decide +kernel)).mp hdone 1 (by decide +kernel) (by decide +kernel)).1
    revert hlt
    decide +kernel

/-- A call that stops a system may return while a batch whose submission has ended is not done, even
though no node waits for another one. -/
theorem not_done_submittedLater :
    ¬ ∀ (before : List (Move Unit Unit)) (move : Move Unit Unit),
      (∀ other ∈ before ++ [move], other.Ordered) →
      ((start { shards := #[{}] } 1 2 0).run before).stops <
        ((start { shards := #[{}] } 1 2 0).run (before ++ [move])).stops →
      (∀ n : Nat, n < ((start { shards := #[{}] } 1 2 0).run (before ++ [move])).graph.nodes.size →
        (((start { shards := #[{}] } 1 2 0).run (before ++ [move])).graph.node n).inDegree = 0) →
      ∀ b : Nat, ((start { shards := #[{}] } 1 2 0).run (before ++ [move])).yard.hasEnded b = true →
        (((start { shards := #[{}] } 1 2 0).run (before ++ [move])).graph.batch b).done = true := by
  intro hall
  have hdone := hall (stopsOnce ++ [.close] ++ submittedLater.dropLast) .stop
    (by simp [stopsOnce, submittedLater, Move.Ordered, HazardFlow.Move.Ordered, Work.Ordered])
    (by decide +kernel) (by decide +kernel) 2 (by decide +kernel)
  revert hdone
  decide +kernel

end Plant

end HazardFlow
