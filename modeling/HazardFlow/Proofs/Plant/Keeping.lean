import HazardFlow.Proofs.Closing.Acting
import HazardFlow.Proofs.Closing.Manning
import HazardFlow.Proofs.Plant.Run

/-!
# What every run of a plant keeps

As long as ranges are ordered, builders find a plant as they would find a yard with the same jobs,
whatever workers do: orderly and exact, with a builder for every node that is not submitted. No worker
dies, and workers and system are as far as they have come. In particular a system that stops empties
its inbox without a fault, and is left without workers.
-/

namespace HazardFlow

variable {κ ε : Type}

namespace Plant

variable {p p' : Plant κ ε}

/-- A move by which only works are added that can be taken. -/
def Move.Ordered : Move κ ε → Prop
  | .build move => move.Ordered
  | _ => True

/-- What a move can make of a plant. -/
inductive Does (p : Plant κ ε) : Move κ ε → Plant κ ε → Prop where
  /-- The move is not possible. -/
  | keep (move : Move κ ε) : Does p move p
  | build {move : HazardFlow.Move κ} (hopen : p.isOpen = true) (hmove : move.isOfJobs = false) :
      Does p (.build move) (p.build move)
  | work {a : Action κ ε} {w : Nat} (ha : a.worker? = some w)
      (hcourse : p.course = .serving ∨ p.course = .stopping) (hstand : p.stand w = .working) :
      Does p (.work a) (p.work a)
  /-- There are no workers to be stopped. -/
  | skip (hopen : p.isOpen = true) (hvacant : p.isVacant = true) (hworkers : p.system.workers = #[]) :
      Does p .stop { p with stops := p.stops + 1 }
  | stop (hopen : p.isOpen = true) (hvacant : p.isVacant = true)
      (hworkers : p.system.workers ≠ #[]) : Does p .stop { p with course := .stopping }
  | leave {w : Nat} {c : Closing κ ε} (hcourse : p.course = .stopping)
      (hdoes : Closing.Does p.closing (.leave w) c) : Does p (.leave w) (p.withClosing c)
  | close {c : Closing κ ε} (hdoes : Closing.Does p.closing .close c) :
      Does p .close (p.withClosing c)

/-- A plant that comes no further. -/
theorem withClosing_closing (p : Plant κ ε) : p.withClosing p.closing = p := by
  unfold withClosing
  rw [if_neg fun h => h.2 h.1]
  rfl

/-- What a move does. -/
theorem does_step (p : Plant κ ε) (move : Move κ ε) : Does p move (p.step move) := by
  cases move with
  | build move =>
    simp only [step]
    split
    · next hmay =>
      rw [Bool.and_eq_true, Bool.not_eq_true'] at hmay
      exact .build hmay.1 hmay.2
    · exact .keep _
  | work a =>
    simp only [step]
    split
    · next hmay =>
      unfold mayWork at hmay
      split at hmay
      · next w hworker =>
        simp only [Bool.and_eq_true, Bool.or_eq_true, beq_iff_eq] at hmay
        exact .work hworker hmay.1 hmay.2
      · cases hmay
    · exact .keep _
  | stop =>
    simp only [step]
    split
    · next hmay =>
      rw [Bool.and_eq_true] at hmay
      unfold stop
      split
      · next hnone => exact .skip hmay.1 hmay.2 (Array.isEmpty_iff.mp hnone)
      · next hsome => exact .stop hmay.1 hmay.2 fun hnone => hsome (Array.isEmpty_iff.mpr hnone)
    · exact .keep _
  | leave w =>
    by_cases hcourse : p.course = .stopping
    · exact .leave hcourse (Closing.does_step p.closing (.leave w))
    · have hkeep : p.closing.step (.leave w) = p.closing := if_neg hcourse
      simp only [step, hkeep, withClosing_closing]
      exact .keep _
  | close => exact .close (Closing.does_step p.closing .close)

/-- The jobs of a plant are those that lie in its yard. -/
theorem load_yard (p : Plant κ ε) : p.yard.load = p.system.load := by
  funext n
  rw [System.load_eq]
  unfold Yard.load Yard.jobs yard System.queued
  rw [List.append_assoc p.system.inbox.waiting, List.countP_append, List.countP_append,
    List.countP_append, List.countP_append, List.countP_map, Function.comp_def]
  dsimp only
  omega

/-- What was noted down does not matter. -/
theorem orderly_of_notes {s : Yard κ ε} (hs : s.Orderly) (notes : List (Note κ)) :
    Yard.Orderly { s with notes } := ⟨hs.coherent, hs.within, hs.staffed, hs.scheduled⟩

theorem exact_of_notes {s : Yard κ ε} (h : s.Exact) (notes : List (Note κ)) :
    Yard.Exact { s with notes } := ⟨h.grain, h.graph, h.tally⟩

/-- As builders and submissions do not touch workers, they leave the yard as they make it. -/
theorem yard_build {move : HazardFlow.Move κ} {made : List (Job κ)}
    (h : p.yard.Supplies (p.yard.act move) made) :
    (p.build move).yard = { p.yard.act move with notes := [] } := by
  have hworkers : (p.yard.act move).system.workers = p.system.workers := h.workers
  have hrunning := h.running
  have hwatched := h.watched
  unfold build
  generalize p.yard.act move = s at *
  obtain ⟨system, running, watched, crews, submissions, notes⟩ := s
  dsimp only at hworkers hrunning hwatched ⊢
  rw [hrunning, hwatched]
  unfold yard System.underWay System.watched
  dsimp only
  rw [hworkers]

/-- What holds of a plant that has come so far. -/
def Fits (p : Plant κ ε) : Course → Prop
  | .serving => p.dropped = []
  | .stopping => p.isVacant = true
  | .emptying _ => p.isVacant = true ∧ p.system.workers = #[]
  | .stopped => p.system.workers = #[]
  | .failed => False

/-- The yard of builders is in order, and workers and system are as far as they have come. -/
structure Kept (p : Plant κ ε) : Prop where
  orderly : p.yard.Orderly
  exact : p.yard.Exact
  looked : p.yard.Looked
  crewed : p.yard.Crewed
  manned : p.system.Manned p.stand
  course : p.Fits p.course

namespace Kept

/-- The system is coherent. -/
theorem coherent (h : p.Kept) : p.graph.Coherent p.system.load := by
  have hs := h.orderly.coherent
  rwa [load_yard] at hs

/-- It is exact. -/
theorem system (h : p.Kept) : p.system.Exact p.yard.due where
  graph := by
    have he := h.exact.graph
    rwa [load_yard] at he
  grain := h.exact.grain

/-- Nothing has happened at the start. -/
theorem start {tracker : Tracker} {count grain : Nat} (htracker : Tracker.create count = .ok tracker)
    (hgrain : 0 < grain) (workers cap : Nat) : (start tracker workers grain cap : Plant κ ε).Kept := by
  have hload : (Plant.start tracker workers grain cap : Plant κ ε).yard.load = fun _ => 0 :=
    (load_yard _).trans (Site.load_start tracker workers grain cap)
  have horderly : (Yard.start tracker grain : Yard κ ε).Orderly := .start htracker grain
  have hexact : (Yard.start tracker grain : Yard κ ε).Exact := .start tracker hgrain
  have hlooked : (Yard.start tracker grain : Yard κ ε).Looked := .start tracker grain
  have hcrewed : (Yard.start tracker grain : Yard κ ε).Crewed := .start tracker grain
  refine ⟨⟨?_, horderly.within, horderly.staffed, horderly.scheduled⟩,
    ⟨hgrain, ?_, hexact.tally⟩, hlooked, hcrewed, .start tracker workers grain cap, rfl⟩
  · rw [hload]
    exact horderly.coherent
  · rw [hload]
    exact hexact.graph

/-- Workers act, leave or are let go of. -/
theorem of_goes (h : p.Kept) (hgoes : p.system.Goes p'.system) (hcrews : p'.crews = p.crews)
    (hsubmissions : p'.submissions = p.submissions) (hmanned : p'.system.Manned p'.stand)
    (hcourse : p'.Fits p'.course) : p'.Kept := by
  have hsteps := hgoes.steps
  rw [← load_yard, ← load_yard] at hsteps
  refine ⟨h.orderly.of_steps hsteps hgoes.tracker hcrews ?_,
    h.exact.of_steps h.orderly hsteps hgoes.grain hsubmissions, ?_,
    h.crewed.of_steady hcrews (hsteps.coherent_steady h.orderly.coherent).2, hmanned, hcourse⟩
  · have hscheduled := h.orderly.scheduled
    change Scheduled p'.submissions p.graph
    rwa [hsubmissions]
  · have hlooked := h.looked
    unfold Yard.Looked yard at hlooked ⊢
    rwa [hsubmissions]

/-- A builder or a submission makes a move. -/
theorem build (h : p.Kept) {move : HazardFlow.Move κ} (hopen : p.isOpen = true)
    (hmove : move.isOfJobs = false) (hordered : move.Ordered) : (p.build move).Kept := by
  have hdoes := h.orderly.does_act move
  obtain ⟨made, hsupplies⟩ := h.exact.exists_supplies h.orderly hdoes hmove
  have hyard := yard_build hsupplies
  refine ⟨?_, ?_, ?_, ?_, h.manned.of_same hsupplies.workers, ?_⟩
  · rw [hyard]
    exact orderly_of_notes (h.orderly.does hdoes) []
  · rw [hyard]
    exact exact_of_notes (h.exact.does h.orderly hdoes hordered) []
  · have hlooked := h.looked.does h.orderly h.exact hdoes
    rw [hyard]
    exact hlooked
  · have hcrewed := h.crewed.does h.orderly hdoes
    rw [hyard]
    exact hcrewed
  · have hbefore := h.course
    change (p.build move).Fits p.course
    unfold isOpen at hopen
    cases hcourse : p.course with
    | stopping | emptying _ =>
      rw [hcourse] at hopen
      cases hopen
    | serving | failed =>
      rw [hcourse] at hbefore
      exact hbefore
    | stopped =>
      rw [hcourse] at hbefore
      exact hsupplies.workers.trans hbefore

/-- A worker acts. -/
theorem work (h : p.Kept) {a : Action κ ε} {w : Nat} (ha : a.worker? = some w)
    (hcourse : p.course = .serving ∨ p.course = .stopping) (hstand : p.stand w = .working) :
    (p.work a).Kept := by
  set site : Site κ ε := { system := p.system }
  have hhands := Site.hands_of_worker (s := site) h.coherent h.system ha
  have hgoes : p.system.Goes (p.work a).system := (Site.goes_of_worker (s := site) ha).1
  refine h.of_goes hgoes rfl rfl (h.manned.work (hhands.spares w ha) hstand) ?_
  have hbefore := h.course
  change (p.work a).Fits p.course
  rcases hcourse with hcase | hcase <;> rw [hcase] at hbefore ⊢ <;> exact hbefore

/-- The system is told to stop. -/
theorem stop (h : p.Kept) (hvacant : p.isVacant = true) : Kept { p with course := .stopping } :=
  ⟨h.orderly, h.exact, h.looked, h.crewed, h.manned, hvacant⟩

/-- A worker does something on its way out. -/
theorem leave (h : p.Kept) {w : Nat} {c : Closing κ ε} (hcourse : p.course = .stopping)
    (hdoes : Closing.Does p.closing (.leave w) c) : (p.withClosing c).Kept := by
  obtain ⟨hgoes, hmanned⟩ := hdoes.leaves h.manned h.coherent h.system
  refine h.of_goes hgoes rfl rfl hmanned ?_
  have hcourse' : c.course = .stopping := hdoes.course_of_leave.trans hcourse
  have hvacant := h.course
  rw [hcourse] at hvacant
  change (p.withClosing c).Fits c.course
  rw [hcourse']
  exact hvacant

/-- Whoever stops the system goes on. -/
theorem close (h : p.Kept) {c : Closing κ ε} (hdoes : Closing.Does p.closing .close c) :
    (p.withClosing c).Kept := by
  have hbefore := h.course
  cases hdoes with
  | keep =>
    rw [withClosing_closing]
    exact h
  | dismiss hcourse hleft =>
    rw [show p.course = .stopping from hcourse] at hbefore
    have hworkers : p.system.dismiss.workers = #[] := by rw [h.manned.dismiss_eq]
    exact h.of_goes (Closing.goes_dismiss (c := p.closing) h.manned hleft) rfl rfl (.of_gone hworkers)
      ⟨hbefore, hworkers⟩
  | @retire retired job rest hcourse hwaiting =>
    rw [show p.course = .emptying retired from hcourse] at hbefore
    obtain ⟨graph, jobs, hretire, hgoes, _⟩ :=
      System.exists_retireInbox h.coherent h.system hwaiting
    have hresult : (p.closing.system.retireInbox 1).result = .ok 1 := congrArg Outcome.result hretire
    have hworkers : (p.closing.system.retireInbox 1).state.workers = #[] :=
      (congrArg (fun o => System.workers (Outcome.state o)) hretire).trans hbefore.2
    rw [hresult]
    exact h.of_goes hgoes rfl rfl (.of_gone hworkers) ⟨hbefore.1, hworkers⟩
  | @finish retired system hcourse _ hsystem =>
    rw [show p.course = .emptying retired from hcourse] at hbefore
    rcases hsystem with rfl | rfl <;>
      exact h.of_goes (.of_load rfl rfl rfl rfl) rfl rfl (.of_gone hbefore.2) hbefore.2

/-- Whatever move is made. -/
theorem does (h : p.Kept) {move : Move κ ε} (hordered : move.Ordered) (hdoes : Does p move p') :
    p'.Kept := by
  cases hdoes with
  | keep => exact h
  | build hopen hmove => exact h.build hopen hmove hordered
  | work ha hcourse hstand => exact h.work ha hcourse hstand
  | skip => exact ⟨h.orderly, h.exact, h.looked, h.crewed, h.manned, h.course⟩
  | stop _ hvacant _ => exact h.stop hvacant
  | leave hcourse hdoes => exact h.leave hcourse hdoes
  | close hdoes => exact h.close hdoes

/-- What every move keeps holds after every run. -/
theorem run (h : p.Kept) (kept : Plant κ ε → Prop) {moves : List (Move κ ε)}
    (hordered : ∀ move ∈ moves, move.Ordered) (hstart : kept p)
    (hmove : ∀ (q q' : Plant κ ε) (move : Move κ ε), q.Kept → kept q → move.Ordered →
      Does q move q' → kept q') : (p.run moves).Kept ∧ kept (p.run moves) := by
  induction moves generalizing p with
  | nil => exact ⟨h, hstart⟩
  | cons move rest ih =>
    have hmine := hordered move List.mem_cons_self
    have hdoes := does_step p move
    exact ih (h.does hmine hdoes) (fun other hother => hordered other (List.mem_cons_of_mem _ hother))
      (hmove p _ move h hstart hmine hdoes)

end Kept

end Plant

end HazardFlow
