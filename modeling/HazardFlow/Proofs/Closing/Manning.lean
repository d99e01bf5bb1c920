import HazardFlow.Proofs.Closing.Moves
import HazardFlow.Proofs.Schedule.Beginning

/-!
# Workers on their way out

No worker of an exact system dies. A worker that has come some way on its way out neither runs nor
watches anything nor has a job, as far as it has come, and what other workers do leaves it as it is.
Jobs that come up later join the queues of workers that have yet to drop theirs, or the inbox when all
of them have left. So nothing is left with a worker that is let go of.
-/

namespace HazardFlow

variable {κ ε : Type}

/-- What a worker that has come so far no longer has. -/
def Stand.Fits (worker : Worker κ ε) : Stand → Prop
  | .working => True
  | .draining => worker.running = none
  | .dropping => worker.running = none ∧ worker.watcher.pending = []
  | .left => worker.running = none ∧ worker.watcher.pending = [] ∧ worker.queue = []

/-- A worker that is spared fits its stand as before. -/
theorem Stand.Fits.of_spared {worker worker' : Worker κ ε} {stand : Stand} (h : stand.Fits worker)
    (hrunning : worker'.running = worker.running) (hwatcher : worker'.watcher = worker.watcher)
    (hqueue : worker.queue = [] → worker'.queue = []) : stand.Fits worker' := by
  cases stand with
  | working => trivial
  | draining => exact hrunning.trans h
  | dropping => exact ⟨hrunning.trans h.1, (congrArg Watcher.pending hwatcher).trans h.2⟩
  | left =>
    exact ⟨hrunning.trans h.1, (congrArg Watcher.pending hwatcher).trans h.2.1, hqueue h.2.2⟩

namespace System

variable {s s' : System κ ε} {w : Nat} {worker : Worker κ ε} {stand stand' : Nat → Stand}
  {due : List NodeId}

/-- Resetting its watcher takes a worker no steps. -/
theorem goes_resetBackoff (hw : s.workers[w]? = some worker) :
    s.Goes (s.updateWorker w Worker.resetBackoff) := by
  refine .of_load rfl rfl rfl (funext fun n => ?_)
  have hshare : (s.updateWorker w Worker.resetBackoff).load n + worker.load n =
      s.load n + worker.load n := load_updateWorker hw Worker.resetBackoff n
  omega

/-- All workers are alive, and as far on their way out as they are said to be. -/
structure Manned (s : System κ ε) (stand : Nat → Stand) : Prop where
  alive : ∀ (w : Nat) (worker : Worker κ ε), s.workers[w]? = some worker → worker.dead = false
  fits : ∀ (w : Nat) (worker : Worker κ ε), s.workers[w]? = some worker → (stand w).Fits worker

namespace Manned

/-- Nobody is left. -/
theorem of_gone (hworkers : s.workers = #[]) : s.Manned stand := by
  constructor <;> intro w worker hw <;> rw [hworkers, Array.getElem?_empty] at hw <;> cases hw

/-- Nobody has left at the start. -/
theorem start (tracker : Tracker) (workers grain cap : Nat) :
    (System.start tracker workers grain cap : System κ ε).Manned fun _ => .working where
  alive w worker hw := by
    have hworkers : (System.start tracker workers grain cap : System κ ε).workers =
        Array.replicate workers { watcher := { cap } } := rfl
    rw [hworkers, Array.getElem?_replicate] at hw
    split at hw
    · rw [← Option.some.inj hw]
    · cases hw
  fits _ _ _ := trivial

/-- No worker does anything. -/
theorem of_same (h : s.Manned stand) (hworkers : s'.workers = s.workers) : s'.Manned stand where
  alive w worker hw := h.alive w worker (by rwa [hworkers] at hw)
  fits w worker hw := h.fits w worker (by rwa [hworkers] at hw)

/-- One worker acts and spares the others. -/
theorem of_spares (h : s.Manned stand) (hspares : Spares s.workers s'.workers w)
    (hothers : ∀ v : Nat, v ≠ w → stand' v = stand v)
    (hself : ∀ worker, s'.workers[w]? = some worker → (stand' w).Fits worker) : s'.Manned stand' where
  alive v worker' hv := by
    obtain ⟨worker, hworker, hdead, _⟩ := hspares.worker v worker' hv
    exact hdead.trans (h.alive v worker hworker)
  fits v worker' hv := by
    by_cases hvw : v = w
    · rw [hvw] at hv ⊢
      exact hself worker' hv
    · obtain ⟨worker, hworker, _, hspared⟩ := hspares.worker v worker' hv
      obtain ⟨hrunning, hwatcher, hqueue⟩ := hspared hvw
      rw [hothers v hvw]
      exact (h.fits v worker hworker).of_spared hrunning hwatcher hqueue

/-- A worker that has not noticed that the system stops does anything. -/
theorem work (h : s.Manned stand) (hspares : Spares s.workers s'.workers w)
    (hstand : stand w = .working) : s'.Manned stand :=
  h.of_spares hspares (fun _ _ => rfl) fun worker _ => by
    rw [hstand]
    trivial

/-- A worker waits for an event. -/
theorem settle (h : s.Manned stand) (hs : s.graph.Coherent s.load) (he : s.Exact due)
    (hw : s.workers[w]? = some worker) (hstand : stand w = .draining) {entry : Watched ε}
    {rest : List (Watched ε)} (hpending : worker.watcher.pending = entry :: rest) :
    (s.settle w 0).Manned stand := by
  obtain ⟨_, _, _, hw', _⟩ := exists_settle hs he hw hpending
  have hrest := h.fits w worker hw
  rw [hstand] at hrest
  refine h.of_spares (supplies_settle hs he w 0).2 (fun _ _ => rfl) fun other hother => ?_
  obtain rfl := Option.some.inj (hw'.symm.trans hother)
  rw [hstand]
  exact hrest

/-- A worker drops a job. -/
theorem retireQueue (h : s.Manned stand) (hs : s.graph.Coherent s.load) (he : s.Exact due)
    (hw : s.workers[w]? = some worker) (hstand : stand w = .dropping) {job : Job κ}
    {rest : List (Job κ)} (hqueue : worker.queue = job :: rest) :
    (s.retireQueue w 1).Manned stand := by
  obtain ⟨graph, jobs, others, _, _, hretire, hw', _⟩ :=
    exists_retire hs he hw (h.alive w worker hw) hqueue
  have hrest := h.fits w worker hw
  rw [hstand] at hrest
  refine h.of_spares (w := w) ?_ (fun _ _ => rfl) fun other hother => ?_
  · rw [hretire]
    exact spares_enqueue (spares_updateWorker (.refl ..)) jobs
  · obtain rfl := Option.some.inj (hw'.symm.trans hother)
    rw [hstand]
    exact hrest

/-- Nobody is reported dead when the workers are let go of. -/
theorem dismiss_eq (h : s.Manned stand) : s.dismiss = { s with workers := #[] } := by
  have hnone : s.workers.toList.filter (·.dead) = [] := by
    apply List.filter_eq_nil_iff.mpr
    intro worker hworker
    obtain ⟨w, hlist⟩ := List.mem_iff_getElem?.mp hworker
    rw [Array.getElem?_toList] at hlist
    rw [h.alive w worker hlist]
    exact Bool.false_ne_true
  unfold dismiss
  rw [hnone]
  rfl

end Manned

end System

namespace Closing

variable {c c' : Closing κ ε} {w : Nat} {worker : Worker κ ε} {due : List NodeId}

/-- A stand that only one worker changes. -/
theorem setStand_of_ne {stand : Stand} {v : Nat} (hne : v ≠ w) :
    (c.setStand w stand).stand v = c.stand v := if_neg hne

theorem setStand_self (stand : Stand) : (c.setStand w stand).stand w = stand := if_pos rfl

/-- A worker moves on and nothing else happens. -/
theorem manned_setStand (h : c.system.Manned c.stand) (hw : c.system.workers[w]? = some worker)
    {stand : Stand} (hfits : stand.Fits worker) :
    c.system.Manned (c.setStand w stand).stand := by
  refine h.of_spares (w := w) (.refl ..) (fun v hv => setStand_of_ne hv) fun other hother => ?_
  obtain rfl := Option.some.inj (hw.symm.trans hother)
  rw [setStand_self]
  exact hfits

/-- A worker no longer waits. -/
theorem manned_drained (h : c.system.Manned c.stand) (hw : c.system.workers[w]? = some worker)
    (hstand : c.stand w = .draining) (hpending : worker.watcher.pending = []) :
    (c.system.updateWorker w Worker.resetBackoff).Manned (c.setStand w .dropping).stand := by
  have hrest := h.fits w worker hw
  rw [hstand] at hrest
  refine h.of_spares (w := w) (System.spares_updateWorker (.refl ..))
    (fun v hv => setStand_of_ne hv) fun other hother => ?_
  have hw' := System.getElem?_updateWorker_self hw Worker.resetBackoff
  obtain rfl := Option.some.inj (hw'.symm.trans hother)
  rw [setStand_self]
  exact ⟨hrest, hpending⟩

/-- The system comes no further when a worker leaves. -/
theorem Does.course_of_leave (hdoes : Does c (.leave w) c') : c'.course = c.course := by
  cases hdoes <;> rfl

/-- Whatever a worker does on its way out, the graph makes steps, and workers are as far as they are
said to be. -/
theorem Does.leaves (hdoes : Does c (.leave w) c') (h : c.system.Manned c.stand)
    (hs : c.graph.Coherent c.system.load) (he : c.system.Exact due) :
    c.system.Goes c'.system ∧ c'.system.Manned c'.stand := by
  cases hdoes with
  | keep => exact ⟨.refl _, h⟩
  | notice _ hw _ hrest => exact ⟨.refl _, manned_setStand h hw hrest⟩
  | settle _ hw hstand hpending =>
    exact ⟨System.goes_settle c.system w 0, h.settle hs he hw hstand hpending⟩
  | drained _ hw hstand hpending =>
    exact ⟨System.goes_resetBackoff hw, manned_drained h hw hstand hpending⟩
  | drop _ hw halive hstand hqueue =>
    exact ⟨System.goes_retire hw halive hqueue, h.retireQueue hs he hw hstand hqueue⟩
  | @left _ worker _ hw hstand hqueue =>
    have hrest := h.fits w worker hw
    rw [hstand] at hrest
    exact ⟨.refl _, manned_setStand h hw ⟨hrest.1, hrest.2, hqueue⟩⟩

/-- No worker died, so that all of them have left when they are said to. -/
theorem stand_of_isLeft (h : c.system.Manned c.stand) (hleft : c.isLeft = true)
    (hw : c.system.workers[w]? = some worker) : c.stand w = .left := by
  obtain ⟨hlt, _⟩ := Array.getElem?_eq_some_iff.mp hw
  have hone := List.all_eq_true.mp hleft w (List.mem_range.mpr hlt)
  simpa [hw, h.alive w worker hw] using hone

/-- They have nothing left to do. -/
theorem empty_of_isLeft (h : c.system.Manned c.stand) (hleft : c.isLeft = true)
    (hw : worker ∈ c.system.workers.toList) :
    worker.running = none ∧ worker.watcher.pending = [] ∧ worker.queue = [] := by
  obtain ⟨w, hlist⟩ := List.mem_iff_getElem?.mp hw
  rw [Array.getElem?_toList] at hlist
  have hfits := h.fits w worker hlist
  rwa [stand_of_isLeft h hleft hlist] at hfits

/-- Their jobs are gone, too. -/
theorem queued_dismiss (h : c.system.Manned c.stand) (hleft : c.isLeft = true) :
    c.system.dismiss.queued = c.system.queued := by
  have hnone : c.system.workers.toList.flatMap (·.queue) = [] :=
    List.flatMap_eq_nil_iff.mpr fun worker hmem => (empty_of_isLeft h hleft hmem).2.2
  rw [h.dismiss_eq]
  unfold System.queued
  rw [hnone]
  rfl

/-- Letting go of workers that have nothing left takes no steps. -/
theorem goes_dismiss (h : c.system.Manned c.stand) (hleft : c.isLeft = true) :
    c.system.Goes c.system.dismiss := by
  have heq := h.dismiss_eq
  refine .of_load (by rw [heq]) (by rw [heq]) (by rw [heq]) (funext fun n => ?_)
  have hnone : (c.system.workers.toList.map (·.load n)).sum = 0 := by
    apply List.sum_eq_zero_iff.mpr
    intro share hshare
    obtain ⟨worker, hmem, rfl⟩ := List.mem_map.mp hshare
    obtain ⟨hrunning, hpending, hqueue⟩ := empty_of_isLeft h hleft hmem
    simp [Worker.load, hqueue, hrunning, hpending]
  rw [heq]
  unfold System.load
  rw [hnone]
  rfl

end Closing

end HazardFlow
