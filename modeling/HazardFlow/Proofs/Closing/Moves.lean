import HazardFlow.Proofs.Closing.Run

/-!
# What moves do

What each move can do to a system that is stopped at some time is said once, for all that is shown of
runs later.
-/

namespace HazardFlow.Closing

variable {κ ε : Type} {c c' : Closing κ ε}

/-- What a move can make of a system that is stopped at some time. -/
inductive Does (c : Closing κ ε) : Move κ ε → Closing κ ε → Prop where
  /-- The move is not possible. -/
  | keep (move : Move κ ε) : Does c move c
  | act {a : Action κ ε} (hmay : c.mayAct a = true) : Does c (.act a) (c.act a)
  | stop (hmay : c.mayStop = true) : Does c .stop { c with course := .stopping }
  | notice {w : Nat} {worker : Worker κ ε} (hcourse : c.course = .stopping)
      (hw : c.system.workers[w]? = some worker) (hstand : c.stand w = .working)
      (hrest : worker.running = none) : Does c (.leave w) (c.setStand w .draining)
  | settle {w : Nat} {worker : Worker κ ε} {entry : Watched ε} {rest : List (Watched ε)}
      (hcourse : c.course = .stopping) (hw : c.system.workers[w]? = some worker)
      (hstand : c.stand w = .draining) (hpending : worker.watcher.pending = entry :: rest) :
      Does c (.leave w) (c.setSystem (c.system.settle w 0))
  | drained {w : Nat} {worker : Worker κ ε} (hcourse : c.course = .stopping)
      (hw : c.system.workers[w]? = some worker) (hstand : c.stand w = .draining)
      (hpending : worker.watcher.pending = []) :
      Does c (.leave w)
        ((c.setSystem (c.system.updateWorker w Worker.resetBackoff)).setStand w .dropping)
  | drop {w : Nat} {worker : Worker κ ε} {job : Job κ} {rest : List (Job κ)}
      (hcourse : c.course = .stopping) (hw : c.system.workers[w]? = some worker)
      (halive : worker.dead = false) (hstand : c.stand w = .dropping)
      (hqueue : worker.queue = job :: rest) :
      Does c (.leave w)
        { c.setSystem (c.system.retireQueue w 1) with dropped := job :: c.dropped }
  | left {w : Nat} {worker : Worker κ ε} (hcourse : c.course = .stopping)
      (hw : c.system.workers[w]? = some worker) (hstand : c.stand w = .dropping)
      (hqueue : worker.queue = []) : Does c (.leave w) (c.setStand w .left)
  | dismiss (hcourse : c.course = .stopping) (hleft : c.isLeft = true) :
      Does c .close { c.setSystem c.system.dismiss with course := .emptying 0 }
  | retire {retired : Nat} {job : Job κ} {rest : List (Job κ)}
      (hcourse : c.course = .emptying retired)
      (hwaiting : c.system.inbox.waiting = job :: rest) :
      Does c .close
        { c.setSystem (c.system.retireInbox 1).state with
          course := match (c.system.retireInbox 1).result with
            | .ok more => .emptying (retired + more)
            | .error _ => .failed
          dropped := job :: c.dropped }
  | finish {retired : Nat} {system : System κ ε} (hcourse : c.course = .emptying retired)
      (hwaiting : c.system.inbox.waiting = [])
      (hsystem : system = c.system ∨
        system = c.system.report .warn "retired submitted jobs without running them"
          [("retired", .number retired)]) :
      Does c .close
        { c.setSystem (system.report .debug "scheduler stopped" []) with course := .stopped }

/-- What a worker does on its way out. -/
theorem does_leave (hcourse : c.course = .stopping) (w : Nat) :
    Does c (.leave w) (c.leave w) := by
  unfold leave
  cases hw : c.system.workers[w]? with
  | none => exact .keep _
  | some worker =>
    cases hdead : worker.dead with
    | true => simpa only [hdead, if_true] using Does.keep (.leave w)
    | false =>
      simp only [hdead, Bool.false_eq_true, if_false]
      cases hstand : c.stand w with
      | working =>
        cases hrunning : worker.running with
        | none => exact .notice hcourse hw hstand hrunning
        | some job => exact .keep _
      | draining =>
        cases hpending : worker.watcher.pending with
        | nil => exact .drained hcourse hw hstand hpending
        | cons entry rest => exact .settle hcourse hw hstand hpending
      | dropping =>
        cases hqueue : worker.queue with
        | nil => exact .left hcourse hw hstand hqueue
        | cons job rest => exact .drop hcourse hw hdead hstand hqueue
      | left => exact .keep _

/-- What is done once the workers have left. -/
theorem does_close (c : Closing κ ε) : Does c .close c.close := by
  unfold close
  cases hcourse : c.course with
  | stopping =>
    dsimp only
    split
    · next hleft => exact .dismiss hcourse hleft
    · exact .keep _
  | emptying retired =>
    dsimp only
    cases hwaiting : c.system.inbox.waiting with
    | nil =>
      refine .finish hcourse hwaiting ?_
      split
      · exact Or.inl rfl
      · exact Or.inr rfl
    | cons job rest => exact .retire hcourse hwaiting
  | _ => exact .keep _

/-- What a move does. -/
theorem does_step (c : Closing κ ε) (move : Move κ ε) : Does c move (c.step move) := by
  cases move with
  | act a =>
    simp only [step]
    split
    · next hmay => exact .act hmay
    · exact .keep _
  | stop =>
    simp only [step]
    split
    · next hmay => exact .stop hmay
    · exact .keep _
  | leave w =>
    simp only [step]
    split
    · next hcourse => exact does_leave hcourse w
    · exact .keep _
  | close => exact does_close c

end HazardFlow.Closing
