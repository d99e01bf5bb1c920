import HazardFlow.Proofs.Schedule.Run
import HazardFlow.Schedule.Machine

/-!
# Rounds are runs

A machine gives its workers turns in rounds. However long it goes on, what it does to its system is
a run: a list of actions by which workers begin jobs, end them, and poll. What holds after every
run therefore holds after every number of rounds.
-/

namespace HazardFlow

variable {κ ε : Type}

/-- An action of a worker that takes its turn. -/
def Action.IsTurn : Action κ ε → Prop
  | .begin _ | .conclude _ _ | .poll _ _ => True
  | _ => False

namespace System

variable {s : System κ ε} {w : Nat}

/-- An update that begins no job leaves a worker that runs nothing as such. -/
theorem runningOn_updateWorker {f : Worker κ ε → Worker κ ε}
    (hf : ∀ worker, worker.running = none → (f worker).running = none)
    (h : s.runningOn w = none) : (s.updateWorker w f).runningOn w = none := by
  unfold runningOn updateWorker at *
  rw [Array.getElem?_modify, if_pos rfl]
  cases hw : s.workers[w]? with
  | none => rfl
  | some worker =>
    have hnone : worker.running = none := by simpa [hw] using h
    simpa using hf worker hnone

/-- Polling begins no job. -/
theorem runningOn_poll (query : ε → Bool × ε) (h : s.runningOn w = none) :
    (s.poll query w).runningOn w = none := by
  unfold poll
  split
  · exact h
  · unfold receive
    dsimp only
    split
    · exact runningOn_updateWorker (fun _ h => h) (runningOn_updateWorker (fun _ h => h) h)
    · exact runningOn_updateWorker (fun _ _ => rfl)
        (runningOn_updateWorker (fun _ h => h) (runningOn_updateWorker (fun _ h => h) h))

end System

/-- A list of turns by which one system goes on to another. -/
def System.GoesOn (s t : System κ ε) : Prop :=
  ∀ site : Site κ ε, site.system = s → ∃ actions : List (Action κ ε),
    (∀ a ∈ actions, a.IsTurn) ∧ site.run actions = { site with system := t }

namespace System.GoesOn

variable {s t u : System κ ε}

theorem refl (s : System κ ε) : s.GoesOn s := by
  intro site hsite
  refine ⟨[], fun a ha => absurd ha List.not_mem_nil, ?_⟩
  rw [← hsite]
  rfl

theorem trans (h : s.GoesOn t) (h' : t.GoesOn u) : s.GoesOn u := by
  intro site hsite
  obtain ⟨first, hfirst, hrun⟩ := h site hsite
  obtain ⟨second, hsecond, hrun'⟩ := h' { site with system := t } rfl
  refine ⟨first ++ second, fun a ha => ?_, ?_⟩
  · rcases List.mem_append.mp ha with ha | ha
    · exact hfirst a ha
    · exact hsecond a ha
  · unfold Site.run at hrun hrun' ⊢
    rw [List.foldl_append, hrun, hrun']

/-- One turn. -/
theorem single {a : Action κ ε} (ha : a.IsTurn)
    (h : ∀ site : Site κ ε, site.system = s → site.act a = { site with system := t }) :
    s.GoesOn t := by
  intro site hsite
  refine ⟨[a], fun b hb => ?_, h site hsite⟩
  rw [List.mem_singleton.mp hb]
  exact ha

/-- Turns that are taken for every entry of a list. -/
theorem foldl {α σ : Type} {system : σ → System κ ε} {f : σ → α → σ}
    (h : ∀ m a, (system m).GoesOn (system (f m a))) (m : σ) (l : List α) :
    (system m).GoesOn (system (l.foldl f m)) := by
  induction l generalizing m with
  | nil => exact .refl _
  | cons a rest ih => exact (h m a).trans (ih (f m a))

end System.GoesOn

namespace Machine

/-- Ending a job. -/
theorem goesOn_conclude (m : Machine) (w : Nat) : m.system.GoesOn (m.conclude w).system := by
  unfold conclude
  split
  · exact .refl _
  · next job _ =>
    split
    · refine .single (a := .conclude w (m.world.finish job).2) trivial fun site hsite => ?_
      change { site with system := site.system.conclude w _ } = _
      rw [hsite]
    · exact .refl _

/-- Polling. -/
theorem goesOn_poll (m : Machine) (w : Nat) : m.system.GoesOn (m.poll w).system := by
  refine .single (a := .poll w (Event.query m.world.signals)) trivial fun site hsite => ?_
  change { site with system := site.system.poll _ w } = _
  rw [hsite]
  rfl

/-- Beginning the job that a free worker finds first. -/
theorem goesOn_begin {m : Machine} {w : Nat} (hfree : m.system.isFree w = true) :
    m.system.GoesOn (m.begin w).system := by
  refine .single (a := .begin w) trivial fun site hsite => ?_
  change site.begin w = _
  unfold Site.begin begin
  rw [hsite, if_pos hfree]
  cases m.system.takeJob w with
  | none => exact congrArg (fun system => { site with system }) hsite
  | some taken => rfl

/-- A worker that is alive and runs nothing is free. -/
theorem isFree_of_isAlive {m : Machine} {w : Nat} (halive : m.isAlive w = true)
    (hrunning : m.system.runningOn w = none) : m.system.isFree w = true := by
  unfold isAlive at halive
  unfold System.runningOn at hrunning
  unfold System.isFree
  cases hw : m.system.workers[w]? with
  | none => simp [hw] at halive
  | some worker =>
    have hnone : worker.running = none := by simpa [hw] using hrunning
    have hdead : worker.dead = false := by simpa [hw] using halive
    simp [hnone, hdead]

/-- The turn of a worker. -/
theorem goesOn_turn (m : Machine) (w : Nat) : m.system.GoesOn (m.turn w).system := by
  unfold turn
  split
  · split
    · exact m.goesOn_conclude w
    · next hrunning =>
      have hpoll := m.goesOn_poll w
      have hafter : (m.poll w).system.runningOn w = none := System.runningOn_poll _ hrunning
      dsimp only
      split
      · next halive =>
        have hbegin := goesOn_begin (isFree_of_isAlive halive hafter)
        exact (hpoll.trans hbegin).trans (goesOn_conclude _ w)
      · exact hpoll
  · exact .refl _

/-- However long a machine goes on, its system goes on by turns. -/
theorem goesOn_runUntil (condition : Machine → Bool) (rounds : Nat) (m : Machine) :
    m.system.GoesOn (runUntil condition rounds m).system := by
  induction rounds generalizing m with
  | zero => exact .refl _
  | succ rounds ih =>
    unfold runUntil
    split
    · exact .refl _
    · have hround : m.system.GoesOn m.round.system :=
        .foldl goesOn_turn m (List.range m.system.workers.size)
      exact hround.trans (ih m.round)

end Machine

end HazardFlow
