import HazardFlow.Proofs.Schedule.Turns
import HazardFlow.Proofs.Yard.Order
import HazardFlow.Proofs.Yard.Uninterrupted
import Mathlib.Data.List.Perm.Subperm

/-!
# Workers make moves

What a worker of a system does is made of moves of a yard that has the same jobs: it takes a queued
job and begins to run it, whole or split, ends its run, and sees events complete. Jobs and events
that a worker loses when it dies stay in the yard, where nobody finishes them.
-/

namespace HazardFlow

variable {κ ε : Type}

/-- An entry of a list that was permuted stands somewhere in it. -/
theorem exists_position_of_perm {α : Type} {l rest : List α} {a : α} (h : l.Perm (a :: rest)) :
    ∃ position : Nat, l[position]? = some a ∧ (l.eraseIdx position).Perm rest := by
  obtain ⟨position, hposition⟩ := List.getElem?_of_mem (h.mem_iff.mpr List.mem_cons_self)
  obtain ⟨hlt, hget⟩ := List.getElem?_eq_some_iff.mp hposition
  have hperm := List.getElem_cons_eraseIdx_perm hlt
  rw [hget] at hperm
  exact ⟨position, hposition, List.Perm.cons_inv (hperm.trans h)⟩

/-- An entry of a list that another one covers stands somewhere in that one. -/
theorem exists_position_of_subperm {α β : Type} {l : List α} {f : α → β} {b : β} {rest : List β}
    (h : (b :: rest).Subperm (l.map f)) : ∃ (position : Nat) (a : α), l[position]? = some a ∧
      f a = b ∧ rest.Subperm ((l.eraseIdx position).map f) := by
  obtain ⟨a, hmem, heq⟩ := List.mem_map.mp (h.subset List.mem_cons_self)
  obtain ⟨position, hposition⟩ := List.getElem?_of_mem hmem
  obtain ⟨hlt, hget⟩ := List.getElem?_eq_some_iff.mp hposition
  have hperm := (List.getElem_cons_eraseIdx_perm hlt).map f
  rw [hget, List.map_cons, heq] at hperm
  exact ⟨position, a, hposition, heq,
    (List.subperm_cons b).mp (h.trans hperm.symm.subperm)⟩

namespace System

variable {s t t' : System κ ε} {w : Nat} {worker : Worker κ ε} {run watch : List (Job κ)}

/-- A system has the graph and the tracker of another one, and what is queued there in its inbox.
The jobs that run there are among `run`, and those whose events are watched among `watch`. -/
structure Mirrors (s t : System κ ε) (run watch : List (Job κ)) : Prop where
  graph : s.graph = t.graph
  tracker : s.tracker = t.tracker
  grain : s.grain = t.grain
  queued : s.inbox.waiting.Perm t.queued
  underWay : t.underWay.Subperm run
  watched : (t.watched.map Watched.node).Subperm (watch.map Job.node)

namespace Mirrors

/-- Statistics are not mirrored. -/
theorem count (h : s.Mirrors t run watch) (f : Stats → Stats) : s.Mirrors (t.count f) run watch :=
  { h with }

/-- A worker looks at its events. -/
theorem look (h : s.Mirrors t run watch) {watch' : List (Job κ)} {f : Worker κ ε → Worker κ ε}
    (hlooked : t' = t.updateWorker w f) (hqueue : ∀ worker, (f worker).queue = worker.queue)
    (hrunning : ∀ worker, (f worker).running = worker.running)
    (hwatched : (t'.watched.map Watched.node).Subperm (watch'.map Job.node)) :
    s.Mirrors t' run watch' := by
  subst hlooked
  refine { h with queued := ?_, underWay := ?_, watched := hwatched }
  · rw [queued_updateWorker t w hqueue]
    exact h.queued
  · rw [underWay_updateWorker t w hrunning]
    exact h.underWay

/-- A worker is done with what it ran. -/
theorem rest (h : s.Mirrors t run watch) (hw : t.workers[w]? = some worker) {job : Job κ}
    (hjob : worker.running = some job) : ∃ position : Nat, run[position]? = some job ∧
      s.Mirrors (t.updateWorker w ({ · with running := none })) (run.eraseIdx position) watch := by
  obtain ⟨others, hbefore, hafter⟩ := exists_others hw (·.running.toList)
  rw [hjob] at hbefore
  have hleft := hafter ({ · with running := none })
  have hcovered : (job :: others).Subperm (run.map id) := by
    rw [List.map_id]
    exact hbefore.symm.subperm.trans h.underWay
  obtain ⟨position, _, hposition, rfl, hothers⟩ := exists_position_of_subperm hcovered
  rw [List.map_id] at hothers
  refine ⟨position, hposition, { h with queued := ?_, underWay := ?_, watched := ?_ }⟩
  · rw [queued_updateWorker t w]
    exact h.queued
  · exact hleft.subperm.trans hothers
  · rw [watched_updateWorker t w]
    exact h.watched

end Mirrors

/-- Jobs put on the queue of a worker join those that are queued. -/
theorem queued_enqueue (hw : t.workers[w]? = some worker) (jobs : List (Job κ)) :
    (t.enqueue w jobs).queued.Perm (t.queued ++ jobs) := by
  obtain ⟨others, hbefore, hafter⟩ := exists_others hw (·.queue)
  have hjoined := hafter fun worker => { worker with queue := jobs.reverse ++ worker.queue }
  rw [List.append_assoc] at hjoined
  have hjobs := (jobs.reverse_perm.append hbefore.symm).trans List.perm_append_comm
  unfold queued
  rw [List.append_assoc]
  exact (hjoined.trans hjobs).append_left _

/-- What one worker loses, all of them together lose. -/
theorem subperm_updateWorker {α : Type} (hw : t.workers[w]? = some worker)
    {f : Worker κ ε → Worker κ ε} (part : Worker κ ε → List α) (hlost : part (f worker) = []) :
    ((t.updateWorker w f).workers.toList.flatMap part).Subperm
      (t.workers.toList.flatMap part) := by
  obtain ⟨others, hbefore, hafter⟩ := exists_others hw part
  have hleft := hafter f
  rw [hlost, List.nil_append] at hleft
  have hothers := (List.sublist_append_right (part worker) others).subperm
  exact hleft.subperm.trans (hothers.trans hbefore.symm.subperm)

/-- A worker that receives jobs loses what it ran and watched at most. -/
theorem perm_receive (hw : t.workers[w]? = some worker) (handed : Handed κ (Job κ)) :
    (t.receive w handed).queued.Perm (t.queued ++ handed.items) ∧
      (t.receive w handed).underWay.Subperm t.underWay ∧
        (t.receive w handed).watched.Subperm t.watched := by
  set placed := ({ t with graph := handed.graph } : System κ ε).enqueue w handed.items
  have hqueued : placed.queued.Perm (t.queued ++ handed.items) :=
    queued_enqueue (t := { t with graph := handed.graph }) hw handed.items
  have hunderWay : placed.underWay = t.underWay :=
    underWay_updateWorker { t with graph := handed.graph } w
  have hwatched : placed.watched = t.watched :=
    watched_updateWorker { t with graph := handed.graph } w
  rw [← hunderWay, ← hwatched]
  cases hfault : handed.fault with
  | none =>
    have hreceive : t.receive w handed = placed := by
      unfold receive
      rw [hfault]
      rfl
    rw [hreceive]
    exact ⟨hqueued, .refl _, .refl _⟩
  | some fault =>
    have hreceive : t.receive w handed = placed.updateWorker w fun worker => { worker with
        running := none, watcher := { worker.watcher with pending := [] }, dead := true } := by
      unfold receive
      rw [hfault]
      rfl
    have hw' := getElem?_updateWorker_self (s := { t with graph := handed.graph }) hw
      fun worker => { worker with queue := handed.items.reverse ++ worker.queue }
    rw [hreceive, queued_updateWorker placed w]
    exact ⟨hqueued, subperm_updateWorker hw' (·.running.toList) rfl,
      subperm_updateWorker hw' (·.watcher.pending) rfl⟩

end System

namespace Yard

variable {s s' s'' : Yard κ ε} {t t' : System κ ε} {w : Nat} {worker : Worker κ ε}
  {handed later : Handed κ (Job κ)}

/-- A yard mirrors a system with what it runs and watches itself. -/
def Mirrors (s : Yard κ ε) (t : System κ ε) : Prop := s.system.Mirrors t s.running s.watched

/-- Moves that run jobs lead from a yard to one that mirrors a system. -/
def Follows (s : Yard κ ε) (t : System κ ε) : Prop :=
  ∃ moves : List (Move κ), (∀ move ∈ moves, move.Runs) ∧ (s.run moves).Mirrors t ∧
    (s.run moves).crews = s.crews

theorem Follows.refl (h : s.Mirrors t) : s.Follows t :=
  ⟨[], fun _ hmove => absurd hmove List.not_mem_nil, h, rfl⟩

/-- What was handed on has come to a yard. Its watched jobs may have changed. -/
structure Receives (s s' : Yard κ ε) (handed : Handed κ (Job κ)) : Prop where
  graph : s'.graph = handed.graph
  tracker : s'.system.tracker = s.system.tracker
  grain : s'.system.grain = s.system.grain
  queued : s'.system.inbox.waiting.Perm (s.system.inbox.waiting ++ handed.items)
  running : s'.running = s.running
  crews : s'.crews = s.crews

namespace Receives

theorem refl (s : Yard κ ε) : s.Receives s ⟨s.graph, [], none⟩ where
  graph := rfl
  tracker := rfl
  grain := rfl
  queued := .of_eq (List.append_nil _).symm
  running := rfl
  crews := rfl

/-- More is handed on. -/
theorem trans (h : s.Receives s' handed) (h' : s'.Receives s'' later) :
    s.Receives s'' { later with items := handed.items ++ later.items } where
  graph := h'.graph
  tracker := h'.tracker.trans h.tracker
  grain := h'.grain.trans h.grain
  queued := h'.queued.trans ((h.queued.append_right _).trans (.of_eq (List.append_assoc ..)))
  running := h'.running.trans h.running
  crews := h'.crews.trans h.crews

/-- A part finishes. -/
theorem finishAt (s : Yard κ ε) (stage : Stage) (position : Nat) (job : Job κ) :
    (s.without stage position).Receives (s.finishAt stage position job)
      (s.graph.finishPart (Graph.handJob s.system.grain) job.node) := by
  cases stage <;> exact ⟨rfl, rfl, rfl, .refl _, rfl, rfl⟩

/-- A worker receives what the yard does. -/
theorem mirrors (h : s.Receives s' handed) (hw : t.workers[w]? = some worker)
    (ht : s.system.Mirrors t s.running s'.watched) : s'.Mirrors (t.receive w handed) := by
  obtain ⟨hqueued, hunderWay, hwatched⟩ := System.perm_receive hw handed
  obtain ⟨htracker, hgrain, hgraph⟩ := System.receive_eq t w handed
  refine ⟨h.graph.trans hgraph.symm, (h.tracker.trans ht.tracker).trans htracker.symm,
    (h.grain.trans ht.grain).trans hgrain.symm, ?_, ?_, ?_⟩
  · exact h.queued.trans ((ht.queued.append_right _).trans hqueued.symm)
  · rw [h.running]
    exact hunderWay.trans ht.underWay
  · obtain ⟨kept, hkept, hsublist⟩ := hwatched
    exact .trans ⟨_, hkept.map Watched.node, hsublist.map Watched.node⟩ ht.watched

end Receives

/-- Jobs that are watched are left when a part has finished. -/
theorem watched_finishAt (s : Yard κ ε) (stage : Stage) (position : Nat) (job : Job κ) :
    (s.finishAt stage position job).watched = (s.without stage position).watched := by
  cases stage <;> rfl

/-- An event on a node that is watched completes. -/
theorem exists_finish_watched {n : NodeId} {others : List NodeId}
    (h : (n :: others).Subperm (s.watched.map Job.node)) : ∃ position : Nat,
      s.Receives (s.act (.finish .watched position))
          (s.graph.finishPart (Graph.handJob s.system.grain) n) ∧
        others.Subperm ((s.act (.finish .watched position)).watched.map Job.node) := by
  obtain ⟨position, job, hjob, rfl, hothers⟩ := exists_position_of_subperm h
  have hact : s.act (.finish .watched position) = s.finishAt .watched position job := by
    have hwatched : (s.jobsAt .watched)[position]? = some job := hjob
    simp only [act, hwatched]
  refine ⟨position, ?_⟩
  rw [hact, watched_finishAt]
  exact ⟨{ Receives.finishAt s .watched position job with }, hothers⟩

/-- An entry whose event completes is missing from those that are watched then. -/
theorem perm_nodes_lastFirst (kept rest : List (Watched ε)) (entry : Watched ε)
    (others : List NodeId) :
    (entry.node :: ((kept ++ Watcher.lastFirst rest).map Watched.node ++ others)).Perm
      ((kept ++ entry :: rest).map Watched.node ++ others) := by
  have hlast := ((Watcher.perm_lastFirst rest).append_left kept).cons entry
  exact ((hlast.trans List.perm_middle.symm).map Watched.node).append_right others

/-- A scan finishes a part for every event that it finds complete. -/
theorem exists_scan (query : ε → Bool × ε) (g : Graph κ) (kept rest : List (Watched ε))
    {grain : Nat} {others : List NodeId} (hgraph : s.graph = g) (hgrain : s.system.grain = grain)
    (h : ((kept ++ rest).map Watched.node ++ others).Subperm (s.watched.map Job.node)) :
    ∃ moves : List (Move κ), (∀ move ∈ moves, move.Runs) ∧
      s.Receives (s.run moves) (Watcher.scan query (Graph.handJob grain) g kept rest).handed ∧
        ((Watcher.scan query (Graph.handJob grain) g kept rest).pending.map Watched.node ++
          others).Subperm ((s.run moves).watched.map Job.node) := by
  fun_induction Watcher.scan generalizing s with
  | case1 g kept =>
    subst hgraph
    rw [List.append_nil] at h
    exact ⟨[], by simp, .refl s, h⟩
  | case2 g kept entry rest event hquery ih =>
    refine ih hgraph hgrain ?_
    rw [List.append_assoc, List.map_append] at *
    exact h
  | case3 _ kept entry rest =>
    subst hgraph hgrain
    obtain ⟨position, hreceives, hleft⟩ :=
      exists_finish_watched ((perm_nodes_lastFirst kept rest entry others).subperm.trans h)
    exact ⟨[.finish .watched position], by simp [Move.Runs], hreceives, hleft⟩
  | case4 _ kept entry rest =>
    rename_i ih
    subst hgraph hgrain
    obtain ⟨position, hreceives, hleft⟩ :=
      exists_finish_watched ((perm_nodes_lastFirst kept rest entry others).subperm.trans h)
    obtain ⟨moves, hruns, hlater, hwatched⟩ := ih hreceives.graph hreceives.grain hleft
    exact ⟨.finish .watched position :: moves, List.forall_mem_cons.mpr ⟨trivial, hruns⟩,
      hreceives.trans hlater, hwatched⟩

/-- A poll finishes a part for every event that it finds complete. -/
theorem exists_poll (query : ε → Bool × ε) (watcher : Watcher ε) {others : List NodeId}
    (h : (watcher.pending.map Watched.node ++ others).Subperm (s.watched.map Job.node)) :
    ∃ moves : List (Move κ), (∀ move ∈ moves, move.Runs) ∧
      s.Receives (s.run moves)
          (watcher.poll query (Graph.handJob s.system.grain) s.graph).handed ∧
        ((watcher.poll query (Graph.handJob s.system.grain) s.graph).watcher.pending.map
          Watched.node ++ others).Subperm ((s.run moves).watched.map Job.node) := by
  unfold Watcher.poll
  split
  · exact ⟨[], by simp, .refl s, h⟩
  · split
    · exact ⟨[], by simp, .refl s, h⟩
    · obtain ⟨moves, hruns, hreceives, hwatched⟩ :=
        exists_scan query s.graph [] watcher.pending rfl rfl h
      refine ⟨moves, hruns, ?_⟩
      dsimp only
      split <;> exact ⟨hreceives, hwatched⟩

/-- A job is split, and what is left of it begins to run. -/
theorem run_split_begin {position : Nat} {job piece rest : Job κ} {g : Graph κ}
    (hjob : (s.jobsAt .queued)[position]? = some job)
    (hparts : s.graph.splitJob job = some (g, piece, rest)) : ∃ (taken : Nat) (notes : List (Note κ)),
      s.run [.split position, .begin position] = { s with
        system := { s.system with
          graph := g
          inbox := ⟨s.system.inbox.waiting.eraseIdx position ++ [piece], taken⟩ }
        running := rest :: s.running
        notes } := by
  obtain ⟨hlt, _⟩ := List.getElem?_eq_some_iff.mp hjob
  have hset : position < (s.system.inbox.waiting.set position rest).length := by
    rw [List.length_set]
    exact hlt
  have hrest : ((s.split position g piece rest).jobsAt .queued)[position]? = some rest :=
    (List.getElem?_append_left hset).trans (List.getElem?_set_self hlt)
  have hsplit : s.act (.split position) = s.split position g piece rest := by
    simp only [act, hjob, Option.bind_some, hparts]
  have herase : (s.system.inbox.waiting.set position rest ++ [piece]).eraseIdx position =
      s.system.inbox.waiting.eraseIdx position ++ [piece] := by
    rw [List.eraseIdx_append_of_lt_length hset, List.eraseIdx_set_eq]
  refine ⟨s.system.inbox.taken + 1, .began rest :: .split piece.node :: s.notes, ?_⟩
  change (s.act (.split position)).act (.begin position) = _
  rw [hsplit, ← herase]
  simp only [act, hrest]
  rfl

namespace Mirrors

/-- A worker that polls finishes parts whose events are complete. -/
theorem poll (h : s.Mirrors t) (query : ε → Bool × ε) (w : Nat) : s.Follows (t.poll query w) := by
  unfold System.poll
  split
  · exact .refl h
  · next worker hw =>
    obtain ⟨others, hbefore, hafter⟩ := System.exists_others hw (·.watcher.pending)
    have hcovered := (hbefore.symm.map Watched.node).subperm.trans h.watched
    rw [List.map_append] at hcovered
    obtain ⟨moves, hruns, hreceives, hwatched⟩ := exists_poll query worker.watcher hcovered
    have hgraph : s.graph = t.graph := h.graph
    rw [h.grain, hgraph] at hreceives hwatched
    rw [← List.map_append] at hwatched
    have hleft := (hafter ({ · with watcher :=
      (worker.watcher.poll query (Graph.handJob t.grain) t.graph).watcher })).map Watched.node
    refine ⟨moves, hruns, ?_, hreceives.crews⟩
    exact hreceives.mirrors (System.getElem?_updateWorker_self hw _)
      (h.look rfl (fun _ => rfl) (fun _ => rfl) (hleft.subperm.trans hwatched))

/-- A worker finishes a part that nothing in the yard holds any longer. -/
theorem finishPart {stage : Stage} {position : Nat} {job : Job κ}
    (h : (s.without stage position).Mirrors t) (hjob : (s.jobsAt stage)[position]? = some job)
    (hw : t.workers[w]? = some worker) : s.Follows (t.finishPart w job.node) := by
  have hact : s.run [.finish stage position] = s.finishAt stage position job := by
    change s.act (.finish stage position) = _
    simp only [act, hjob]
  have hgraph : s.graph = t.graph := by
    rw [← h.graph]
    cases stage <;> rfl
  have hgrain : s.system.grain = t.grain := by
    rw [← h.grain]
    cases stage <;> rfl
  refine ⟨[.finish stage position], by simp [Move.Runs], ?_, ?_⟩
  · have hreceives := Receives.finishAt s stage position job
    rw [hgraph, hgrain] at hreceives
    rw [hact]
    refine hreceives.mirrors hw ?_
    rw [watched_finishAt]
    exact h
  · rw [hact]
    exact (finishAt_eq s stage position job).2.2.2.1

/-- A worker sees an event complete. -/
theorem settle (h : s.Mirrors t) (w position : Nat) : s.Follows (t.settle w position) := by
  unfold System.settle
  cases hentry : t.watchedAt w position with
  | none => exact .refl h
  | some entry =>
    obtain ⟨worker, hw, hpending⟩ := Option.bind_eq_some_iff.mp hentry
    obtain ⟨others, hbefore, hafter⟩ := System.exists_others hw (·.watcher.pending)
    obtain ⟨hlt, hget⟩ := List.getElem?_eq_some_iff.mp hpending
    have hperm := (List.getElem_cons_eraseIdx_perm hlt).append_right others
    rw [hget] at hperm
    have hcovered := ((hperm.trans hbefore.symm).map Watched.node).subperm.trans h.watched
    rw [List.cons_append, List.map_cons] at hcovered
    obtain ⟨place, job, hjob, hnode, hleft⟩ := exists_position_of_subperm hcovered
    have hfewer : (s.without .watched place).Mirrors (t.updateWorker w fun worker =>
        { worker with
          watcher := { worker.watcher with
            pending := worker.watcher.pending.eraseIdx position } }) :=
      h.look rfl (fun _ => rfl) (fun _ => rfl)
        (((hafter _).map Watched.node).subperm.trans hleft)
    dsimp only
    rw [← hnode]
    exact hfewer.finishPart hjob (System.getElem?_updateWorker_self hw _)

/-- A worker's job ends. -/
theorem conclude (h : s.Mirrors t) (w : Nat) (result : RunResult ε) :
    s.Follows (t.conclude w result) := by
  unfold System.conclude
  cases hrunning : t.runningOn w with
  | none => exact .refl h
  | some job =>
    obtain ⟨worker, hw, hjob⟩ := Option.map_eq_some_iff.mp (Option.join_eq_some_iff.mp hrunning)
    obtain ⟨position, hposition, hrest⟩ := System.Mirrors.rest h hw hjob
    have hw' := System.getElem?_updateWorker_self hw ({ · with running := none })
    have hfewer : (s.without .running position).Mirrors
        (t.updateWorker w ({ · with running := none })) := hrest
    cases result with
    | finished => exact finishPart (hfewer.count _) hposition hw'
    | stopped => exact finishPart ((hfewer.count _).count _) hposition hw'
    | event e =>
      obtain ⟨others, hbefore, hafter⟩ := System.exists_others hw' (·.watcher.pending)
      have htracked := hafter fun worker =>
        { worker with watcher := worker.watcher.track e job.node }
      have hlast := (List.perm_append_singleton ⟨e, job.node⟩ worker.watcher.pending).append_right
        others
      have hmore := htracked.trans (hlast.trans (hbefore.symm.cons _))
      have hact : s.run [.watch position] =
          { s.without .running position with watched := job :: s.watched } := by
        change s.act (.watch position) = _
        have hrunning : (s.jobsAt .running)[position]? = some job := hposition
        simp only [act, hrunning]
      refine ⟨[.watch position], by simp [Move.Runs], ?_, by rw [hact]; rfl⟩
      rw [hact]
      refine (hrest.count _).look rfl (fun _ => rfl) (fun _ => rfl) ?_
      exact (hmore.map Watched.node).subperm.trans
        ((List.subperm_cons job.node).mpr hrest.watched)

/-- A worker begins to run a job that it took. -/
theorem beginWith (h : s.Mirrors t) {job : Job κ} (htakes : t.Takes job t')
    (hw : t'.workers[w]? = some worker) (hfree : worker.running = none) (split : Bool) :
    s.Follows (t'.beginWith w job split) := by
  obtain ⟨position, hposition, hleft⟩ := exists_position_of_perm (h.queued.trans htakes.queued)
  obtain ⟨others, hbefore, hafter⟩ := System.exists_others hw (·.running.toList)
  rw [hfree] at hbefore
  have hjob : (s.jobsAt .queued)[position]? = some job := hposition
  have hgraph : s.graph = t'.graph := h.graph.trans htakes.graph.symm
  have hrunning : others.Subperm s.running := by
    refine hbefore.symm.subperm.trans (.trans ?_ h.underWay)
    exact (List.Perm.of_eq htakes.underWay).subperm
  unfold System.beginWith
  split
  · have hact : s.run [.begin position] = { s.without .queued position with
        running := job :: s.running, notes := .began job :: s.notes } := by
      change s.act (.begin position) = _
      simp only [act, hjob]
    refine ⟨[.begin position], by simp [Move.Runs], ?_, by rw [hact]; rfl⟩
    rw [hact]
    refine ⟨hgraph, h.tracker.trans htakes.tracker.symm, h.grain.trans htakes.grain.symm, ?_, ?_, ?_⟩
    · rw [System.queued_updateWorker t' w]
      exact hleft
    · exact (hafter _).subperm.trans ((List.subperm_cons job).mpr hrunning)
    · rw [System.watched_updateWorker t' w, htakes.watched]
      exact h.watched
  · next g piece rest hsplit =>
    have hparts : s.graph.splitJob job = some (g, piece, rest) := by
      rw [hgraph]
      split at hsplit
      · exact hsplit
      · cases hsplit
    obtain ⟨taken, notes, hrun⟩ := run_split_begin hjob hparts
    obtain ⟨queues, hqueues, hlonger⟩ := System.exists_others hw (·.queue)
    have hqueue := hlonger fun worker =>
      { worker with queue := piece :: worker.queue, running := some rest }
    have hmiddle := (hleft.cons piece).trans List.perm_middle.symm
    refine ⟨[.split position, .begin position], by simp [Move.Runs], ?_, by rw [hrun]⟩
    rw [hrun]
    refine ⟨rfl, h.tracker.trans htakes.tracker.symm, h.grain.trans htakes.grain.symm, ?_, ?_, ?_⟩
    · refine (List.perm_append_singleton piece _).trans (hmiddle.trans ?_)
      exact ((hqueues.cons piece).trans hqueue.symm).append_left _
    · exact (hafter _).subperm.trans ((List.subperm_cons rest).mpr hrunning)
    · have hsame := System.watched_updateWorker t' w (f := fun worker =>
        { worker with queue := piece :: worker.queue, running := some rest })
      exact (List.Perm.of_eq (congrArg _ (hsame.trans htakes.watched))).subperm.trans h.watched

end Mirrors

end Yard

end HazardFlow
