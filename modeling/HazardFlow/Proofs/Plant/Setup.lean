import HazardFlow.Proofs.Plant.Keeping
import HazardFlow.Proofs.Schedule.Launching
import HazardFlow.Proofs.Schedule.Sparing
import HazardFlow.Proofs.Splitting
import HazardFlow.Proofs.Yard.Adding

/-!
# What a launched system keeps

Nothing that happens in a system changes its grain, or how many shards it has. It keeps its workers,
too, until it lets go of all of them. So what was checked before the launch still holds whenever
something depends on it: cursors get a grain that is not zero, addresses fall into shards that are
there, and workers turn to peers that are there.
-/

namespace HazardFlow

variable {κ ε : Type}

namespace System

/-- What a system was set up with. -/
structure Setup where
  grain : Nat
  shards : Nat
  workers : Nat
  deriving DecidableEq, Repr

/-- The grain of a system, and the numbers of its shards and its workers. -/
def setup (s : System κ ε) : Setup := ⟨s.grain, s.tracker.shards.size, s.workers.size⟩

variable {s s' : System κ ε} {w : Nat} {job : Job κ}

@[simp] theorem setup_updateWorker (s : System κ ε) (w : Nat) (f : Worker κ ε → Worker κ ε) :
    (s.updateWorker w f).setup = s.setup := by
  have hsize : (s.updateWorker w f).workers.size = s.workers.size := Array.size_modify ..
  unfold setup
  rw [hsize]
  rfl

@[simp] theorem setup_count (s : System κ ε) (f : Stats → Stats) : (s.count f).setup = s.setup :=
  rfl

@[simp] theorem setup_receive (s : System κ ε) (w : Nat) (handed : Handed κ (Job κ)) :
    (s.receive w handed).setup = s.setup := by
  unfold receive
  dsimp only
  split
  · exact setup_updateWorker ..
  · exact (setup_updateWorker ..).trans (setup_updateWorker ..)

@[simp] theorem setup_finishPart (s : System κ ε) (w : Nat) (n : NodeId) :
    (s.finishPart w n).setup = s.setup := setup_receive ..

@[simp] theorem setup_poll (query : ε → Bool × ε) (s : System κ ε) (w : Nat) :
    (s.poll query w).setup = s.setup := by
  unfold poll
  split
  · rfl
  · exact (setup_receive ..).trans (setup_updateWorker ..)

@[simp] theorem setup_settle (s : System κ ε) (w position : Nat) :
    (s.settle w position).setup = s.setup := by
  unfold settle
  split
  · rfl
  · exact (setup_finishPart ..).trans (setup_updateWorker ..)

@[simp] theorem setup_conclude (s : System κ ε) (w : Nat) (result : RunResult ε) :
    (s.conclude w result).setup = s.setup := by
  unfold conclude
  split
  · rfl
  · cases result <;> simp

theorem setup_beginWith (s : System κ ε) (w : Nat) (job : Job κ) (split : Bool) :
    (s.beginWith w job split).setup = s.setup := by
  unfold beginWith
  split
  · exact setup_updateWorker ..
  · exact (setup_count ..).trans (setup_updateWorker ..)

theorem setup_pick {place : Place} {position : Nat} (h : s.pick place position = some (s', job)) :
    s'.setup = s.setup := by
  obtain ⟨_, _, heq⟩ := Option.map_eq_some_iff.mp h
  obtain ⟨rfl, rfl⟩ := Prod.mk.inj heq
  cases place with
  | inbox => rfl
  | queue w => exact setup_updateWorker ..

theorem setup_takeOwn (h : s.takeOwn w = some (s', job)) : s'.setup = s.setup := by
  unfold takeOwn at h
  split at h
  · obtain ⟨rfl, -⟩ := Prod.mk.inj (Option.some.inj h)
    exact setup_updateWorker ..
  · cases h

theorem setup_takeJob (h : s.takeJob w = some (s', job)) : s'.setup = s.setup := by
  unfold takeJob at h
  rcases Option.or_eq_some_iff.mp h with hfirst | ⟨-, hpeer⟩
  · rcases Option.or_eq_some_iff.mp hfirst with hown | ⟨-, hinbox⟩
    · exact setup_takeOwn hown
    · obtain ⟨_, _, heq⟩ := Option.map_eq_some_iff.mp hinbox
      obtain ⟨rfl, -⟩ := Prod.mk.inj heq
      exact setup_updateWorker ..
  · obtain ⟨peer, -, hsteal⟩ := List.exists_of_findSome?_eq_some hpeer
    unfold stealFrom at hsteal
    split at hsteal
    · cases hsteal
    · obtain ⟨_, _, heq⟩ := Option.map_eq_some_iff.mp hsteal
      obtain ⟨rfl, -⟩ := Prod.mk.inj heq
      exact (setup_count ..).trans (setup_updateWorker ..)

theorem setup_retireQueue (s : System κ ε) (w bound : Nat) :
    (s.retireQueue w bound).setup = s.setup := by
  induction bound generalizing s with
  | zero => rfl
  | succ bound ih =>
    unfold retireQueue
    split
    · rfl
    split
    · rfl
    · next htake =>
      rw [ih, setup_finishPart, setup_count]
      exact setup_takeOwn htake

theorem setup_retireInbox (s : System κ ε) (bound : Nat) :
    (s.retireInbox bound).state.setup = s.setup := by
  induction bound generalizing s with
  | zero => rfl
  | succ bound ih =>
    unfold retireInbox
    split
    · rfl
    dsimp only
    split
    · rfl
    · exact ih _

end System

/-- Whatever a worker does. -/
theorem Site.setup_act_of_worker {s : Site κ ε} {a : Action κ ε} {w : Nat}
    (ha : a.worker? = some w) : (s.act a).system.setup = s.system.setup := by
  cases a with
  | take v place position split =>
    simp only [act, take]
    split
    · split
      · next hpick => exact (System.setup_beginWith ..).trans (System.setup_pick hpick)
      · rfl
    · rfl
  | begin v =>
    simp only [act, begin]
    split
    · split
      · next htake =>
        rw [System.begin_eq_beginWith]
        exact (System.setup_beginWith ..).trans (System.setup_takeJob htake)
      · rfl
    · rfl
  | conclude v result => exact System.setup_conclude ..
  | settle v position => exact System.setup_settle ..
  | poll v query => exact System.setup_poll ..
  | _ => cases ha

/-- Whatever a builder or a submission does. -/
theorem Yard.setup_act (s : Yard κ ε) (move : Move κ) :
    (s.act move).system.setup = s.system.setup := by
  have hnote {α : Type} (s : Yard κ ε) (result : Except Fault α) :
      (s.noteFault result).system = s.system := by
    cases result <;> rfl
  have htracker {t : Tracker} {g : Graph κ} (hsize : t.shards.size = s.system.tracker.shards.size) :
      ({ s.system with tracker := t, graph := g } : System κ ε).setup = s.system.setup := by
    unfold System.setup
    dsimp only
    rw [hsize]
  cases move with
  | newBuilder => rfl
  | add i work profile =>
    simp only [act]
    split <;> rfl
  | wire n c =>
    simp only [act]
    split
    · unfold wire
      dsimp only
      rw [hnote]
      cases c with
      | access a write => exact htracker (Tracker.size_shards_resolve ..)
      | edge source => exact htracker rfl
    · rfl
  | reset => exact htracker (by simp [Tracker.reset])
  | execute i | drop i | abandon i =>
    simp only [act]
    split <;> rfl
  | discard i =>
    simp only [act]
    split
    · unfold discard
      dsimp only
      rw [hnote]
      rfl
    · rfl
  | dispatch k =>
    simp only [act]
    split
    · next b n due _ =>
      have hdispatched := System.dispatched_dispatch s.system n
      unfold dispatch
      generalize s.system.dispatch n = o at hdispatched
      cases hdispatched <;> rfl
    · rfl
  | close k =>
    simp only [act]
    split <;> rfl
  | split position =>
    simp only [act]
    split <;> rfl
  | begin position | watch position =>
    simp only [act]
    split <;> rfl
  | finish stage position =>
    simp only [act]
    split
    · cases stage <;> rfl
    · rfl

/-- Nothing that happens in a plant changes what its system was set up with, but that it lets go of
its workers. -/
theorem Plant.setup_step (p : Plant κ ε) (move : Move κ ε) :
    (p.step move).system.setup = p.system.setup ∨
      (p.step move).system.setup = { p.system.setup with workers := 0 } := by
  have hdoes := p.does_step move
  generalize p.step move = p' at hdoes
  cases hdoes with
  | keep | skip | stop => exact .inl rfl
  | build => exact .inl (Yard.setup_act p.yard _)
  | work ha => exact .inl (Site.setup_act_of_worker (s := { system := p.system }) ha)
  | leave _ hdoes =>
    refine .inl ?_
    cases hdoes with
    | keep | notice | left => rfl
    | settle => exact System.setup_settle ..
    | drained => exact System.setup_updateWorker ..
    | drop => exact System.setup_retireQueue ..
  | close hdoes =>
    cases hdoes with
    | keep => exact .inl rfl
    | dismiss =>
      obtain ⟨log, heq⟩ := p.system.exists_dismiss_eq
      refine .inr ?_
      change p.system.dismiss.setup = _
      rw [heq]
      rfl
    | retire => exact .inl (System.setup_retireInbox ..)
    | finish _ _ hsystem => rcases hsystem with rfl | rfl <;> exact .inl rfl

theorem Plant.setup_run (p : Plant κ ε) (moves : List (Move κ ε)) :
    (p.run moves).system.setup = p.system.setup ∨
      (p.run moves).system.setup = { p.system.setup with workers := 0 } := by
  induction moves generalizing p with
  | nil => exact .inl rfl
  | cons move moves ih =>
    obtain hstep | hstep := p.setup_step move
    · rw [← hstep]
      exact ih _
    · have hrest := ih (p.step move)
      rw [hstep] at hrest
      exact .inr (hrest.elim id id)

/-- A worker turns to others only, and to workers that are there. -/
theorem System.lt_size_of_mem_peers {s : System κ ε} {w v : Nat} (hw : w < s.workers.size)
    (hv : v ∈ s.peers w) : v < s.workers.size ∧ v ≠ w := by
  obtain ⟨offset, hoffset, rfl⟩ := List.mem_map.mp hv
  rw [List.mem_range] at hoffset
  refine ⟨Nat.mod_lt _ (by omega), ?_⟩
  rcases Nat.lt_or_ge (w + offset + 1) s.workers.size with hlt | hge
  · rw [Nat.mod_eq_of_lt hlt]
    omega
  · rw [Nat.mod_eq_sub_mod hge, Nat.mod_eq_of_lt (by omega)]
    omega

/-- What was checked before a launch holds whenever something depends on it. -/
structure Plant.KeepsSettings (s : Settings) (workers : Nat) (p : Plant κ ε) : Prop where
  grain : p.system.grain = s.grain ∧ 0 < s.grain
  shards : p.system.tracker.shards.size = s.shards
  /-- The low bits of a cache line's number choose a shard that is there. -/
  shardOf : ∀ a : Address, p.system.tracker.shardOf a = a >>> 6 &&& (s.shards - 1) ∧
    p.system.tracker.shardOf a < p.system.tracker.shards.size
  workers : p.system.workers.size = workers ∨ p.system.workers.size = 0
  peers : ∀ w v, w < p.system.workers.size → v ∈ p.system.peers w →
    v < p.system.workers.size ∧ v ≠ w
  /-- A system stops with no fault that a setting is to blame for. -/
  stops : ∀ fault, p.system.Stops fault →
    fault.OfUse ∧ fault ≠ .grainZero ∧ ∀ count, fault ≠ .shardCount count
  /-- The piece of a job that is split gets a cursor of its own. -/
  pieces : ∀ cursor piece rest : Cursor, cursor.split = some (piece, rest) →
    Cursor.ofSpan piece.remaining cursor.grain = .ok piece

/-- Shards are chosen by the low bits when there is a power of two of them. -/
theorem Tracker.shardOf_eq_and {t : Tracker} {k : Nat} (h : t.shards.size = 2 ^ k) (a : Address) :
    t.shardOf a = a >>> 6 &&& (2 ^ k - 1) := by
  unfold shardOf
  rw [h, Nat.and_two_pow_sub_one_eq_mod, Nat.shiftRight_eq_div_pow]
  rfl

theorem Plant.keepsSettings_run {s : Settings} {workers : Nat} {tracker : Tracker}
    (haccepted : s.validated workers = .ok ()) (hcreate : Tracker.create s.shards = .ok tracker)
    (moves : List (Move κ ε)) :
    ((start tracker workers s.grain s.backoffCap : Plant κ ε).run moves).KeepsSettings s
      workers := by
  obtain ⟨-, ⟨k, hk⟩, hzero⟩ := Settings.validated_eq_ok_iff.mp haccepted
  have hgrain : 0 < s.grain := Nat.pos_of_ne_zero hzero
  have hrun := (start tracker workers s.grain s.backoffCap : Plant κ ε).setup_run moves
  have hstart : (start tracker workers s.grain s.backoffCap : Plant κ ε).system.setup =
      ⟨s.grain, s.shards, workers⟩ := by
    unfold start System.start System.setup
    rw [Tracker.size_shards_of_create hcreate, Array.size_replicate]
  rw [hstart] at hrun
  generalize (start tracker workers s.grain s.backoffCap : Plant κ ε).run moves = p at hrun
  have hsame : p.system.grain = s.grain :=
    hrun.elim (congrArg System.Setup.grain) (congrArg System.Setup.grain)
  have hshards : p.system.tracker.shards.size = s.shards :=
    hrun.elim (congrArg System.Setup.shards) (congrArg System.Setup.shards)
  refine ⟨⟨hsame, hgrain⟩, hshards, fun a => ⟨?_, Tracker.shardOf_lt ?_ a⟩,
    hrun.imp (congrArg System.Setup.workers) (congrArg System.Setup.workers),
    fun _ _ => System.lt_size_of_mem_peers, fun fault hstops => ?_,
    fun cursor piece rest hsplit => ?_⟩
  · rw [Tracker.shardOf_eq_and (hshards.trans hk), hk]
  · rw [hshards, hk]
    exact Nat.two_pow_pos k
  · have hofUse := hstops.ofUse (hsame ▸ hgrain)
    refine ⟨hofUse, ?_, fun count => ?_⟩ <;>
    · rintro rfl
      simp [Fault.OfUse] at hofUse
  · obtain ⟨-, -, -, hpiece, -⟩ := Cursor.split_spec hsplit
    rw [← hpiece]
    exact piece.ofSpan_remaining

namespace Settings

/-- What comes of a launch, and what a system that was launched keeps whatever happens in it. -/
structure LaunchesAndRuns (s : Settings) (workers : Nat) : Prop where
  launch : s.LaunchesExactly workers
  run : ∀ tracker, s.launch workers = .ok tracker →
    ∀ (κ ε : Type) (moves : List (Plant.Move κ ε)),
      ((Plant.start tracker workers s.grain s.backoffCap : Plant κ ε).run moves).KeepsSettings s
        workers

/-- A launch does what the settings say, and no setting that was accepted stops the system later. -/
theorem launchesAndRuns (s : Settings) (workers : Nat) : s.LaunchesAndRuns workers := by
  refine ⟨s.launchesExactly workers, fun tracker hlaunch κ ε moves => ?_⟩
  obtain ⟨haccepted, hcreate⟩ := (s.launchesExactly workers).of_launch hlaunch
  exact Plant.keepsSettings_run haccepted hcreate moves

/-- As many workers as there are words are accepted, and their counters do not fit in memory. -/
example : ({} : Settings).validated maxWord = .ok () ∧
    ({} : Settings).launch maxWord = .error (.fault .capacityOverflow) := by decide +kernel

/-- Settings are accepted although no thread can be named after them. -/
theorem not_launches_nullByte :
    let s : Settings := { threadName := "a\x00b" }
    s.validated 1 = .ok () ∧ s.shards * shardBytes ≤ maxBlock ∧ 1 * counterBytes ≤ maxBlock ∧
      s.launch 1 = .error (.fault (.threadName 1 [97, 0, 98, 45, 48])) ∧
        ¬∃ tracker, s.launch 1 = .ok tracker := by
  have hlaunch : ({ threadName := "a\x00b" } : Settings).launch 1 =
      .error (.fault (.threadName 1 [97, 0, 98, 45, 48])) := by decide +kernel
  refine ⟨by decide +kernel, by decide, by decide, hlaunch, ?_⟩
  rintro ⟨tracker, hok⟩
  cases hlaunch.symm.trans hok

end Settings

end HazardFlow
