import HazardFlow.Proofs.Closing.Run
import HazardFlow.Proofs.Schedule.Beginning
import HazardFlow.Proofs.Schedule.Feeding

/-!
# What builders and workers hand on

An action makes jobs come up, or lets a worker begin to run one. Builders leave the workers alone,
and a worker that acts spares the others.
-/

namespace HazardFlow

variable {κ ε : Type}

/-- Builders begin no jobs. -/
theorem Action.begun_of_worker? {a : Action κ ε} (ha : a.worker? = none) (s s' : System κ ε) :
    a.begun s s' = none := by
  cases a with
  | take w _ _ _ | begin w => cases ha
  | _ => rfl

namespace Site

variable {s : Site κ ε}

/-- A free worker that takes a job begins to run it. -/
theorem began_take {w : Nat} {place : Place} {position : Nat} {split : Bool}
    (hfree : s.system.isFree w = true) {job : Job κ} {system : System κ ε}
    (hpick : s.system.pick place position = some (system, job)) :
    s.system.Began w (system.beginWith w job split) ∧
      Spares s.system.workers (system.beginWith w job split).workers w := by
  have htakes := System.takes_pick hpick
  obtain ⟨worker, hw, _⟩ := htakes.exists_free hfree
  exact ⟨htakes.began hw split, System.spares_beginWith (System.spares_pick hpick w) job split⟩

/-- So does one that takes the job which it finds first. -/
theorem began_begin {w : Nat} (hfree : s.system.isFree w = true) {job : Job κ}
    {system : System κ ε} (htake : s.system.takeJob w = some (system, job)) :
    s.system.Began w (system.begin w job) ∧
      Spares s.system.workers (system.begin w job).workers w := by
  obtain ⟨_, hfirst, _⟩ := System.exists_free hfree
  have htakes := System.takes_takeJob hfirst htake
  obtain ⟨worker, hw, _⟩ := htakes.exists_free hfree
  rw [System.begin_eq_beginWith]
  exact ⟨htakes.began hw _, System.spares_beginWith (System.spares_takeJob htake) job _⟩

/-- A free worker runs nothing. -/
theorem runningOn_of_isFree {w : Nat} (hfree : s.system.isFree w = true) :
    s.system.runningOn w = none := by
  obtain ⟨worker, hw, hnone⟩ := System.exists_free hfree
  unfold System.runningOn
  rw [hw]
  exact hnone

/-- What an action that may begin a job does to jobs and workers. -/
structure Hands (s : Site κ ε) (a : Action κ ε) : Prop where
  workers : a.worker? = none → (s.act a).system.workers = s.system.workers
  spares : ∀ w : Nat, a.worker? = some w →
    Spares s.system.workers (s.act a).system.workers w
  /-- No job begins to run, and others may come up. -/
  supplies : a.begun s.system (s.act a).system = none →
    ∃ jobs, s.system.Supplies (s.act a).system jobs
  /-- A job begins to run. -/
  began : ∀ job, a.begun s.system (s.act a).system = some job →
    ∃ w, (s.act a).system.runningOn w = some job ∧ s.system.Began w (s.act a).system

/-- A builder's action begins no job. -/
theorem Hands.of_feeds {a : Action κ ε} (ha : a.worker? = none)
    (h : s.system.Feeds (s.act a).system) : s.Hands a where
  workers _ := h.2
  spares w hw := by
    rw [ha] at hw
    cases hw
  supplies _ := h.1
  began job hjob := by
    rw [Action.begun_of_worker? ha] at hjob
    cases hjob

/-- A worker's action that begins no job. -/
theorem Hands.of_supplies {a : Action κ ε} {w : Nat} (ha : a.worker? = some w)
    (hbegun : a.begun s.system (s.act a).system = none)
    (h : (∃ jobs, s.system.Supplies (s.act a).system jobs) ∧
      Spares s.system.workers (s.act a).system.workers w) : s.Hands a where
  workers hnone := by
    rw [ha] at hnone
    cases hnone
  spares v hv := by
    obtain rfl := Option.some.inj (ha.symm.trans hv)
    exact h.2
  supplies _ := h.1
  began job hjob := by
    rw [hbegun] at hjob
    cases hjob

/-- A worker's action that begins a job, if it is possible. -/
theorem Hands.of_began {a : Action κ ε} {w : Nat} (ha : a.worker? = some w)
    (hbegun : a.begun s.system (s.act a).system = (s.act a).system.runningOn w)
    (h : s.system.Began w (s.act a).system ∧
      Spares s.system.workers (s.act a).system.workers w) : s.Hands a where
  workers hnone := by
    rw [ha] at hnone
    cases hnone
  spares v hv := by
    obtain rfl := Option.some.inj (ha.symm.trans hv)
    exact h.2
  supplies hnone := by
    rw [hbegun] at hnone
    cases h.1 with
    | whole hrunning => rw [hrunning] at hnone; cases hnone
    | half hrunning => rw [hrunning] at hnone; cases hnone
  began job hjob := ⟨w, hbegun.symm.trans hjob, h.1⟩

/-- An action that is not possible. -/
theorem Hands.of_keep {a : Action κ ε} (hsame : s.act a = s)
    (hbegun : a.begun s.system s.system = none) : s.Hands a where
  workers _ := by rw [hsame]
  spares w _ := by
    rw [hsame]
    exact .refl ..
  supplies _ := by
    rw [hsame]
    exact ⟨[], .refl _⟩
  began job hjob := by
    rw [hsame, hbegun] at hjob
    cases hjob

/-- What the actions of workers do to jobs and workers. -/
theorem hands_of_worker (hs : s.graph.Coherent s.system.load) {due : List NodeId}
    (he : s.system.Exact due) {a : Action κ ε} {v : Nat} (ha : a.worker? = some v) :
    s.Hands a := by
  cases a with
  | take w place position split =>
    cases hfree : s.system.isFree w with
    | false => exact .of_keep (by simp [act, take, hfree]) (by simp [Action.begun, hfree])
    | true =>
      cases hpick : s.system.pick place position with
      | none =>
        exact .of_keep (by simp [act, take, hpick])
          (by simp [Action.begun, runningOn_of_isFree hfree])
      | some picked =>
        refine .of_began (w := w) rfl (by simp [Action.begun, hfree]) ?_
        simp only [act, take, hfree, if_true, hpick]
        exact began_take hfree hpick
  | begin w =>
    cases hfree : s.system.isFree w with
    | false => exact .of_keep (by simp [act, begin, hfree]) (by simp [Action.begun, hfree])
    | true =>
      cases htake : s.system.takeJob w with
      | none =>
        exact .of_keep (by simp [act, begin, htake])
          (by simp [Action.begun, runningOn_of_isFree hfree])
      | some taken =>
        refine .of_began (w := w) rfl (by simp [Action.begun, hfree]) ?_
        simp only [act, begin, hfree, if_true, htake]
        exact began_begin hfree htake
  | conclude w result =>
    exact .of_supplies rfl rfl (System.supplies_conclude hs he w result)
  | settle w position =>
    exact .of_supplies rfl rfl (System.supplies_settle hs he w position)
  | poll w query => exact .of_supplies rfl rfl (System.supplies_poll hs he query w)
  | _ => cases ha

/-- What actions do to jobs and workers. -/
theorem hands_act (hs : s.Sound) (he : s.Exact) {a : Action κ ε} (ha : a.Ordered) :
    s.Hands a := by
  have hkept : ∀ {i : Nat} {a : Action κ ε}, s.builderAt i = none → a.worker? = none →
      s.act a = s → s.Hands a := fun _ hworker hsame =>
    .of_feeds hworker (by rw [hsame]; exact .refl _)
  cases a with
  | newBuilder => exact .of_feeds rfl (.of_same rfl rfl fun _ => rfl)
  | add i work access profile =>
    cases hi : s.builderAt i with
    | none => exact hkept hi rfl (by simp [act, hi])
    | some b =>
      refine .of_feeds rfl ?_
      simp only [act, hi, Option.elim_some]
      unfold add
      split
      · next hall =>
        have hdeps : ∀ d : Nat, d ∈ access.deps → d < s.graph.nodes.size := fun d hd =>
          of_decide_eq_true (List.all_eq_true.mp hall d hd)
        obtain ⟨system, sources, hadd, hadded⟩ := System.exists_added hs.system (hs.holds i b hi)
          hs.shards hs.within work profile hdeps
        refine System.feeds_add (?_ : s.system.Added b work access profile sources _)
        rw [hadd]
        exact hadded
      · exact .refl _
  | execute i =>
    cases hi : s.builderAt i with
    | none => exact hkept hi rfl (by simp [act, hi])
    | some b =>
      refine .of_feeds rfl ?_
      simp only [act, hi, Option.elim_some]
      exact System.feeds_execute hs.system (hs.holds i b hi) he.system
  | drop i =>
    cases hi : s.builderAt i with
    | none => exact hkept hi rfl (by simp [act, hi])
    | some b =>
      refine .of_feeds rfl ?_
      simp only [act, hi, Option.elim_some]
      exact System.feeds_dropBuilder hs.system (hs.holds i b hi) he.system
  | reset => exact .of_feeds rfl (.of_same rfl rfl fun _ => rfl)
  | _ => exact hands_of_worker hs.system.coherent he.system rfl

end Site

end HazardFlow
