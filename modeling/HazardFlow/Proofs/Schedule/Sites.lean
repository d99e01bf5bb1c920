import HazardFlow.Proofs.Schedule.Submitting

/-!
# Sound sites

A site is sound when its graph is sound for its load, its shards name existing nodes only, and its
builders hold batches of their own. Every action keeps a site sound. What an action can do is said
once here, for all that is shown of runs later.
-/

namespace HazardFlow.Site

variable {κ ε : Type} {s s' : Site κ ε}

/-- Systems, shards and builders fit together. -/
structure Sound (s : Site κ ε) : Prop where
  system : s.system.Sound
  shards : 0 < s.system.tracker.shards.size
  within : s.system.tracker.Within s.graph.nodes.size
  declared : s.declared.size = s.graph.nodes.size
  holds : ∀ (i : Nat) (b : Builder), s.builderAt i = some b → b.Holds s.graph
  apart : ∀ (i j : Nat) (b c : Builder), s.builderAt i = some b → s.builderAt j = some c → i ≠ j →
    b.batch ≠ c.batch

/-- What an action can make of a site. -/
inductive Does (s : Site κ ε) : Action κ ε → Site κ ε → Prop where
  /-- The action is not possible. -/
  | keep (a : Action κ ε) : Does s a s
  | newBuilder : Does s .newBuilder
      { s with
        system := s.system.newBuilder.1
        builders := s.builders.push (some s.system.newBuilder.2) }
  | add {i : Nat} {b : Builder} {work : Work κ} {access : Access} {profile : Option Profile}
      {sources : List NodeId} {system : System κ ε} (hi : s.builderAt i = some b)
      (hdeps : ∀ d : Nat, d ∈ access.deps → d < s.graph.nodes.size)
      (hadded : s.system.Added b work access profile sources system) :
      Does s (.add i work access profile)
        { s with
          system
          builders := s.builders.setIfInBounds i
            (some { b with nodes := b.nodes ++ [s.graph.nodes.size] })
          declared := s.declared.push access }
  | execute {i : Nat} {b : Builder} (hi : s.builderAt i = some b) :
      Does s (.execute i) (s.execute i b)
  | drop {i : Nat} {b : Builder} (hi : s.builderAt i = some b) : Does s (.drop i) (s.drop i b)
  | reset : Does s .reset { s with system := { s.system with tracker := s.system.tracker.reset } }
  /-- A worker makes steps. -/
  | go {a : Action κ ε} {system : System κ ε} (hgoes : s.system.Goes system) :
      Does s a { s with system }

/-- What workers do are steps. -/
theorem goes_of_worker {a : Action κ ε} {w : Nat} (ha : a.worker? = some w) :
    s.system.Goes (s.act a).system ∧ s.act a = { s with system := (s.act a).system } := by
  cases a with
  | take v place position split =>
    simp only [act, take]
    cases hfree : s.system.isFree v with
    | false => exact ⟨.refl _, rfl⟩
    | true =>
      cases hpick : s.system.pick place position with
      | none => exact ⟨.refl _, rfl⟩
      | some picked => exact ⟨(System.takes_pick hpick).goes_beginWith split hfree, rfl⟩
  | begin v =>
    simp only [act, begin]
    cases hfree : s.system.isFree v with
    | false => exact ⟨.refl _, rfl⟩
    | true =>
      cases hjob : s.system.takeJob v with
      | none => exact ⟨.refl _, rfl⟩
      | some taken => exact ⟨System.goes_begin hfree hjob, rfl⟩
  | conclude v result => exact ⟨System.goes_conclude s.system v result, rfl⟩
  | settle v position => exact ⟨System.goes_settle s.system v position, rfl⟩
  | poll v query => exact ⟨System.goes_poll query s.system v, rfl⟩
  | _ => cases ha

/-- So they do nothing else. -/
theorem does_of_worker {a : Action κ ε} {w : Nat} (ha : a.worker? = some w) :
    Does s a (s.act a) := by
  obtain ⟨hgoes, heq⟩ := goes_of_worker (s := s) ha
  rw [heq]
  exact .go hgoes

/-- Adding a node to a builder succeeds, or names unknown predecessors. -/
theorem does_add (hs : s.Sound) {i : Nat} {b : Builder} (hi : s.builderAt i = some b)
    (work : Work κ) (access : Access) (profile : Option Profile) :
    Does s (.add i work access profile) (s.add i b work access profile) := by
  unfold add
  split
  · next hall =>
    have hdeps : ∀ d : Nat, d ∈ access.deps → d < s.graph.nodes.size := fun d hd =>
      of_decide_eq_true (List.all_eq_true.mp hall d hd)
    obtain ⟨system, sources, hadd, hadded⟩ := System.exists_added hs.system (hs.holds i b hi)
      hs.shards hs.within work profile hdeps
    rw [hadd]
    exact .add hi hdeps hadded
  · exact .keep _

/-- What an action does at a sound site. -/
theorem does_act (hs : s.Sound) (a : Action κ ε) : Does s a (s.act a) := by
  cases a with
  | newBuilder => exact .newBuilder
  | add i work access profile =>
    cases hi : s.builderAt i with
    | none => simpa [act, hi] using Does.keep (Action.add i work access profile)
    | some b => simpa [act, hi] using does_add hs hi work access profile
  | execute i =>
    cases hi : s.builderAt i with
    | none => simpa [act, hi] using Does.keep (Action.execute i)
    | some b => simpa [act, hi] using Does.execute hi
  | drop i =>
    cases hi : s.builderAt i with
    | none => simpa [act, hi] using Does.keep (Action.drop i)
    | some b => simpa [act, hi] using Does.drop hi
  | reset => exact .reset
  | take | begin | conclude | settle | poll => exact does_of_worker rfl

/-- Replacing a builder shows at its number. -/
theorem builderAt_setIfInBounds_self {i : Nat} {b : Builder} (hi : s.builderAt i = some b)
    (x : Option Builder) : (s.builders.setIfInBounds i x)[i]?.join = x := by
  have hlt : i < s.builders.size := by
    by_contra hge
    unfold builderAt at hi
    rw [Array.getElem?_eq_none (by omega)] at hi
    cases hi
  rw [Array.getElem?_setIfInBounds_self_of_lt hlt, Option.join_some]

/-- Replacing a builder shows nowhere else. -/
theorem builderAt_setIfInBounds_of_ne (s : Site κ ε) {i j : Nat} (x : Option Builder)
    (h : j ≠ i) : (s.builders.setIfInBounds i x)[j]?.join = s.builderAt j := by
  rw [Array.getElem?_setIfInBounds_ne (Ne.symm h)]
  rfl

/-- A new builder takes the next number. -/
theorem builderAt_push_self (s : Site κ ε) (b : Builder) :
    (s.builders.push (some b))[s.builders.size]?.join = some b := by
  rw [Array.getElem?_push_size]
  rfl

/-- A new builder leaves the others as they are. -/
theorem builderAt_push_of_ne (s : Site κ ε) (b : Builder) {j : Nat} (h : j ≠ s.builders.size) :
    (s.builders.push (some b))[j]?.join = s.builderAt j := by
  rw [Array.getElem?_push, if_neg h]
  rfl

/-- A site is sound when its system is and one builder at most was replaced, by one with a batch
that no other builder holds. -/
theorem Sound.of_replaced (hs : s.Sound) (i : Nat) (hsystem : s'.system.Sound)
    (hshards : s'.system.tracker.shards.size = s.system.tracker.shards.size)
    (hwithin : s'.system.tracker.Within s'.graph.nodes.size)
    (hdeclared : s'.declared.size = s'.graph.nodes.size)
    (hother : ∀ j : Nat, j ≠ i → s'.builderAt j = s.builderAt j)
    (hholds : ∀ (j : Nat) (c : Builder), j ≠ i → s.builderAt j = some c → c.Holds s'.graph)
    (hself : ∀ b : Builder, s'.builderAt i = some b → b.Holds s'.graph ∧
      ∀ (j : Nat) (c : Builder), j ≠ i → s.builderAt j = some c → c.batch ≠ b.batch) :
    s'.Sound where
  system := hsystem
  shards := by
    rw [hshards]
    exact hs.shards
  within := hwithin
  declared := hdeclared
  holds j c hj := by
    by_cases hji : j = i
    · subst hji
      exact (hself c hj).1
    · exact hholds j c hji (by rwa [hother j hji] at hj)
  apart j k c d hj hk hne := by
    by_cases hji : j = i
    · subst hji
      exact Ne.symm ((hself c hj).2 k d (Ne.symm hne) (by rwa [hother k (Ne.symm hne)] at hk))
    · rw [hother j hji] at hj
      by_cases hki : k = i
      · subst hki
        exact (hself d hk).2 j c hji hj
      · rw [hother k hki] at hk
        exact hs.apart j k c d hj hk hne

/-- A site at which the system ran on is sound. -/
theorem Sound.of_ran (hs : s.Sound) {system : System κ ε} (h : s.system.Ran system) :
    ({ s with system } : Site κ ε).Sound where
  system := h.sound
  shards := by
    rw [h.tracker]
    exact hs.shards
  within := by
    change system.tracker.Within system.graph.nodes.size
    rw [h.tracker, h.steady.size]
    exact hs.within
  declared := hs.declared.trans h.steady.size.symm
  holds i b hi := (hs.holds i b hi).steady h.steady
  apart := hs.apart

/-- A site is sound after a builder's batch was submitted. -/
theorem Sound.of_submits (hs : s.Sound) {i : Nat} {b : Builder} (hi : s.builderAt i = some b)
    (h : s.system.Submits b.batch s'.system) (hdeclared : s'.declared = s.declared)
    (hother : ∀ j : Nat, j ≠ i → s'.builderAt j = s.builderAt j)
    (hself : ∀ c : Builder, s'.builderAt i = some c → c.Holds s'.graph ∧
      ∀ (j : Nat) (d : Builder), j ≠ i → s.builderAt j = some d → d.batch ≠ c.batch) :
    s'.Sound := by
  refine hs.of_replaced i h.sound (by rw [h.tracker]) ?_ ?_ hother
    (fun j c hj hc => h.holds (hs.holds j c hc) (hs.apart j i c b hc hi hj)) hself
  · change s'.system.tracker.Within s'.system.graph.nodes.size
    rw [h.tracker, h.size]
    exact hs.within
  · rw [hdeclared, hs.declared]
    exact h.size.symm

/-- Every action keeps a site sound. -/
theorem Sound.does (hs : s.Sound) {a : Action κ ε} (h : Does s a s') : s'.Sound := by
  cases h with
  | keep => exact hs
  | newBuilder =>
    have hnew : s.system.Submits s.graph.batches.size s.system.newBuilder.1 :=
      .newBuilder hs.system
    refine hs.of_replaced s.builders.size hnew.sound rfl hs.within hs.declared
      (fun j hj => builderAt_push_of_ne s _ hj)
      (fun j c _ hj => (hs.holds j c hj).startBatch) fun b hb => ?_
    obtain rfl : s.system.newBuilder.2 = b :=
      Option.some.inj ((builderAt_push_self s _).symm.trans hb)
    exact ⟨System.holds_newBuilder hs.system,
      fun j c _ hj => Nat.ne_of_lt (hs.holds j c hj).batch_lt⟩
  | @add i b work access profile sources system hi hdeps hadded =>
    have hb := hs.holds i b hi
    refine hs.of_replaced i hadded.sound hadded.resolved.size ?_ ?_
      (fun j hj => builderAt_setIfInBounds_of_ne s _ hj)
      (fun j c hj hc => hadded.holds_other (hs.holds j c hc) (hs.apart j i c b hc hi hj))
      fun c hc => ?_
    · have hwithin := hadded.resolved.within
      rw [← hadded.resolved.wired.size] at hwithin
      exact hwithin
    · change (s.declared.push access).size = system.graph.nodes.size
      rw [Array.size_push, hs.declared, hadded.size]
      rfl
    · obtain rfl := Option.some.inj ((builderAt_setIfInBounds_self hi _).symm.trans hc)
      exact ⟨hadded.holds_self hb, fun j d hj hd => hs.apart j i d b hd hi hj⟩
  | @execute i b hi =>
    obtain ⟨hsubmits, hfresh, hholds⟩ := System.submits_execute hs.system (hs.holds i b hi)
    refine hs.of_submits hi hsubmits rfl (fun j hj => builderAt_setIfInBounds_of_ne s _ hj)
      fun c hc => ?_
    obtain rfl := Option.some.inj ((builderAt_setIfInBounds_self hi _).symm.trans hc)
    rw [hfresh]
    exact ⟨hholds, fun j d _ hd => Nat.ne_of_lt (hs.holds j d hd).batch_lt⟩
  | @drop i b hi =>
    have hsubmits := System.submits_dropBuilder hs.system (hs.holds i b hi)
    refine hs.of_submits hi hsubmits rfl (fun j hj => builderAt_setIfInBounds_of_ne s _ hj)
      fun c hc => ?_
    exact absurd ((builderAt_setIfInBounds_self hi none).symm.trans hc) nofun
  | reset =>
    refine { hs with shards := ?_, within := Tracker.within_reset _ _ }
    change 0 < (s.system.tracker.shards.map fun _ => ({} : Shard)).size
    rw [Array.size_map]
    exact hs.shards
  | go hgoes => exact hs.of_ran (.of_goes hs.system hgoes)

/-- A sound site stays sound through a run. -/
theorem Sound.run (hs : s.Sound) (actions : List (Action κ ε)) : (s.run actions).Sound := by
  induction actions generalizing s with
  | nil => exact hs
  | cons a rest ih => exact ih (hs.does (does_act hs a))

/-- A system with nothing to do has no load. -/
theorem load_start (tracker : Tracker) (workers grain cap : Nat) :
    (System.start tracker workers grain cap : System κ ε).load = fun _ => 0 := by
  funext n
  simp [System.load, System.start, Worker.load]

/-- A site at which nothing has happened yet is sound. -/
theorem sound_start {tracker : Tracker} {count : Nat} (h : Tracker.create count = .ok tracker)
    (workers grain cap : Nat) : (start tracker workers grain cap : Site κ ε).Sound where
  system := by
    have hempty := Graph.Sound.empty (κ := κ)
    rw [← load_start (ε := ε) tracker workers grain cap] at hempty
    exact hempty
  shards := Tracker.size_shards_pos_of_create h
  within := Tracker.within_create h
  declared := rfl
  holds i b hi := by simp [builderAt, start] at hi
  apart i j b c hi := by simp [builderAt, start] at hi

/-- An action adds to the graph or runs it on. -/
theorem Does.grows {a : Action κ ε} (h : Does s a s') (hs : s.Sound) : s.graph.Grows s'.graph := by
  cases h with
  | keep => exact .refl _
  | newBuilder => exact .startBatch s.graph
  | add _ _ hadded => exact hadded.grows
  | @execute i b hi => exact (System.submits_execute hs.system (hs.holds i b hi)).1.grows
  | @drop i b hi => exact (System.submits_dropBuilder hs.system (hs.holds i b hi)).grows
  | reset => exact .refl _
  | go hgoes => exact (hgoes.steps.coherent_steady hs.system.coherent).2.grows

end HazardFlow.Site
