import HazardFlow.Proofs.Schedule.Sites

/-!
# Hazards are ordered

Two nodes that conflict never run at once: the later one is dispatched only when the earlier one
is complete. The edges that see to this need not lead from one to the other. What is kept is that
the earlier node reaches the later one along a chain of edges, some of which may have been taken
already because their sources are complete.
-/

namespace HazardFlow

/-- Two declarations conflict when they name addresses of one shard, and one of these is written. -/
def Access.Conflicts (t : Tracker) (x y : Access) : Prop :=
  ∃ a ∈ x.reads ++ x.writes, ∃ b ∈ y.reads ++ y.writes,
    t.shardOf a = t.shardOf b ∧ (a ∈ x.writes ∨ b ∈ y.writes)

/-- Every address that a node declares is resolved, and as a write if it is written. -/
theorem Access.exists_use {x : Access} {a : Address} (n : NodeId) (h : a ∈ x.reads ++ x.writes) :
    ∃ u ∈ x.uses n, u.node = n ∧ u.address = a ∧ (u.write = true ↔ a ∈ x.writes) := by
  unfold uses onlyRead written
  by_cases hwritten : a ∈ x.writes
  · refine ⟨⟨n, a, true⟩, List.mem_append_right _ ?_, rfl, rfl, by simpa using hwritten⟩
    simpa using hwritten
  · have hread : a ∈ x.reads := by
      rcases List.mem_append.mp h with hr | hw
      · exact hr
      · exact absurd hw hwritten
    refine ⟨⟨n, a, false⟩, List.mem_append_left _ ?_, rfl, rfl, by simpa using hwritten⟩
    simpa using ⟨hread, hwritten⟩

namespace Site

variable {κ ε : Type} {s s' : Site κ ε}

/-- The accesses of all nodes, in the order in which they were resolved. -/
def log (s : Site κ ε) : List Use :=
  (List.range s.declared.size).flatMap fun n => (s.accessOf n).uses n

/-- A site is ordered when its tracker tracks all accesses, and nodes are reached from their
explicit predecessors. -/
structure Ordered (s : Site κ ε) : Prop where
  tracks : s.system.tracker.Tracks s.graph s.log
  deps : ∀ j d : Nat, d ∈ (s.accessOf j).deps → s.graph.Reaches d j

/-- A new declaration belongs to the new node and changes no other. -/
theorem accessOf_push {access : Access} (h : s'.declared = s.declared.push access) (n : Nat) :
    s'.accessOf n = if n = s.declared.size then access else s.accessOf n := by
  unfold accessOf
  rw [h, Array.getD_eq_getD_getElem?, Array.getD_eq_getD_getElem?, Array.getElem?_push]
  split <;> rfl

/-- The accesses of a new node come last. -/
theorem log_push {access : Access} (h : s'.declared = s.declared.push access) :
    s'.log = s.log ++ access.uses s.declared.size := by
  unfold log
  have hsize : s'.declared.size = s.declared.size + 1 := by rw [h, Array.size_push]
  rw [hsize, List.range_succ, List.flatMap_append, List.flatMap_singleton, accessOf_push h,
    if_pos rfl]
  congr 1
  refine List.flatMap_congr fun n hn => ?_
  have hlt := List.mem_range.mp hn
  rw [accessOf_push h, if_neg (Nat.ne_of_lt hlt)]

/-- What a node declared does not change. -/
theorem Does.accessOf_eq {a : Action κ ε} (h : Does s a s') {n : Nat} (hn : n < s.declared.size) :
    s'.accessOf n = s.accessOf n := by
  cases h with
  | add _ _ _ => rw [accessOf_push rfl, if_neg (Nat.ne_of_lt hn)]
  | _ => rfl

/-- A site stays ordered while the graph goes on with the same tracker and declarations. -/
theorem Ordered.later (h : s.Ordered) (htracker : s'.system.tracker = s.system.tracker)
    (hdeclared : s'.declared = s.declared) (hlater : s.graph.Later s'.graph) : s'.Ordered := by
  have haccess : ∀ n : Nat, s'.accessOf n = s.accessOf n := fun n => by
    unfold accessOf
    rw [hdeclared]
  have hlog : s'.log = s.log := by
    unfold log
    rw [hdeclared]
    simp only [haccess]
  refine ⟨?_, fun j d hd => ?_⟩
  · rw [htracker, hlog]
    exact h.tracks.later hlater
  · rw [haccess] at hd
    exact hlater.reaches (h.deps j d hd)

/-- An action that does not reset the tracker keeps a site ordered. -/
theorem Ordered.does (hs : s.Sound) (h : s.Ordered) {a : Action κ ε} (hdoes : Does s a s')
    (ha : a ≠ .reset) : s'.Ordered := by
  have hlater := (hdoes.grows hs).later
  cases hdoes with
  | keep => exact h
  | newBuilder => exact h.later rfl rfl hlater
  | @add i b work access profile sources system hi hdeps hadded =>
    have hadd : s.graph.Later ((s.graph.register b.batch).addNode work b.batch profile).1 :=
      (Graph.Grows.addNode s.graph work b.batch profile).later
    refine ⟨?_, fun j d hd => ?_⟩
    · rw [log_push rfl, hs.declared]
      exact hadded.resolved.tracks _ (h.tracks.later hadd)
    · rw [accessOf_push rfl] at hd
      split at hd
      · next hj =>
        rw [hj, hs.declared]
        exact hadded.resolved.wired.reaches (hadded.deps hd)
      · exact hlater.reaches (h.deps j d hd)
  | @execute i b hi =>
    exact h.later (System.submits_execute hs.system (hs.holds i b hi)).1.tracker rfl hlater
  | @drop i b hi =>
    exact h.later (System.submits_dropBuilder hs.system (hs.holds i b hi)).tracker rfl hlater
  | reset => exact absurd rfl ha
  | go hgoes => exact h.later hgoes.tracker rfl hlater

/-- A run without resets keeps a site ordered. -/
theorem Ordered.run (hs : s.Sound) (h : s.Ordered) {actions : List (Action κ ε)}
    (hreset : Action.reset ∉ actions) : (s.run actions).Ordered := by
  induction actions generalizing s with
  | nil => exact h
  | cons a rest ih =>
    rw [List.mem_cons, not_or] at hreset
    have hdoes := does_act hs a
    exact ih (hs.does hdoes) (h.does hs hdoes (Ne.symm hreset.1)) hreset.2

/-- A site at which nothing has happened yet is ordered. -/
theorem ordered_start (tracker : Tracker) (workers grain cap : Nat) :
    (start tracker workers grain cap : Site κ ε).Ordered where
  tracks := ⟨fun _ hu => absurd hu List.not_mem_nil, List.Pairwise.nil⟩
  deps _ _ hd := absurd hd List.not_mem_nil

/-- A node that was not added declares nothing. -/
theorem accessOf_of_size_le {n : Nat} (h : s.declared.size ≤ n) : s.accessOf n = {} := by
  unfold accessOf
  rw [Array.getD_eq_getD_getElem?, Array.getElem?_eq_none h, Option.getD_none]

/-- A node reaches the later ones that it conflicts with. -/
theorem Ordered.reaches (h : s.Ordered) {i j : Nat} (hij : i < j)
    (hconflicts : (s.accessOf i).Conflicts s.system.tracker (s.accessOf j)) :
    s.graph.Reaches i j := by
  obtain ⟨a, ha, b, hb, hshard, hwrite⟩ := hconflicts
  have hj : j < s.declared.size := by
    by_contra hge
    rw [accessOf_of_size_le (by omega)] at hb
    exact absurd hb List.not_mem_nil
  obtain ⟨u, hu, hunode, huaddress, huwrite⟩ := Access.exists_use i ha
  obtain ⟨v, hv, hvnode, hvaddress, hvwrite⟩ := Access.exists_use j hb
  have hpairs := (List.pairwise_flatMap.mp h.tracks.ordered).2
  have hpair := List.pairwise_iff_getElem.mp hpairs i j
    (by rw [List.length_range]; omega) (by rwa [List.length_range]) hij
  rw [List.getElem_range, List.getElem_range] at hpair
  have hreaches := hpair u hu v hv
    ⟨by rw [huaddress, hvaddress, hshard], hwrite.imp huwrite.mpr hvwrite.mpr⟩
  rwa [hunode, hvnode] at hreaches

/-- In every run without resets, a node is dispatched only after all the earlier nodes that it
names as predecessors or conflicts with are complete. -/
theorem isComplete_of_hazard {tracker : Tracker} {count workers grain cap : Nat}
    {actions : List (Action κ ε)} (htracker : Tracker.create count = .ok tracker)
    (hreset : Action.reset ∉ actions) (hrun : (start tracker workers grain cap).run actions = s)
    {i j : Nat} (hij : i < j)
    (hazard : i ∈ (s.accessOf j).deps ∨
      (s.accessOf i).Conflicts s.system.tracker (s.accessOf j))
    (hclaimed : (s.graph.node j).claimed = true) : s.graph.isComplete i = true := by
  have hstart : (start tracker workers grain cap : Site κ ε).Sound :=
    sound_start htracker workers grain cap
  have hsound := hstart.run actions
  have hordered := (ordered_start tracker workers grain cap).run hstart hreset
  rw [hrun] at hsound hordered
  have hreaches : s.graph.Reaches i j := by
    rcases hazard with hdep | hconflicts
    · exact hordered.deps j i hdep
    · exact hordered.reaches hij hconflicts
  exact hsound.system.coherent.isComplete_of_reaches hreaches (Nat.ne_of_lt hij) hclaimed

/-- Two nodes write addresses of one shard, and the first of them has run. -/
def twoWriters : Site Unit Unit :=
  (start { shards := #[{}] } 1 1 0).run
    [.newBuilder, .add 0 (.kernel ()) { writes := [0] } none,
      .add 0 (.kernel ()) { writes := [64] } none, .execute 0, .take 0 .inbox 0 false,
      .conclude 0 .finished]

/-- The second of two writers of a shard has been dispatched, and the first one is complete. -/
theorem isComplete_of_hazard_twoWriters :
    (twoWriters.graph.node 1).claimed = true ∧ twoWriters.graph.isComplete 0 = true := by
  have htracker : Tracker.create 1 = .ok { shards := #[{}] } := rfl
  have hclaimed : (twoWriters.graph.node 1).claimed = true := by decide
  have hconflicts : (twoWriters.accessOf 0).Conflicts twoWriters.system.tracker
      (twoWriters.accessOf 1) := ⟨0, by decide, 64, by decide, by decide, by decide⟩
  exact ⟨hclaimed, isComplete_of_hazard htracker (by simp) rfl Nat.zero_lt_one
    (Or.inr hconflicts) hclaimed⟩

end Site

end HazardFlow
