import HazardFlow.Proofs.Graph.Accounting
import HazardFlow.Proofs.Tracker.History

/-!
# Readers dropped early

A tracker that drops complete readers and one that keeps them all remember different lists, and the
lists stay different: the check that a reader is not added twice looks at the newest entry, which
may have been dropped. What they have in common is enough. The short list is part of the long one,
and both have the same incomplete readers in the same order; an edge from a complete reader leaves
no trace. This holds as long as the accesses of one node are resolved one after the other.
-/

namespace HazardFlow

namespace Graph

variable {κ : Type}

/-- Wiring an edge completes nothing. -/
theorem isComplete_link (g : Graph κ) (source target i : Nat) :
    (g.link source target).state.isComplete i = g.isComplete i := by
  unfold link
  split
  · rfl
  · set raised := g.updateNode target fun m => { m with inDegree := m.inDegree + 1 } with hraised
    have hkept : raised.isComplete i = g.isComplete i := field_updateNode Node.isComplete i
    dsimp only
    split
    · next successors hpush =>
      refine Eq.trans ?_ hkept
      by_cases hi : source = i
      · subst hi
        by_cases hlt : source < raised.nodes.size
        · cases hs : (raised.node source).successors with
          | growing l =>
            rw [hs, SealableList.push_growing] at hpush
            cases hpush
            simp [Graph.isComplete, Node.isComplete, hs, node_updateNode_self _ hlt]
          | closed =>
            rw [hs, SealableList.push_closed] at hpush
            cases hpush
        · simp only [Outcome.state_pure, Graph.isComplete]
          rw [node_of_size_le (g := raised) (by omega), node_of_size_le (by simpa using hlt)]
      · simp only [Outcome.state_pure, Graph.isComplete]
        rw [node_updateNode_of_ne _ hi]
    · split
      · exact hkept
      · exact (field_updateNode Node.isComplete i).trans hkept

/-- Wiring an edge arms nothing. -/
theorem isArmed_link (g : Graph κ) (source target m : Nat) :
    (g.link source target).state.isArmed m = g.isArmed m := by
  have hbatch : (g.link source target).state.batches = g.batches ∧
      ((g.link source target).state.node m).batch = (g.node m).batch := by
    unfold link
    split
    · exact ⟨rfl, rfl⟩
    · have hkept := field_updateNode (g := g) (n := target)
        (f := fun x => { x with inDegree := x.inDegree + 1 }) Node.batch m
      dsimp only
      split
      · exact ⟨rfl, (field_updateNode Node.batch m).trans hkept⟩
      · split
        · exact ⟨rfl, hkept⟩
        · exact ⟨rfl, (field_updateNode Node.batch m).trans hkept⟩
  simp only [isArmed, batch, hbatch.1, hbatch.2]

/-- Wiring edges from several sources completes nothing. -/
theorem isComplete_linkAll (g : Graph κ) (sources : List NodeId) (target i : Nat) :
    (g.linkAll sources target).state.isComplete i = g.isComplete i := by
  induction sources generalizing g with
  | nil => rfl
  | cons source rest ih =>
    have hlink := isComplete_link g source target i
    unfold linkAll Outcome.bind
    split
    · exact (ih _).trans hlink
    · exact hlink

/-- Wiring edges from several sources arms nothing. -/
theorem isArmed_linkAll (g : Graph κ) (sources : List NodeId) (target m : Nat) :
    (g.linkAll sources target).state.isArmed m = g.isArmed m := by
  induction sources generalizing g with
  | nil => rfl
  | cons source rest ih =>
    have hlink := isArmed_link g source target m
    unfold linkAll Outcome.bind
    split
    · exact (ih _).trans hlink
    · exact hlink

/-- The sources that are not complete decide what is wired onto a node not yet submitted. -/
theorem linkAll_filter {g : Graph κ} {target : NodeId} (harmed : g.isArmed target = false)
    (sources : List NodeId) :
    g.linkAll (sources.filter fun i => !g.isComplete i) target = g.linkAll sources target := by
  induction sources generalizing g with
  | nil => rfl
  | cons source rest ih =>
    cases hc : g.isComplete source with
    | true =>
      rw [List.filter_cons_of_neg (by simp [hc]), ih harmed]
      conv_rhs => unfold linkAll
      rw [link_of_isComplete hc harmed, Outcome.bind_pure]
      generalize g.linkAll rest target = wired
      cases wired with
      | mk state result => cases result <;> rfl
    | false =>
      rw [List.filter_cons_of_pos (by simp [hc])]
      unfold linkAll Outcome.bind
      have hrest := ih (g := (g.link source target).state) (by rwa [isArmed_link])
      simp only [isComplete_link] at hrest
      simp only [hrest]

end Graph

/-- What remains of a shard whose complete readers have been dropped now and then. -/
structure Shard.Prunes {κ : Type} (g : Graph κ) (s full : Shard) : Prop where
  lastWriter : s.lastWriter = full.lastWriter
  sublist : s.readers.Sublist full.readers
  /-- Only complete readers are missing. -/
  kept : (s.readers.filter fun i => !g.isComplete i) = full.readers.filter fun i => !g.isComplete i

namespace Tracker

/-- A node that is not among the older readers is the newest one, or none. -/
theorem newest_or_absent {readers : List NodeId} {n : NodeId} (h : n ∉ readers.dropLast) :
    (∃ older, readers = older ++ [n] ∧ n ∉ older) ∨ n ∉ readers := by
  rcases List.eq_nil_or_concat readers with rfl | ⟨older, newest, rfl⟩
  · exact Or.inr List.not_mem_nil
  · rw [List.concat_eq_append] at h ⊢
    rw [List.dropLast_concat] at h
    by_cases hn : n = newest
    · exact Or.inl ⟨older, by rw [hn], h⟩
    · right
      simp [h, hn]

/-- Of a list with a newest reader a part has the same one, or lies in the rest. -/
theorem newest_or_sublist {older part : List NodeId} {n : NodeId}
    (h : part.Sublist (older ++ [n])) :
    part.getLast? = some n ∨ part.Sublist older := by
  obtain ⟨front, back, rfl, hfront, hback⟩ := List.sublist_append_iff.mp h
  rcases List.sublist_singleton.mp hback with rfl | rfl
  · rw [List.append_nil]
    exact Or.inr hfront
  · exact Or.inl List.getLast?_concat

theorem addReader_of_newest (older : List NodeId) (n : NodeId) :
    addReader (older ++ [n]) n = older ++ [n] :=
  if_pos List.getLast?_concat

theorem addReader_of_absent {readers : List NodeId} {n : NodeId} (h : n ∉ readers) :
    addReader readers n = readers ++ [n] :=
  if_neg fun hlast => h (List.mem_of_getLast? hlast)

end Tracker

open Tracker (addReader newest_or_absent newest_or_sublist addReader_of_newest addReader_of_absent)

namespace Shard.Prunes

variable {κ : Type} {g g' : Graph κ} {s full : Shard}

theorem refl (g : Graph κ) (s : Shard) : Prunes g s s :=
  ⟨rfl, .refl _, rfl⟩

/-- Nodes that complete stop counting in both lists. -/
theorem later (h : Prunes g s full)
    (hcomplete : ∀ i : Nat, g.isComplete i = true → g'.isComplete i = true) :
    Prunes g' s full := by
  have hboth (i : NodeId) : (!g'.isComplete i && !g.isComplete i) = !g'.isComplete i := by
    cases hi : g.isComplete i with
    | false => simp
    | true => simp [hcomplete i hi]
  refine ⟨h.lastWriter, h.sublist, ?_⟩
  have hkept := congrArg (List.filter fun i => !g'.isComplete i) h.kept
  simpa only [List.filter_filter, hboth] using hkept

/-- Complete readers are dropped once more. -/
theorem prune (h : Prunes g s full) (t : Tracker) :
    Prunes g { s with readers := t.prune g s.readers } full := by
  unfold Tracker.prune
  split
  · refine ⟨h.lastWriter, List.filter_sublist.trans h.sublist, ?_⟩
    rw [List.filter_filter]
    simpa only [Bool.and_self] using h.kept
  · exact h

/-- A reader that only the shortened list has lost is complete. -/
theorem isComplete_of_lost (h : Prunes g s full) {n : NodeId} (hn : n ∈ full.readers)
    (hlost : n ∉ s.readers) : g.isComplete n = true := by
  by_contra hopen
  have hmem : n ∈ full.readers.filter fun i => !g.isComplete i :=
    List.mem_filter.mpr ⟨hn, by simpa using hopen⟩
  rw [← h.kept] at hmem
  exact hlost (List.mem_filter.mp hmem).1

/-- A reader is added that is not among the older ones. It may be the newest one in the long list
and missing in the short one; then it is complete, and adding it to the short one alone changes
nothing that counts. -/
theorem addReader (h : Prunes g s full) {n : NodeId} (hn : n ∉ full.readers.dropLast) :
    Prunes g { s with readers := addReader s.readers n }
      { full with readers := addReader full.readers n } := by
  rcases newest_or_absent hn with ⟨older, hfull, holder⟩ | habsent
  · rw [hfull, addReader_of_newest, ← hfull]
    rcases newest_or_sublist (hfull ▸ h.sublist) with hnewest | hsub
    · rw [Tracker.addReader, if_pos hnewest]
      exact h
    · have hlost : n ∉ s.readers := fun hmem => holder (hsub.subset hmem)
      have hcomplete := h.isComplete_of_lost (by simp [hfull]) hlost
      rw [addReader_of_absent hlost]
      refine ⟨h.lastWriter, ?_, ?_⟩
      · rw [hfull]
        exact hsub.append_right [n]
      · rw [List.filter_append, h.kept]
        simp [hcomplete]
  · have hlost : n ∉ s.readers := fun hmem => habsent (h.sublist.subset hmem)
    rw [addReader_of_absent habsent, addReader_of_absent hlost]
    refine ⟨h.lastWriter, h.sublist.append_right [n], ?_⟩
    rw [List.filter_append, h.kept, List.filter_append]

/-- Wiring a node not yet submitted to the readers of either list comes to the same. -/
theorem linkAll (h : Prunes g s full) {n : NodeId} (harmed : g.isArmed n = false) :
    g.linkAll s.readers n = g.linkAll full.readers n := by
  rw [← Graph.linkAll_filter harmed s.readers, h.kept, Graph.linkAll_filter harmed]

end Shard.Prunes

namespace Tracker

variable {κ : Type}

/-- Whether the entries of each node stand next to each other in a list. -/
def inBlocks : List NodeId → Bool
  | [] => true
  | n :: rest => !(rest.dropWhile (· == n)).contains n && inBlocks rest

theorem inBlocks_of_append {l rest : List NodeId} (h : inBlocks (l ++ rest) = true) :
    inBlocks rest = true := by
  induction l with
  | nil => exact h
  | cons n l ih =>
    rw [List.cons_append, inBlocks, Bool.and_eq_true] at h
    exact ih h.2

/-- Readers that have no accesses left to be resolved. The newest one may have some, when they come
next. -/
structure Settled (rest readers : List NodeId) : Prop where
  older : ∀ i ∈ readers.dropLast, i ∉ rest
  newest : ∀ i ∈ readers, i ∉ rest.dropWhile (· == i)

namespace Settled

variable {readers rest : List NodeId} {n : NodeId}

theorem nil (rest : List NodeId) : Settled rest [] :=
  ⟨fun _ hi => absurd hi List.not_mem_nil, fun _ hi => absurd hi List.not_mem_nil⟩

/-- The next access is resolved in another shard, or adds no reader. -/
theorem tail (h : Settled (n :: rest) readers) : Settled rest readers where
  older i hi hrest := h.older i hi (List.mem_cons_of_mem n hrest)
  newest i hi := by
    have hnewest := h.newest i hi
    by_cases hne : n = i
    · rwa [List.dropWhile_cons_of_pos (by simpa using hne)] at hnewest
    · rw [List.dropWhile_cons_of_neg (by simpa using hne)] at hnewest
      exact fun hmem => hnewest (List.mem_cons_of_mem n ((List.dropWhile_sublist _).subset hmem))

/-- Only the node whose access comes next has accesses left. -/
theorem eq_of_mem (h : Settled (n :: rest) readers) {i : NodeId} (hi : i ∈ readers)
    (hrest : i ∈ rest) : i = n := by
  by_contra hne
  have hnewest := h.newest i hi
  rw [List.dropWhile_cons_of_neg (by simpa using Ne.symm hne)] at hnewest
  exact hnewest (List.mem_cons_of_mem n hrest)

/-- The node whose access comes next is no older reader. -/
theorem not_mem_older (h : Settled (n :: rest) readers) : n ∉ readers.dropLast :=
  fun hn => h.older n hn List.mem_cons_self

/-- The next access makes its node a reader. -/
theorem addReader (h : Settled (n :: rest) readers) (hblocks : inBlocks (n :: rest) = true) :
    Settled rest (addReader readers n) := by
  rcases newest_or_absent h.not_mem_older with ⟨older, hreaders, _⟩ | habsent
  · rw [hreaders, addReader_of_newest, ← hreaders]
    exact h.tail
  · rw [addReader_of_absent habsent]
    refine ⟨fun i hi hrest => ?_, fun i hi => ?_⟩
    · rw [List.dropLast_concat] at hi
      exact habsent (h.eq_of_mem hi hrest ▸ hi)
    · rcases List.mem_append.mp hi with hi | hi
      · exact h.tail.newest i hi
      · rw [List.mem_singleton.mp hi]
        rw [inBlocks, Bool.and_eq_true] at hblocks
        simpa using hblocks.1

end Settled

/-- Nothing is remembered after a reset. -/
theorem getD_reset (t : Tracker) (k : Nat) : t.reset.shards.getD k {} = {} := by
  simp only [reset, Array.getD_eq_getD_getElem?, Array.getElem?_map]
  cases t.shards[k]? <;> rfl

@[simp] theorem readersOf_reset (t : Tracker) (a : Address) : t.reset.readersOf a = 0 := by
  unfold readersOf shardAt
  rw [getD_reset]
  rfl

/-- Without a limit no reader is dropped. -/
theorem prune_of_unlimited {t : Tracker} (h : t.readerLimit = none) (g : Graph κ)
    (readers : List NodeId) : t.prune g readers = readers := by
  simp [prune, h]

/-- Resolving an access keeps the limit. -/
theorem readerLimit_resolve (t : Tracker) (g : Graph κ) (n : NodeId) (a : Address) (write : Bool) :
    (t.resolve g n a write).state.1.readerLimit = t.readerLimit := by
  unfold resolve Outcome.bind
  dsimp only
  split
  · split
    · split <;> rfl
    · rfl
  · rfl

/-- No reader of a tracker has accesses left, but for the newest ones. -/
def Awaits (t : Tracker) (rest : List NodeId) : Prop :=
  ∀ k : Nat, Settled rest (t.shards.getD k {}).readers

/-- What remains of a tracker that drops complete readers now and then. -/
structure Prunes (g : Graph κ) (t full : Tracker) : Prop where
  size : t.shards.size = full.shards.size
  shard : ∀ k : Nat, (t.shards.getD k {}).Prunes g (full.shards.getD k {})

namespace Prunes

variable {t full : Tracker} {g g' : Graph κ}

/-- Nothing has been dropped while the shards are the same. -/
theorem withLimit (t : Tracker) (limit : Option Nat) (g : Graph κ) :
    Prunes g t { t with readerLimit := limit } where
  size := rfl
  shard k := .refl g (t.shards.getD k {})

theorem later (h : Prunes g t full)
    (hcomplete : ∀ i : Nat, g.isComplete i = true → g'.isComplete i = true) : Prunes g' t full where
  size := h.size
  shard k := (h.shard k).later hcomplete

theorem shardOf (h : Prunes g t full) (a : Address) : t.shardOf a = full.shardOf a :=
  shardOf_congr h.size a

theorem shardAt (h : Prunes g t full) (a : Address) : (t.shardAt a).Prunes g (full.shardAt a) := by
  unfold Tracker.shardAt
  rw [h.shardOf]
  exact h.shard _

/-- Both forget everything. -/
theorem reset (h : Prunes g t full) : Prunes g t.reset full.reset where
  size := by
    unfold Tracker.reset
    rw [Array.size_map, Array.size_map, h.size]
  shard k := by
    rw [getD_reset, getD_reset]
    exact .refl g _

/-- Both replace the shard of an address. -/
theorem setShard (h : Prunes g t full) (a : Address) {s s' : Shard} (hs : s.Prunes g s') :
    Prunes g (t.setShard a s) (full.setShard a s') where
  size := by
    rw [size_shards_setShard, size_shards_setShard, h.size]
  shard k := by
    rw [getD_setShard, getD_setShard, h.shardOf, h.size]
    split
    · exact hs
    · exact h.shard k

/-- An access of a node not yet submitted is resolved alike by both trackers: the same edges are
wired, and what the trackers remember goes on to differ in complete readers alone. -/
theorem resolve (h : Prunes g t full) (hlimit : full.readerLimit = none) {n : Nat}
    {rest : List NodeId} (hawaits : full.Awaits (n :: rest)) (harmed : g.isArmed n = false)
    (a : Address) (write : Bool) :
    ∃ t' full' g' result, t.resolve g n a write = ⟨(t', g'), result⟩ ∧
      full.resolve g n a write = ⟨(full', g'), result⟩ ∧ Prunes g' t' full' := by
  unfold Tracker.resolve
  dsimp only
  rw [(h.shardAt a).lastWriter]
  have hcomplete := Graph.isComplete_linkAll g (full.shardAt a).lastWriter.toList n
  have harmed₁ := Graph.isArmed_linkAll g (full.shardAt a).lastWriter.toList n n
  cases hlink : g.linkAll (full.shardAt a).lastWriter.toList n with
  | mk g₁ result =>
  rw [hlink] at hcomplete harmed₁
  have h₁ : Prunes g₁ t full := h.later fun i hi => (hcomplete i).trans hi
  have hshard := h₁.shardAt a
  cases result with
  | error fault => exact ⟨t, full, g₁, .error fault, rfl, rfl, h₁⟩
  | ok wired =>
    cases write with
    | false =>
      refine ⟨_, _, g₁, .ok wired, rfl, rfl, h₁.setShard a ?_⟩
      have hadded := (hshard.prune t).addReader ((hawaits (full.shardOf a)).not_mem_older)
      rw [← prune_of_unlimited hlimit g₁ (full.shardAt a).readers] at hadded
      exact ⟨rfl, hadded.sublist, hadded.kept⟩
    | true =>
      have hreaders := hshard.linkAll (harmed₁.trans harmed)
      have hlater := Graph.isComplete_linkAll g₁ (full.shardAt a).readers n
      simp only [Outcome.lift, Outcome.bind, if_true, hreaders]
      cases hmore : g₁.linkAll (full.shardAt a).readers n with
      | mk g₂ result =>
      rw [hmore] at hlater
      have h₂ : Prunes g₂ t full := h₁.later fun i hi => (hlater i).trans hi
      cases result with
      | error fault =>
        exact ⟨_, _, g₂, .error fault, rfl, rfl, h₂.setShard a ⟨rfl, .refl _, rfl⟩⟩
      | ok more => exact ⟨_, _, g₂, .ok (wired + more), rfl, rfl, h₂.setShard a (.refl g₂ _)⟩

end Prunes

namespace Awaits

variable {t : Tracker} {n : Nat} {rest : List NodeId}

/-- The next access is over. -/
theorem tail (h : t.Awaits (n :: rest)) : t.Awaits rest :=
  fun k => (h k).tail

theorem reset (t : Tracker) (rest : List NodeId) : t.reset.Awaits rest := fun k => by
  rw [getD_reset]
  exact .nil rest

/-- The readers of one shard are replaced. -/
theorem setShard (h : t.Awaits rest) (a : Address) {s : Shard} (hs : Settled rest s.readers) :
    (t.setShard a s).Awaits rest := fun k => by
  rw [getD_setShard]
  split
  · exact hs
  · exact h k

/-- After an access the readers that have accesses left are the newest ones again. -/
theorem resolve (h : t.Awaits (n :: rest)) (hlimit : t.readerLimit = none)
    (hblocks : inBlocks (n :: rest) = true) (g : Graph κ) (a : Address) (write : Bool) :
    (t.resolve g n a write).state.1.Awaits rest := by
  unfold Tracker.resolve Outcome.bind
  dsimp only
  split
  · split
    · split
      · exact h.tail.setShard a (.nil rest)
      · exact h.tail.setShard a (.nil rest)
    · simp only [Outcome.state_pure, Outcome.state_lift, prune_of_unlimited hlimit]
      exact h.tail.setShard a ((h (t.shardOf a)).addReader hblocks)
  · exact h.tail

end Awaits

end Tracker

end HazardFlow
