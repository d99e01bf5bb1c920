import HazardFlow.Proofs.Graph.Precedence
import HazardFlow.Schedule.Submission

/-!
# What a tracker remembers

A tracker forgets most accesses: a write leaves nothing but itself behind in its shard, and complete
readers are dropped. What it forgets is still ordered, because a forgotten access is complete or
reaches the last writer along a chain of edges. So every access is ordered after all the earlier
ones that it conflicts with, however many others lie between them.
-/

namespace HazardFlow

/-- One access of a node to an address. -/
structure Use where
  node : NodeId
  address : Address
  write : Bool
  deriving DecidableEq, Repr

/-- The accesses of a node in the order in which they are resolved. -/
def Access.uses (access : Access) (n : NodeId) : List Use :=
  access.onlyRead.map (⟨n, ·, false⟩) ++ access.written.map (⟨n, ·, true⟩)

namespace Tracker

variable {κ : Type}

/-- The nodes that an access has to wait for. -/
def conflicts (t : Tracker) (a : Address) (write : Bool) : List NodeId :=
  (t.shardAt a).lastWriter.toList ++ if write then (t.shardAt a).readers else []

/-- The tracker after an access. -/
def record (t : Tracker) (g : Graph κ) (n : NodeId) (a : Address) (write : Bool) : Tracker :=
  t.setShard a (if write then { lastWriter := some n }
    else { t.shardAt a with readers := addReader (t.prune g (t.shardAt a).readers) n })

/-- All nodes in the shards are numbered below a bound. -/
def Within (t : Tracker) (bound : Nat) : Prop :=
  ∀ k i : Nat,
    i ∈ (t.shards.getD k {}).lastWriter.toList ++ (t.shards.getD k {}).readers → i < bound

@[simp] theorem size_shards_setShard (t : Tracker) (a : Address) (s : Shard) :
    (t.setShard a s).shards.size = t.shards.size := by
  simp [setShard]

@[simp] theorem size_shards_record (t : Tracker) (g : Graph κ) (n : NodeId) (a : Address)
    (write : Bool) : (t.record g n a write).shards.size = t.shards.size :=
  size_shards_setShard ..

/-- Where an address falls depends on the number of shards only. -/
theorem shardOf_congr {t t' : Tracker} (h : t'.shards.size = t.shards.size) (a : Address) :
    t'.shardOf a = t.shardOf a := by
  simp only [shardOf, h]

/-- Addresses that fall into one shard share what is remembered. -/
theorem shardAt_congr {t : Tracker} {a x : Address} (h : t.shardOf x = t.shardOf a) :
    t.shardAt x = t.shardAt a := by
  unfold shardAt
  rw [h]

/-- Replacing the shard of an address shows at all addresses of that shard. -/
theorem shardAt_setShard_of_eq {t : Tracker} (ht : 0 < t.shards.size) {a x : Address} (s : Shard)
    (h : t.shardOf x = t.shardOf a) : (t.setShard a s).shardAt x = s := by
  have hlt : t.shardOf a < t.shards.size := shardOf_lt ht a
  unfold shardAt
  rw [shardOf_congr (size_shards_setShard t a s), h]
  simp [setShard, Array.getD_eq_getD_getElem?, hlt]

/-- Replacing the shard of an address shows nowhere else. -/
theorem shardAt_setShard_of_ne {t : Tracker} {a x : Address} (s : Shard)
    (h : t.shardOf x ≠ t.shardOf a) : (t.setShard a s).shardAt x = t.shardAt x := by
  unfold shardAt
  rw [shardOf_congr (size_shards_setShard t a s)]
  simp [setShard, Array.getD_eq_getD_getElem?, Ne.symm h]

/-- Complete nodes are all that pruning drops. -/
theorem mem_prune {t : Tracker} {g : Graph κ} {readers : List NodeId} {i : NodeId}
    (h : i ∈ readers) : g.isComplete i = true ∨ i ∈ t.prune g readers := by
  unfold prune
  split
  · rw [List.mem_filter]
    cases g.isComplete i
    · exact Or.inr ⟨h, rfl⟩
    · exact Or.inl rfl
  · exact Or.inr h

/-- Pruning adds nothing. -/
theorem prune_subset (t : Tracker) (g : Graph κ) (readers : List NodeId) :
    t.prune g readers ⊆ readers := by
  unfold prune
  split
  · exact List.filter_sublist.subset
  · exact List.Subset.refl _

/-- What pruning drops depends on which nodes are complete. -/
theorem prune_congr {g g' : Graph κ} (t : Tracker) (readers : List NodeId)
    (h : ∀ i : Nat, g'.isComplete i = g.isComplete i) : t.prune g' readers = t.prune g readers := by
  simp only [prune, h]

/-- A reader added is the reader looked for, or one that was there. -/
theorem mem_addReader {readers : List NodeId} {n i : NodeId} :
    i ∈ addReader readers n ↔ i ∈ readers ∨ i = n := by
  unfold addReader
  split
  · next hlast =>
    have hmem := List.mem_of_getLast? hlast
    constructor
    · exact Or.inl
    · rintro (h | rfl)
      · exact h
      · exact hmem
  · simp

/-- What an access has to wait for after another one was recorded is what it had to wait for
before, or the node of the access recorded. -/
theorem mem_conflicts_record {t : Tracker} {g : Graph κ} {n i : Nat} {a x : Address}
    {write w : Bool} (ht : 0 < t.shards.size) (h : i ∈ (t.record g n a write).conflicts x w) :
    i ∈ t.conflicts x w ∨ i = n ∧ t.shardOf a = t.shardOf x ∧ (write = true ∨ w = true) := by
  by_cases hshard : t.shardOf x = t.shardOf a
  · have hsame : t.shardAt x = t.shardAt a := shardAt_congr hshard
    unfold conflicts record at h
    rw [shardAt_setShard_of_eq ht _ hshard] at h
    unfold conflicts
    rw [hsame]
    cases write with
    | true =>
      have hi : i = n := by cases w <;> simpa using h
      exact Or.inr ⟨hi, hshard.symm, Or.inl rfl⟩
    | false =>
      rcases List.mem_append.mp h with hwriter | hreader
      · exact Or.inl (List.mem_append_left _ hwriter)
      · cases w with
        | false => exact absurd hreader List.not_mem_nil
        | true =>
          rcases mem_addReader.mp hreader with hkept | rfl
          · exact Or.inl (List.mem_append_right _ (prune_subset t g _ hkept))
          · exact Or.inr ⟨rfl, hshard.symm, Or.inr rfl⟩
  · left
    unfold conflicts record at h
    rw [shardAt_setShard_of_ne _ hshard] at h
    exact h

/-- An access none of whose edges is refused is resolved: the node is wired to what the access has to
wait for, and the access is recorded. -/
theorem resolve_of_not_refuses {t : Tracker} {g : Graph κ} {n : Nat} (ht : t.Within g.nodes.size)
    (hn : n < g.nodes.size) {a : Address} {write : Bool}
    (hrefuses : ∀ i ∈ t.conflicts a write, g.refuses i n = false) :
    ∃ g', t.resolve g n a write =
        .pure (t.record g n a write, g') ((t.conflicts a write).countP (g.records · n)) ∧
      Graph.Wired g n (t.conflicts a write) g' := by
  have hwriter : ∀ i : Nat, i ∈ (t.shardAt a).lastWriter.toList → i < g.nodes.size := fun i hi =>
    ht (t.shardOf a) i (List.mem_append_left _ hi)
  have hreaders : ∀ i : Nat, i ∈ (t.shardAt a).readers → i < g.nodes.size := fun i hi =>
    ht (t.shardOf a) i (List.mem_append_right _ hi)
  obtain ⟨g₁, hlink, hwired⟩ := Graph.linkAll_of_not_refuses hwriter hn fun i hi =>
    hrefuses i (List.mem_append_left _ hi)
  unfold resolve
  dsimp only
  rw [hlink, Outcome.lift_pure, Outcome.bind_pure]
  cases write with
  | false =>
    refine ⟨g₁, ?_, by simpa [conflicts] using hwired⟩
    simp [record, conflicts, prune_congr t (t.shardAt a).readers hwired.isComplete]
  | true =>
    obtain ⟨g₂, hlink', hwired'⟩ := Graph.linkAll_of_not_refuses (g := g₁) (n := n)
      (fun i hi => by rw [hwired.size]; exact hreaders i hi) (by rw [hwired.size]; exact hn)
      (fun i hi => by rw [hwired.refuses]; exact hrefuses i (List.mem_append_right _ hi))
    have hrec : (t.shardAt a).readers.countP (g₁.records · n) =
        (t.shardAt a).readers.countP (g.records · n) := by simp only [hwired.records]
    refine ⟨g₂, ?_, by simpa [conflicts] using hwired.trans hwired'⟩
    simp [hlink', record, conflicts, hrec, Outcome.pure]

/-- So is every access of a node not yet submitted. -/
theorem resolve_spec {t : Tracker} {g : Graph κ} {n : Nat} (ht : t.Within g.nodes.size)
    (hn : n < g.nodes.size) (harmed : g.isArmed n = false) (a : Address) (write : Bool) :
    ∃ g', t.resolve g n a write =
        .pure (t.record g n a write, g') ((t.conflicts a write).countP (g.records · n)) ∧
      Graph.Wired g n (t.conflicts a write) g' :=
  resolve_of_not_refuses ht hn fun i _ => Graph.refuses_of_not_armed harmed i

/-- Only the shard of its address is replaced. -/
theorem getD_setShard (t : Tracker) (a : Address) (s : Shard) (k : Nat) :
    (t.setShard a s).shards.getD k {} =
      if t.shardOf a = k ∧ k < t.shards.size then s else t.shards.getD k {} := by
  simp only [setShard, Array.getD_eq_getD_getElem?, Array.getElem?_setIfInBounds]
  by_cases hk : t.shardOf a = k
  · subst hk
    by_cases hlt : t.shardOf a < t.shards.size
    · simp [hlt]
    · simp [hlt]
  · simp [hk]

/-- A shard that keeps within a bound may replace another one. -/
theorem Within.setShard {t : Tracker} {bound : Nat} (ht : t.Within bound) (a : Address) {s : Shard}
    (hs : ∀ i ∈ s.lastWriter.toList ++ s.readers, i < bound) : (t.setShard a s).Within bound := by
  intro k i hi
  rw [getD_setShard] at hi
  split at hi
  · exact hs i hi
  · exact ht k i hi

/-- Recording an access of an existing node keeps the shards within the same bound. -/
theorem Within.record {t : Tracker} {bound n : Nat} (ht : t.Within bound) (hn : n < bound)
    (g : Graph κ) (a : Address) (write : Bool) : (t.record g n a write).Within bound := by
  refine ht.setShard a fun i hi => ?_
  cases write with
  | true =>
    simp only [if_true, Option.toList_some, List.append_nil, List.mem_singleton] at hi
    rwa [hi]
  | false =>
    simp only [Bool.false_eq_true, if_false, List.mem_append, mem_addReader] at hi
    rcases hi with hwriter | hreader | rfl
    · exact ht (t.shardOf a) i (List.mem_append_left _ hwriter)
    · exact ht (t.shardOf a) i (List.mem_append_right _ (prune_subset t g _ hreader))
    · exact hn

/-- A tracker that was created has a shard. -/
theorem size_shards_pos_of_create {t : Tracker} {count : Nat} (h : create count = .ok t) :
    0 < t.shards.size := by
  rw [size_shards_of_create h]
  unfold create at h
  split at h
  · cases h
  · next hpower =>
    rw [Bool.not_eq_false, isPowerOfTwo_iff] at hpower
    obtain ⟨k, rfl⟩ := hpower
    rw [Nat.one_shiftLeft]
    exact Nat.two_pow_pos k

/-- A tracker that was created drops complete readers from lists of sixty-four. -/
theorem readerLimit_of_create {t : Tracker} {count : Nat} (h : create count = .ok t) :
    t.readerLimit = some 64 := by
  unfold create at h
  split at h
  · cases h
  · split at h
    · cases h
    · cases h
      rfl

/-- A tracker that was created has empty shards. -/
theorem shard_of_create {t : Tracker} {count : Nat} (h : create count = .ok t) (k : Nat) :
    t.shards.getD k {} = {} := by
  unfold create at h
  split at h
  · cases h
  · split at h
    · cases h
    · cases h
      rw [Array.getD_eq_getD_getElem?, Array.getElem?_replicate]
      split <;> rfl

/-- A tracker that was created names no nodes. -/
theorem within_create {t : Tracker} {count : Nat} (h : create count = .ok t) : t.Within 0 := by
  intro k i hi
  rw [shard_of_create h] at hi
  exact absurd hi List.not_mem_nil

/-- A tracker that has forgotten everything names no nodes. -/
theorem within_reset (t : Tracker) (bound : Nat) : t.reset.Within bound := by
  intro k i hi
  unfold reset at hi
  rw [Array.getD_eq_getD_getElem?, Array.getElem?_map] at hi
  cases hk : t.shards[k]? <;> simp [hk] at hi

/-- New nodes do not matter. -/
theorem Within.mono {t : Tracker} {bound bound' : Nat} (h : t.Within bound)
    (hle : bound ≤ bound') : t.Within bound' :=
  fun k i hi => Nat.lt_of_lt_of_le (h k i hi) hle

/-- Two accesses conflict when they fall into one shard and one of them writes. -/
def Conflict (t : Tracker) (u v : Use) : Prop :=
  t.shardOf u.address = t.shardOf v.address ∧ (u.write = true ∨ v.write = true)

instance (t : Tracker) (u v : Use) : Decidable (t.Conflict u v) :=
  inferInstanceAs (Decidable (_ ∧ _))

/-- An access is remembered when its node reaches the last writer of its shard. A read is also
remembered when its node is among the readers, or complete. -/
def Remembers (t : Tracker) (g : Graph κ) (u : Use) : Prop :=
  (∃ w : Nat, (t.shardAt u.address).lastWriter = some w ∧ g.Reaches u.node w) ∨
    u.write = false ∧ (u.node ∈ (t.shardAt u.address).readers ∨ g.isComplete u.node = true)

/-- A log of accesses is tracked when all of them are remembered, and each one is ordered after
the earlier ones that it conflicts with. -/
structure Tracks (t : Tracker) (g : Graph κ) (log : List Use) : Prop where
  remembers : ∀ u ∈ log, t.Remembers g u
  ordered : log.Pairwise fun u v => t.Conflict u v → g.Reaches u.node v.node

/-- A tracker is logged when what any access has to wait for are earlier ones that it conflicts
with. -/
def Logged (t : Tracker) (log : List Use) : Prop :=
  ∀ v : Use, ∀ i ∈ t.conflicts v.address v.write, ∃ u ∈ log, u.node = i ∧ t.Conflict u v

/-- Where conflicts lie depends on the number of shards only. -/
theorem conflict_congr {t t' : Tracker} (h : t'.shards.size = t.shards.size) (u v : Use) :
    t'.Conflict u v ↔ t.Conflict u v := by
  unfold Conflict
  rw [shardOf_congr h, shardOf_congr h]

/-- A tracker that was created is logged. -/
theorem logged_create {t : Tracker} {count : Nat} (h : create count = .ok t) : t.Logged [] := by
  intro v i hi
  unfold conflicts shardAt at hi
  rw [shard_of_create h] at hi
  simp at hi

/-- A tracker stays logged when the access that it records is logged too. -/
theorem Logged.record {t : Tracker} {log : List Use} (h : t.Logged log) (ht : 0 < t.shards.size)
    (g : Graph κ) (n : Nat) (a : Address) (write : Bool) :
    (t.record g n a write).Logged (log ++ [⟨n, a, write⟩]) := by
  intro v i hi
  simp only [conflict_congr (size_shards_record t g n a write)]
  rcases mem_conflicts_record ht hi with hold | ⟨rfl, hshard, hwrite⟩
  · obtain ⟨u, hu, hnode, hconflict⟩ := h v i hold
    exact ⟨u, List.mem_append_left _ hu, hnode, hconflict⟩
  · exact ⟨⟨i, a, write⟩, List.mem_append_right _ (List.mem_singleton_self _), rfl, hshard, hwrite⟩

/-- What is remembered goes on to be so. -/
theorem Remembers.later {t : Tracker} {g g' : Graph κ} {u : Use} (h : t.Remembers g u)
    (hlater : g.Later g') : t.Remembers g' u := by
  rcases h with ⟨w, hw, hreach⟩ | ⟨hread, hreader | hdone⟩
  · exact Or.inl ⟨w, hw, hlater.reaches hreach⟩
  · exact Or.inr ⟨hread, Or.inl hreader⟩
  · exact Or.inr ⟨hread, Or.inr (hlater.isComplete _ hdone)⟩

/-- A tracked log stays tracked while the graph goes on. -/
theorem Tracks.later {t : Tracker} {g g' : Graph κ} {log : List Use} (h : t.Tracks g log)
    (hlater : g.Later g') : t.Tracks g' log where
  remembers u hu := (h.remembers u hu).later hlater
  ordered := h.ordered.imp fun hreach hc => hlater.reaches (hreach hc)

/-- A conflicting access that is remembered is ordered before the node that has been wired to
what its own access has to wait for. -/
theorem Remembers.reaches {t : Tracker} {g g' : Graph κ} {n : Nat} {a : Address} {write : Bool}
    {u : Use} (h : t.Remembers g u) (hw : Graph.Wired g n (t.conflicts a write) g')
    (hc : t.Conflict u ⟨n, a, write⟩) : g'.Reaches u.node n := by
  have hlater := Graph.Later.wired hw
  have hshard : t.shardAt u.address = t.shardAt a := shardAt_congr hc.1
  rcases h with ⟨w, hwriter, hreach⟩ | ⟨hread, hrest⟩
  · have hmem : w ∈ t.conflicts a write := by
      unfold conflicts
      rw [← hshard, hwriter]
      exact List.mem_append_left _ (List.mem_singleton_self w)
    exact (hlater.reaches hreach).trans (hw.reaches hmem)
  · have hwrite : write = true := by
      rcases hc.2 with hyes | hyes
      · rw [hread] at hyes
        cases hyes
      · exact hyes
    subst hwrite
    rcases hrest with hreader | hdone
    · apply hw.reaches
      unfold conflicts
      rw [← hshard]
      exact List.mem_append_right _ (by simpa using hreader)
    · exact Relation.ReflTransGen.single (Or.inl (hlater.isComplete _ hdone))

/-- An access that is remembered stays so when another one is recorded. -/
theorem Remembers.record {t : Tracker} {g g' : Graph κ} {n : Nat} {a : Address} {write : Bool}
    {u : Use} (ht : 0 < t.shards.size) (h : t.Remembers g u)
    (hw : Graph.Wired g n (t.conflicts a write) g') : (t.record g n a write).Remembers g' u := by
  have hlater := Graph.Later.wired hw
  by_cases hshard : t.shardOf u.address = t.shardOf a
  · have hafter := shardAt_setShard_of_eq ht (x := u.address)
      (if write then { lastWriter := some n }
        else { t.shardAt a with readers := addReader (t.prune g (t.shardAt a).readers) n }) hshard
    cases write with
    | true =>
      refine Or.inl ⟨n, ?_, h.reaches hw ⟨hshard, Or.inr rfl⟩⟩
      unfold Tracker.record
      rw [hafter]
      rfl
    | false =>
      have hsame : t.shardAt u.address = t.shardAt a := shardAt_congr hshard
      unfold Remembers Tracker.record
      rw [hafter]
      rcases h with ⟨w, hwriter, hreach⟩ | ⟨hread, hreader | hdone⟩
      · exact Or.inl ⟨w, by rw [← hwriter, hsame]; rfl, hlater.reaches hreach⟩
      · refine Or.inr ⟨hread, ?_⟩
        rw [hsame] at hreader
        rcases mem_prune (t := t) (g := g) hreader with hdone | hkept
        · exact Or.inr (hlater.isComplete _ hdone)
        · exact Or.inl (mem_addReader.mpr (Or.inl hkept))
      · exact Or.inr ⟨hread, Or.inr (hlater.isComplete _ hdone)⟩
  · unfold Remembers Tracker.record
    rw [shardAt_setShard_of_ne _ hshard]
    exact h.later hlater

/-- An access just recorded is remembered. -/
theorem remembers_record {t : Tracker} (ht : 0 < t.shards.size) (g g' : Graph κ) (n : Nat)
    (a : Address) (write : Bool) : (t.record g n a write).Remembers g' ⟨n, a, write⟩ := by
  have hafter := shardAt_setShard_of_eq ht (a := a) (x := a)
    (if write then { lastWriter := some n }
      else { t.shardAt a with readers := addReader (t.prune g (t.shardAt a).readers) n }) rfl
  unfold Remembers Tracker.record
  rw [hafter]
  cases write with
  | true => exact Or.inl ⟨n, rfl, Relation.ReflTransGen.refl⟩
  | false => exact Or.inr ⟨rfl, Or.inl (mem_addReader.mpr (Or.inr rfl))⟩

/-- Recording an access extends the tracked log by it. -/
theorem Tracks.record {t : Tracker} {g g' : Graph κ} {n : Nat} {a : Address} {write : Bool}
    {log : List Use} (ht : 0 < t.shards.size) (h : t.Tracks g log)
    (hw : Graph.Wired g n (t.conflicts a write) g') :
    (t.record g n a write).Tracks g' (log ++ [⟨n, a, write⟩]) where
  remembers u hu := by
    rcases List.mem_append.mp hu with hold | hnew
    · exact (h.remembers u hold).record ht hw
    · rw [List.mem_singleton.mp hnew]
      exact remembers_record ht g g' n a write
  ordered := by
    have hconflict {u v : Use} (hc : (t.record g n a write).Conflict u v) : t.Conflict u v :=
      (conflict_congr (size_shards_record t g n a write) u v).mp hc
    rw [List.pairwise_append]
    refine ⟨(h.later (.wired hw)).ordered.imp fun hreach hc => hreach (hconflict hc),
      List.pairwise_singleton .., fun u hu v hv hc => ?_⟩
    rw [List.mem_singleton.mp hv] at hc ⊢
    exact (h.remembers u hu).reaches hw (hconflict hc)

end Tracker

end HazardFlow
