import HazardFlow.Proofs.Tracker.Pruning
import Mathlib.Algebra.BigOperators.Ring.Finset
import Mathlib.Data.Finset.Card

/-!
# How many edges accesses make

A node that is wired by its accesses meets itself in every shard that several of its addresses fall
into: as a reader, and as the last writer. What comes of that is counted here, shard by shard. Every
read adds an edge from the last writer; of the writes, only the first one meets other nodes.
-/

namespace HazardFlow

namespace Access

/-- A list from which duplicates were erased has none. -/
theorem nodup_eraseDups (l : List Address) : l.eraseDups.Nodup := by
  induction hn : l.length using Nat.strongRecOn generalizing l with
  | ind n ih =>
    cases l with
    | nil => simp
    | cons a rest =>
      have hle := List.length_filter_le (fun b => !b == a) rest
      rw [List.length_cons] at hn
      rw [List.eraseDups_cons, List.nodup_cons, List.mem_eraseDups]
      exact ⟨by simp, ih _ (by omega) _ rfl⟩

/-- The number of distinct addresses of a shard that are read and not written. -/
def readsIn (x : Access) (t : Tracker) (k : Nat) : Nat :=
  ((x.reads.toFinset \ x.writes.toFinset).filter fun a => t.shardOf a = k).card

/-- Some address of a shard is written. -/
def WritesIn (x : Access) (t : Tracker) (k : Nat) : Prop := ∃ a ∈ x.writes, t.shardOf a = k

instance (x : Access) (t : Tracker) (k : Nat) : Decidable (x.WritesIn t k) :=
  inferInstanceAs (Decidable (∃ a ∈ x.writes, t.shardOf a = k))

/-- The addresses tracked as read are those that are read and not written, each once. -/
theorem countP_onlyRead (x : Access) (t : Tracker) (k : Nat) :
    x.onlyRead.countP (t.shardOf · = k) = x.readsIn t k := by
  have hnodup : (x.onlyRead.filter (t.shardOf · = k)).Nodup :=
    ((nodup_eraseDups x.reads).filter _).filter _
  rw [List.countP_eq_length_filter, ← List.toFinset_card_of_nodup hnodup]
  unfold readsIn onlyRead
  congr 1
  ext a
  simp [and_assoc, and_comm]

end Access

namespace Tracker

variable {κ : Type} {t : Tracker} {g g' : Graph κ} {n i k : Nat} {write : Bool}

/-- The edges that a node gets from another one through a shard. -/
def edgesIn (t : Tracker) (x : Access) (i : NodeId) (k : Nat) : Nat :=
  (if (t.shards.getD k {}).lastWriter = some i then
    x.readsIn t k + if x.WritesIn t k then 1 else 0
  else 0) + if x.WritesIn t k then (t.shards.getD k {}).readers.count i else 0

/-- The edges that a node gets from another one through all shards, and as an explicit
predecessor. -/
def edgesFrom (t : Tracker) (x : Access) (i : NodeId) : Nat :=
  ∑ k ∈ Finset.range t.shards.size, t.edgesIn x i k + x.deps.count i

/-- The readers of a shard after a node has read it a number of times. -/
def readBy (t : Tracker) (g : Graph κ) (n : NodeId) : Nat → List NodeId → List NodeId
  | 0, readers => readers
  | times + 1, readers => readBy t g n times (addReader (t.prune g readers) n)

/-- The list holds the same readers, or those of them that are not complete. -/
def PrunedTo (g : Graph κ) (readers kept : List NodeId) : Prop :=
  kept = readers ∨ kept = readers.filter fun i => !g.isComplete i

/-- Pruning goes no further than to drop the complete readers. -/
theorem PrunedTo.prune {readers kept : List NodeId} (h : PrunedTo g readers kept) (t : Tracker) :
    PrunedTo g readers (t.prune g kept) := by
  unfold Tracker.prune
  split
  · right
    rcases h with rfl | rfl
    · rfl
    · rw [List.filter_filter]
      simp only [Bool.and_self]
  · exact h

/-- The newest reader is not dropped while it is not complete. -/
theorem exists_prune_concat {readers kept : List NodeId} (h : PrunedTo g readers kept)
    (hopen : g.isComplete n = false) (t : Tracker) :
    ∃ kept', PrunedTo g readers kept' ∧ t.prune g (kept ++ [n]) = kept' ++ [n] := by
  have hfilter : (kept ++ [n]).filter (fun i => !g.isComplete i) =
      (kept.filter fun i => !g.isComplete i) ++ [n] := by simp [hopen]
  unfold Tracker.prune
  split
  · refine ⟨_, ?_, hfilter⟩
    right
    rcases h with rfl | rfl
    · rfl
    · rw [List.filter_filter]
      simp only [Bool.and_self]
  · exact ⟨kept, h, rfl⟩

/-- A node that reads a shard comes last among the readers, and is added once only. -/
theorem exists_readBy (t : Tracker) {readers : List NodeId} (hnew : n ∉ readers)
    (hopen : g.isComplete n = false) (times : Nat) :
    ∃ kept, PrunedTo g readers kept ∧ t.readBy g n (times + 1) readers = kept ++ [n] := by
  have hmore (times : Nat) (kept : List NodeId) (hkept : PrunedTo g readers kept) :
      ∃ kept', PrunedTo g readers kept' ∧ t.readBy g n times (kept ++ [n]) = kept' ++ [n] := by
    induction times generalizing kept with
    | zero => exact ⟨kept, hkept, rfl⟩
    | succ times ih =>
      obtain ⟨kept', hkept', hprune⟩ := exists_prune_concat hkept hopen t
      unfold readBy
      rw [hprune, addReader_of_newest]
      exact ih kept' hkept'
  have hfirst : PrunedTo g readers (t.prune g readers) := PrunedTo.prune (Or.inl rfl) t
  unfold readBy
  rw [addReader_of_absent fun hn => hnew (prune_subset t g readers hn)]
  exact hmore times _ hfirst

/-- Reads of a node make no difference to how often other nodes are listed, unless these are
complete. -/
theorem count_readBy (t : Tracker) (hi : i ≠ n) (hopen : g.isComplete i = false) (times : Nat)
    (readers : List NodeId) : (t.readBy g n times readers).count i = readers.count i := by
  induction times generalizing readers with
  | zero => rfl
  | succ times ih =>
    have hadd (l : List NodeId) : (addReader l n).count i = l.count i := by
      unfold addReader
      split
      · rfl
      · rw [List.count_append, List.count_singleton, if_neg (by simpa using Ne.symm hi),
          Nat.add_zero]
    have hprune : (t.prune g readers).count i = readers.count i := by
      unfold Tracker.prune
      split
      · exact List.count_filter (by simp [hopen])
      · rfl
    rw [readBy, ih, hadd, hprune]

/-- The tracker after accesses of a node in turn. -/
def recordAll (t : Tracker) (g : Graph κ) (n : NodeId) (write : Bool)
    (addresses : List Address) : Tracker :=
  addresses.foldl (fun t a => t.record g n a write) t

/-- What accesses of a node in turn have to wait for. -/
def conflictsAll (t : Tracker) (g : Graph κ) (n : NodeId) (write : Bool) :
    List Address → List NodeId
  | [] => []
  | a :: rest => t.conflicts a write ++ conflictsAll (t.record g n a write) g n write rest

@[simp] theorem size_shards_recordAll (t : Tracker) (g : Graph κ) (n : NodeId) (write : Bool)
    (addresses : List Address) :
    (t.recordAll g n write addresses).shards.size = t.shards.size := by
  induction addresses generalizing t with
  | nil => rfl
  | cons a rest ih => exact (ih _).trans (size_shards_record t g n a write)

theorem Within.recordAll {bound : Nat} (ht : t.Within bound) (hn : n < bound) (g : Graph κ)
    (write : Bool) (addresses : List Address) :
    (t.recordAll g n write addresses).Within bound := by
  induction addresses generalizing t with
  | nil => exact ht
  | cons a rest ih => exact ih (ht.record hn g a write)

/-- Resolving accesses of a node not yet submitted. The graph `base` tells which nodes are
complete, as wiring completes none. -/
theorem resolveAll_spec {base : Graph κ} (hbase : ∀ j : Nat, g.isComplete j = base.isComplete j)
    (ht : t.Within g.nodes.size) (hn : n < g.nodes.size) (harmed : g.isArmed n = false)
    (write : Bool) (addresses : List Address) :
    ∃ g', t.resolveAll g n write addresses = .pure (t.recordAll base n write addresses, g') () ∧
      Graph.Wired g n (t.conflictsAll base n write addresses) g' := by
  induction addresses generalizing t g with
  | nil => exact ⟨g, rfl, .refl g n⟩
  | cons a rest ih =>
    obtain ⟨g₁, hresolve, hwired⟩ := resolve_spec ht hn harmed a write
    have hrecord : t.record g n a write = t.record base n a write := by
      unfold record
      rw [prune_congr t _ hbase]
    rw [hrecord] at hresolve
    obtain ⟨g₂, hrest, hwired'⟩ := ih (t := t.record base n a write) (g := g₁)
      (fun j => (hwired.isComplete j).trans (hbase j))
      (by rw [hwired.size]; exact ht.record hn base a write)
      (by rw [hwired.size]; exact hn) (by rw [hwired.isArmed]; exact harmed)
    refine ⟨g₂, ?_, hwired.trans hwired'⟩
    unfold resolveAll
    rw [hresolve, Outcome.bind_pure]
    exact hrest

/-- An access changes its own shard only. -/
theorem getD_record (t : Tracker) (g : Graph κ) (n : NodeId) (a : Address) (write : Bool)
    (hk : k < t.shards.size) : (t.record g n a write).shards.getD k {} =
      if t.shardOf a = k then
        if write then { lastWriter := some n }
        else { t.shards.getD k {} with
          readers := addReader (t.prune g (t.shards.getD k {}).readers) n }
      else t.shards.getD k {} := by
  unfold record
  rw [getD_setShard]
  by_cases h : t.shardOf a = k
  · rw [if_pos ⟨h, hk⟩, if_pos h]
    unfold shardAt
    rw [h]
  · rw [if_neg fun hyes => h hyes.1, if_neg h]

/-- Reads change the readers of their shards. -/
theorem getD_recordAll_read (t : Tracker) (g : Graph κ) (n : NodeId) (addresses : List Address)
    (hk : k < t.shards.size) : (t.recordAll g n false addresses).shards.getD k {} =
      { t.shards.getD k {} with
        readers := t.readBy g n (addresses.countP (t.shardOf · = k))
          (t.shards.getD k {}).readers } := by
  induction addresses generalizing t with
  | nil => rfl
  | cons a rest ih =>
    have hsize := size_shards_record t g n a false
    have hrest := ih (t.record g n a false) (by rwa [hsize])
    have hread (times : Nat) (readers : List NodeId) :
        (t.record g n a false).readBy g n times readers = t.readBy g n times readers := by
      induction times generalizing readers with
      | zero => rfl
      | succ times ih => exact ih _
    rw [getD_record t g n a false hk] at hrest
    simp only [shardOf_congr hsize, hread] at hrest
    rw [recordAll, List.foldl_cons, ← recordAll, hrest, List.countP_cons]
    by_cases h : t.shardOf a = k
    · simp [h, readBy]
    · simp [h]

/-- Writes leave nothing but themselves behind in their shards. -/
theorem getD_recordAll_write (t : Tracker) (g : Graph κ) (n : NodeId) (addresses : List Address)
    (hk : k < t.shards.size) : (t.recordAll g n true addresses).shards.getD k {} =
      if ∃ a ∈ addresses, t.shardOf a = k then { lastWriter := some n }
      else t.shards.getD k {} := by
  induction addresses generalizing t with
  | nil => simp [recordAll]
  | cons a rest ih =>
    have hsize := size_shards_record t g n a true
    have hrest := ih (t.record g n a true) (by rwa [hsize])
    rw [getD_record t g n a true hk] at hrest
    simp only [shardOf_congr hsize] at hrest
    rw [recordAll, List.foldl_cons, ← recordAll, hrest]
    by_cases h : t.shardOf a = k
    · simp [h]
    · simp [h]

/-- A sum over addresses is one over shards, each as often as addresses fall into it. -/
theorem sum_map_shardOf (ht : 0 < t.shards.size) (φ : Nat → Nat) (addresses : List Address) :
    (addresses.map fun a => φ (t.shardOf a)).sum =
      ∑ k ∈ Finset.range t.shards.size, addresses.countP (t.shardOf · = k) * φ k := by
  induction addresses with
  | nil => simp
  | cons a rest ih =>
    have hmem : t.shardOf a ∈ Finset.range t.shards.size :=
      Finset.mem_range.mpr (shardOf_lt ht a)
    simp only [List.map_cons, List.sum_cons, ih, List.countP_cons, Nat.add_mul,
      Finset.sum_add_distrib, decide_eq_true_eq, ite_mul, one_mul, zero_mul]
    rw [Finset.sum_ite_eq, if_pos hmem, Nat.add_comm]

/-- Every read waits for the last writer of its shard. -/
theorem count_conflictsAll_read (ht : 0 < t.shards.size) (g : Graph κ) (n i : NodeId)
    (addresses : List Address) : (t.conflictsAll g n false addresses).count i =
      ∑ k ∈ Finset.range t.shards.size, addresses.countP (t.shardOf · = k) *
        (t.shards.getD k {}).lastWriter.toList.count i := by
  rw [← sum_map_shardOf ht fun k => (t.shards.getD k {}).lastWriter.toList.count i]
  induction addresses generalizing t with
  | nil => rfl
  | cons a rest ih =>
    have hsize := size_shards_record t g n a false
    have hwriter (k : Nat) (hk : k < t.shards.size) :
        ((t.record g n a false).shards.getD k {}).lastWriter =
          (t.shards.getD k {}).lastWriter := by
      rw [getD_record t g n a false hk]
      split <;> rfl
    have hsame : (rest.map fun x => ((t.record g n a false).shards.getD
        ((t.record g n a false).shardOf x) {}).lastWriter.toList.count i) =
        rest.map fun x => (t.shards.getD (t.shardOf x) {}).lastWriter.toList.count i := by
      refine List.map_congr_left fun x _ => ?_
      rw [shardOf_congr hsize, hwriter _ (shardOf_lt ht x)]
    rw [conflictsAll, List.count_append, ih (by rwa [hsize]), hsame, List.map_cons, List.sum_cons]
    simp [conflicts, shardAt]

/-- The first write in a shard waits for the last writer and all readers, and the others for the
node itself. -/
theorem count_conflictsAll_write (ht : 0 < t.shards.size) (g : Graph κ) (hi : i ≠ n)
    (addresses : List Address) : (t.conflictsAll g n true addresses).count i =
      ∑ k ∈ Finset.range t.shards.size, if ∃ a ∈ addresses, t.shardOf a = k then
        (t.shards.getD k {}).lastWriter.toList.count i + (t.shards.getD k {}).readers.count i
      else 0 := by
  induction addresses generalizing t with
  | nil => simp [conflictsAll]
  | cons a rest ih =>
    set φ : Nat → Nat := fun k => (t.shards.getD k {}).lastWriter.toList.count i +
      (t.shards.getD k {}).readers.count i with hφ
    have hsize := size_shards_record t g n a true
    have hfirst : (t.conflicts a true).count i =
        ∑ k ∈ Finset.range t.shards.size, if t.shardOf a = k then φ k else 0 := by
      rw [Finset.sum_ite_eq, if_pos (Finset.mem_range.mpr (shardOf_lt ht a))]
      simp [conflicts, shardAt, hφ]
    rw [conflictsAll, List.count_append, ih (by rwa [hsize]), hfirst, hsize,
      ← Finset.sum_add_distrib]
    refine Finset.sum_congr rfl fun k hk => ?_
    rw [getD_record t g n a true (Finset.mem_range.mp hk)]
    simp only [shardOf_congr hsize, if_true, List.exists_mem_cons_iff]
    -- The node itself is all that later writes in the same shard meet.
    by_cases h : t.shardOf a = k
    · simp [h, Ne.symm hi, hφ]
    · simp [h]

end Tracker

end HazardFlow
