import HazardFlow.Proofs.Graph.Passing
import HazardFlow.Proofs.Tracker.Counting

/-!
# Wiring is exact

What wiring a node leaves behind is a function of the sets of addresses that it reads and writes and
of how often it names each explicit predecessor. The order in which addresses are given, and giving
them more than once, make no difference.
-/

namespace HazardFlow

variable {κ : Type}

namespace SealableList

/-- A list that is closed, or not, has the entries that it has. -/
theorem eq_of_entries {α : Type} {l l' : SealableList α} (hclosed : l.isClosed = l'.isClosed)
    (hentries : l.entries = l'.entries) : l = l' := by
  cases l <;> cases l' <;> simp_all [isClosed, entries]

end SealableList

namespace Graph.Wired

variable {g g' g'' : Graph κ} {n : Nat} {sources sources' : List NodeId}

/-- The edges recorded are those of each source. -/
theorem countP_eq (h : Wired g n sources g') : sources.countP (g.records · n) =
    ∑ i ∈ Finset.range g.nodes.size, if g.records i n then sources.count i else 0 := by
  have hcount := h.edgeCount n
  have htotal : g'.edgeCount n = ∑ i ∈ Finset.range g.nodes.size,
      ((if g.records i n then sources.count i else 0) + (g.entries i).count n) := by
    unfold Graph.edgeCount total
    rw [h.size]
    refine Finset.sum_congr rfl fun i _ => ?_
    have hlist : (g'.entries i).count n =
        (if g.records i n then sources.count i else 0) + (g.entries i).count n := by
      rw [h.entries, List.count_append, List.count_replicate_self]
    exact hlist
  rw [Finset.sum_add_distrib] at htotal
  have hold : ∑ i ∈ Finset.range g.nodes.size, (g.entries i).count n = g.edgeCount n := rfl
  rw [if_pos rfl] at hcount
  omega

/-- The sources of edges matter by their number only. -/
theorem unique (h : Wired g n sources g') (h' : Wired g n sources' g'')
    (hcount : ∀ i : Nat, g.records i n = true → sources.count i = sources'.count i) : g' = g'' := by
  have hentries (i : Nat) : g'.entries i = g''.entries i := by
    rw [h.entries, h'.entries]
    split
    · next hyes => rw [hcount i hyes]
    · rfl
  have hdegree : sources.countP (g.records · n) = sources'.countP (g.records · n) := by
    rw [h.countP_eq, h'.countP_eq]
    refine Finset.sum_congr rfl fun i _ => ?_
    split
    · next hyes => rw [hcount i hyes]
    · rfl
  refine eq_of_node (h.batches.trans h'.batches.symm) (h.size.trans h'.size.symm) fun m => ?_
  have hlists : (g'.node m).successors = (g''.node m).successors :=
    SealableList.eq_of_entries ((h.isComplete m).trans (h'.isComplete m).symm) (hentries m)
  have hm : (g'.node m).inDegree = (g''.node m).inDegree := by
    rw [h.inDegree, h'.inDegree, hdegree]
  rw [h.node m, h'.node m, hlists, hm]

end Graph.Wired

/-- Accesses that name the same addresses, and each explicit predecessor equally often. -/
structure Access.Alike (x y : Access) : Prop where
  reads : ∀ a, a ∈ x.reads ↔ a ∈ y.reads
  writes : ∀ a, a ∈ x.writes ↔ a ∈ y.writes
  deps : x.deps.Perm y.deps

namespace Access.Alike

variable {x y : Access}

theorem writesIn (h : x.Alike y) (t : Tracker) (k : Nat) : x.WritesIn t k ↔ y.WritesIn t k := by
  simp only [WritesIn, h.writes]

theorem readsIn (h : x.Alike y) (t : Tracker) (k : Nat) : x.readsIn t k = y.readsIn t k := by
  have hreads : x.reads.toFinset = y.reads.toFinset := by
    ext a
    simp only [List.mem_toFinset, h.reads]
  have hwrites : x.writes.toFinset = y.writes.toFinset := by
    ext a
    simp only [List.mem_toFinset, h.writes]
  unfold Access.readsIn
  rw [hreads, hwrites]

theorem edgesFrom (h : x.Alike y) (t : Tracker) (i : NodeId) :
    t.edgesFrom x i = t.edgesFrom y i := by
  unfold Tracker.edgesFrom Tracker.edgesIn
  simp only [h.writesIn, h.readsIn, h.deps.count_eq]

end Access.Alike

namespace Tracker

variable {t : Tracker} {g : Graph κ} {n i k : Nat} {x y : Access}

/-- Trackers that remember the same of every shard are the same. -/
theorem eq_of_shards {t' : Tracker} (hlimit : t.readerLimit = t'.readerLimit)
    (hsize : t.shards.size = t'.shards.size)
    (hshard : ∀ k < t.shards.size, t.shards.getD k {} = t'.shards.getD k {}) : t = t' := by
  have hshards : t.shards = t'.shards := by
    refine Array.ext hsize fun k hk hk' => ?_
    have hget := hshard k hk
    simpa only [Array.getD_eq_getD_getElem?, Array.getElem?_eq_getElem hk,
      Array.getElem?_eq_getElem hk', Option.getD_some] using hget
  cases t
  cases t'
  simp_all

/-- The tracker after a node was wired by its accesses. -/
def wiredBy (t : Tracker) (g : Graph κ) (n : NodeId) (x : Access) : Tracker :=
  (t.recordAll g n false x.onlyRead).recordAll g n true x.written

@[simp] theorem size_shards_wiredBy (t : Tracker) (g : Graph κ) (n : NodeId) (x : Access) :
    (t.wiredBy g n x).shards.size = t.shards.size := by
  unfold wiredBy
  rw [size_shards_recordAll, size_shards_recordAll]

theorem readerLimit_wiredBy (t : Tracker) (g : Graph κ) (n : NodeId) (x : Access) :
    (t.wiredBy g n x).readerLimit = t.readerLimit := by
  have hall (t : Tracker) (write : Bool) (addresses : List Address) :
      (t.recordAll g n write addresses).readerLimit = t.readerLimit := by
    induction addresses generalizing t with
    | nil => rfl
    | cons a rest ih => exact ih _
  exact (hall _ true x.written).trans (hall t false x.onlyRead)

/-- Writes fall into the same shards after reads were resolved. -/
theorem exists_written_iff : (∃ a ∈ x.written, (t.recordAll g n false x.onlyRead).shardOf a = k) ↔
    x.WritesIn t k := by
  simp only [shardOf_congr (size_shards_recordAll t g n false x.onlyRead), Access.written,
    List.mem_eraseDups, Access.WritesIn]

/-- What the tracker remembers of a shard afterwards. -/
theorem getD_wiredBy (t : Tracker) (g : Graph κ) (n : NodeId) (x : Access)
    (hk : k < t.shards.size) : (t.wiredBy g n x).shards.getD k {} =
      if x.WritesIn t k then { lastWriter := some n }
      else { t.shards.getD k {} with
        readers := t.readBy g n (x.readsIn t k) (t.shards.getD k {}).readers } := by
  have hsize := size_shards_recordAll t g n false x.onlyRead
  unfold wiredBy
  rw [getD_recordAll_write _ g n x.written (by rwa [hsize]),
    getD_recordAll_read t g n x.onlyRead hk, x.countP_onlyRead]
  by_cases hwrites : x.WritesIn t k
  · rw [if_pos hwrites, if_pos (exists_written_iff.mpr hwrites)]
  · rw [if_neg hwrites, if_neg fun hyes => hwrites (exists_written_iff.mp hyes)]

/-- What a tracker remembers after a node was wired by its accesses. -/
structure RecordsExactly (t : Tracker) (g : Graph κ) (n : NodeId) (x : Access) (t' : Tracker) :
    Prop where
  size : t'.shards.size = t.shards.size
  /-- A shard that the node writes remembers nothing else. -/
  written : ∀ k < t.shards.size, x.WritesIn t k → t'.shards.getD k {} = { lastWriter := some n }
  /-- In a shard that it only reads, the node comes last among the readers, once. -/
  read : ∀ k < t.shards.size, ¬ x.WritesIn t k → 0 < x.readsIn t k →
    ∃ kept, PrunedTo g (t.shards.getD k {}).readers kept ∧ n ∉ kept ∧ t'.shards.getD k {} =
      { lastWriter := (t.shards.getD k {}).lastWriter, readers := kept ++ [n] }
  /-- Other shards stay as they are. -/
  untouched : ∀ k < t.shards.size, ¬ x.WritesIn t k → x.readsIn t k = 0 →
    t'.shards.getD k {} = t.shards.getD k {}

theorem PrunedTo.subset {readers kept : List NodeId} (h : PrunedTo g readers kept) :
    kept ⊆ readers := by
  rcases h with rfl | rfl
  · exact List.Subset.refl _
  · exact List.filter_sublist.subset

/-- A node that no shard names yet is recorded once. -/
theorem recordsExactly_wiredBy {base : Graph κ} (hnew : ∀ k : Nat, n ∉ (t.shards.getD k {}).readers)
    (hopen : base.isComplete n = false) (hcomplete : ∀ j, base.isComplete j = g.isComplete j) :
    t.RecordsExactly g n x (t.wiredBy base n x) where
  size := size_shards_wiredBy t base n x
  written k hk hwrites := by rw [getD_wiredBy t base n x hk, if_pos hwrites]
  read k hk hwrites hreads := by
    obtain ⟨kept, hkept, heq⟩ := t.exists_readBy (hnew k) hopen (x.readsIn t k - 1)
    rw [Nat.sub_add_cancel hreads] at heq
    refine ⟨kept, ?_, fun hmem => hnew k (hkept.subset hmem), ?_⟩
    · unfold PrunedTo at hkept ⊢
      simpa only [hcomplete] using hkept
    · rw [getD_wiredBy t base n x hk, if_neg hwrites, heq]
  untouched k hk hwrites hreads := by
    rw [getD_wiredBy t base n x hk, if_neg hwrites, hreads]
    rfl

/-- Wiring a node not yet submitted gives it the edges that its accesses and its explicit
predecessors make. -/
theorem wire_spec (hpos : 0 < t.shards.size) (ht : t.Within g.nodes.size) (hn : n < g.nodes.size)
    (harmed : g.isArmed n = false) (hdeps : ∀ d ∈ x.deps, d < g.nodes.size) :
    ∃ g' sources, t.wire g n x = .pure (t.wiredBy g n x, g') () ∧ Graph.Wired g n sources g' ∧
      ∀ i : Nat, i ≠ n → g.isComplete i = false → sources.count i = t.edgesFrom x i := by
  obtain ⟨g₁, hreads, hfirst⟩ := resolveAll_spec (fun _ => rfl) ht hn harmed false x.onlyRead
  have hsize := size_shards_recordAll t g n false x.onlyRead
  obtain ⟨g₂, hwrites, hsecond⟩ := resolveAll_spec (t := t.recordAll g n false x.onlyRead) (g := g₁)
    (n := n) hfirst.isComplete (by rw [hfirst.size]; exact ht.recordAll hn g false x.onlyRead)
    (by rw [hfirst.size]; exact hn) (by rw [hfirst.isArmed]; exact harmed) true x.written
  have hboth := hfirst.trans hsecond
  have hsources (d : Nat) (hd : d ∈ x.deps) : d < g₂.nodes.size := by
    rw [hboth.size]
    exact hdeps d hd
  obtain ⟨g₃, hlinks, hthird⟩ := Graph.linkAll_spec hsources (by rw [hboth.size]; exact hn)
    (by rw [hboth.isArmed]; exact harmed)
  refine ⟨g₃, _, ?_, hboth.trans hthird, fun i hi hopen => ?_⟩
  · unfold wire
    rw [hreads, Outcome.bind_pure]
    dsimp only
    rw [hwrites, Outcome.bind_pure]
    dsimp only
    rw [hlinks]
    rfl
  · have hcount (w : Option NodeId) : w.toList.count i = if w = some i then 1 else 0 := by
      cases w <;> simp [List.count_singleton]
    rw [List.count_append, List.count_append, count_conflictsAll_read hpos,
      count_conflictsAll_write (by rwa [hsize]) g hi, hsize, ← Finset.sum_add_distrib]
    unfold edgesFrom
    congr 1
    refine Finset.sum_congr rfl fun k hk => ?_
    rw [getD_recordAll_read t g n x.onlyRead (Finset.mem_range.mp hk), x.countP_onlyRead]
    dsimp only
    rw [count_readBy t hi hopen, hcount]
    unfold edgesIn
    by_cases hwrites : x.WritesIn t k
    · rw [if_pos (exists_written_iff.mpr hwrites), if_pos hwrites, if_pos hwrites]
      split <;> omega
    · rw [if_neg fun hyes => hwrites (exists_written_iff.mp hyes), if_neg hwrites, if_neg hwrites]
      split <;> omega

/-- Wiring does not depend on the order in which accesses are named, nor on repetitions. -/
theorem wire_alike (hpos : 0 < t.shards.size) (ht : t.Within g.nodes.size) (hn : n < g.nodes.size)
    (harmed : g.isArmed n = false) (hdeps : ∀ d ∈ x.deps, d < g.nodes.size) (h : x.Alike y) :
    t.wire g n x = t.wire g n y := by
  obtain ⟨g', sources, hwire, hwired, hcount⟩ := wire_spec hpos ht hn harmed hdeps
  obtain ⟨g'', sources', hwire', hwired', hcount'⟩ := wire_spec (x := y) hpos ht hn harmed
    fun d hd => hdeps d (h.deps.mem_iff.mpr hd)
  have hgraph : g' = g'' := hwired.unique hwired' fun i hi => by
    simp only [Graph.records, Bool.and_eq_true, bne_iff_ne, Bool.not_eq_true'] at hi
    rw [hcount i hi.1 hi.2, hcount' i hi.1 hi.2, h.edgesFrom]
  have htracker : t.wiredBy g n x = t.wiredBy g n y := by
    refine eq_of_shards ?_ ?_ fun k hk => ?_
    · rw [readerLimit_wiredBy, readerLimit_wiredBy]
    · rw [size_shards_wiredBy, size_shards_wiredBy]
    · rw [size_shards_wiredBy] at hk
      rw [getD_wiredBy t g n x hk, getD_wiredBy t g n y hk, h.readsIn]
      simp only [h.writesIn]
  rw [hwire, hwire', hgraph, htracker]

end Tracker

end HazardFlow
