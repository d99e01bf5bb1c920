import HazardFlow.Proofs.Tracker.Exactness
import HazardFlow.Proofs.Yard.Order

/-!
# Adding a node is exact

A node that is added waits for the last writers and, where it writes, for the readers of the shards
that it names, and for its explicit predecessors: for each of them as often as was said, and for no
other node. Nodes that only read a shard are never ordered by it.
-/

namespace HazardFlow

variable {κ ε : Type}

namespace System

/-- What adding a node leaves behind. No edge is missing and none is spurious. -/
structure AddsExactly (s : System κ ε) (b : Builder) (work : Work κ) (x : Access)
    (profile : Option Profile) (s' : System κ ε) : Prop where
  /-- Every node that is not complete lists the new one once for each edge. -/
  entries : ∀ i < s.graph.nodes.size, s'.graph.entries i =
    List.replicate (if s.graph.isComplete i then 0 else s.tracker.edgesFrom x i)
      s.graph.nodes.size ++ s.graph.entries i
  /-- Nothing else of these nodes changes. -/
  kept : ∀ i < s.graph.nodes.size, s'.graph.node i =
    { s.graph.node i with successors := (s'.graph.node i).successors }
  /-- The new node counts all its edges. -/
  node : s'.graph.node s.graph.nodes.size =
    { work := some work, batch := b.batch, profile
      inDegree := ((∑ i ∈ Finset.range s.graph.nodes.size,
        if s.graph.isComplete i then 0 else s.tracker.edgesFrom x i : Nat) : Int) }
  size : s'.graph.nodes.size = s.graph.nodes.size + 1
  batches : s'.graph.batches = (s.graph.register b.batch).batches
  tracker : s.tracker.RecordsExactly s.graph s.graph.nodes.size x s'.tracker
  /-- The rest of the system stays as it is. -/
  rest : s' = { s with tracker := s'.tracker, graph := s'.graph }

/-- The graph with a new node that is not wired yet. -/
def withNode (s : System κ ε) (b : Builder) (work : Work κ) (profile : Option Profile) : Graph κ :=
  ((s.graph.register b.batch).addNode work b.batch profile).1

section Adding

variable {s : System κ ε} {b : Builder} {work : Work κ} {x y : Access} {profile : Option Profile}

theorem isComplete_withNode (s : System κ ε) (b : Builder) (work : Work κ)
    (profile : Option Profile) (i : NodeId) :
    (s.withNode b work profile).isComplete i = s.graph.isComplete i := by
  unfold withNode Graph.isComplete Node.isComplete
  rw [Graph.successors_addNode]
  rfl

/-- Adding a node by accesses that name existing predecessors. -/
theorem exists_addsExactly (hpos : 0 < s.tracker.shards.size)
    (ht : s.tracker.Within s.graph.nodes.size) (hb : b.Holds s.graph)
    (hdeps : ∀ d ∈ x.deps, d < s.graph.nodes.size) :
    ∃ s', s.add b work x profile =
        .pure (s', { b with nodes := b.nodes ++ [s.graph.nodes.size] }) s.graph.nodes.size ∧
      s.AddsExactly b work x profile s' := by
  set base := s.withNode b work profile with hbase
  have hsize : base.nodes.size = s.graph.nodes.size + 1 :=
    Graph.size_nodes_addNode (s.graph.register b.batch) work b.batch profile
  have hlt : s.graph.nodes.size < base.nodes.size := by
    rw [hsize]
    exact Nat.lt_succ_self _
  obtain ⟨g, sources, hwire, hwired, hcount⟩ := Tracker.wire_spec (x := x) hpos
    (ht.mono (Nat.le_of_lt hlt)) hlt (Graph.isArmed_addNode_self hb.unarmed work profile)
    fun d hd => (hdeps d hd).trans hlt
  have hcomplete := isComplete_withNode s b work profile
  rw [← hbase] at hcomplete
  have hself : base.node s.graph.nodes.size = { work := some work, batch := b.batch, profile } :=
    Graph.node_addNode_self (s.graph.register b.batch) work b.batch profile
  have hold (i : Nat) (hi : i < s.graph.nodes.size) : base.node i = s.graph.node i :=
    Graph.node_addNode_of_ne (g := s.graph.register b.batch) work b.batch profile (Nat.ne_of_lt hi)
  have hfresh : base.isComplete s.graph.nodes.size = false := by
    unfold Graph.isComplete
    rw [hself]
    rfl
  have hrecords (i : Nat) (hi : i < s.graph.nodes.size) :
      (if base.records i s.graph.nodes.size then sources.count i else 0) =
        if s.graph.isComplete i then 0 else s.tracker.edgesFrom x i := by
    have hne : i ≠ s.graph.nodes.size := Nat.ne_of_lt hi
    have hopen := hcomplete i
    cases hc : s.graph.isComplete i with
    | true => simp [Graph.records, hopen, hc]
    | false =>
      rw [hc] at hopen
      simp [Graph.records, hne, hopen, hcount i hne hopen]
  have hnew (k : Nat) : s.graph.nodes.size ∉ (s.tracker.shards.getD k {}).readers := fun hmem =>
    absurd (ht k _ (List.mem_append_right _ hmem)) (Nat.lt_irrefl _)
  refine ⟨{ s with tracker := s.tracker.wiredBy base s.graph.nodes.size x, graph := g }, ?_, ?_⟩
  · unfold add
    dsimp only
    rw [show ((s.graph.register b.batch).addNode work b.batch profile).1 = base from rfl,
      show ((s.graph.register b.batch).addNode work b.batch profile).2 = s.graph.nodes.size
        from rfl, hwire]
    rfl
  · refine ⟨fun i hi => ?_, fun i hi => ?_, ?_, hwired.size.trans hsize, hwired.batches,
      Tracker.recordsExactly_wiredBy hnew ?_ hcomplete, rfl⟩
    · have hentries := hwired.entries i
      rw [hrecords i hi] at hentries
      rw [hentries]
      unfold Graph.entries
      rw [hold i hi]
    · have hne : i ≠ s.graph.nodes.size := Nat.ne_of_lt hi
      have hdegree := hwired.inDegree i
      rw [if_neg hne, Int.add_zero] at hdegree
      rw [hwired.node i, hdegree, hold i hi]
    · have hdegree := hwired.inDegree s.graph.nodes.size
      have hlists : (g.node s.graph.nodes.size).successors = .growing [] :=
        SealableList.eq_of_entries ((hwired.isComplete _).trans hfresh) (by
          have hentries := hwired.entries s.graph.nodes.size
          rw [if_neg (by simp [Graph.records])] at hentries
          rw [← Graph.entries, hentries, Graph.entries, hself]
          rfl)
      rw [if_pos rfl, hself, hwired.countP_eq, hsize, Finset.sum_range_succ,
        if_neg (by simp [Graph.records]), Nat.add_zero,
        Finset.sum_congr rfl fun i hi => hrecords i (Finset.mem_range.mp hi)] at hdegree
      rw [hwired.node, hdegree, hlists, hself]
      simp
    · exact hfresh

/-- The outcome does not depend on the order in which accesses are named, nor on repetitions. -/
theorem add_alike (hpos : 0 < s.tracker.shards.size) (ht : s.tracker.Within s.graph.nodes.size)
    (hb : b.Holds s.graph) (hdeps : ∀ d ∈ x.deps, d < s.graph.nodes.size) (h : x.Alike y) :
    s.add b work y profile = s.add b work x profile := by
  have hlt : s.graph.nodes.size < (s.withNode b work profile).nodes.size := by
    rw [withNode, Graph.size_nodes_addNode]
    exact Nat.lt_succ_self _
  have hwire := Tracker.wire_alike hpos (ht.mono (Nat.le_of_lt hlt)) hlt
    (Graph.isArmed_addNode_self hb.unarmed work profile) (fun d hd => (hdeps d hd).trans hlt) h
  unfold add
  dsimp only
  rw [show ((s.graph.register b.batch).addNode work b.batch profile).1 =
      s.withNode b work profile from rfl,
    show ((s.graph.register b.batch).addNode work b.batch profile).2 = s.graph.nodes.size from rfl,
    hwire]

end Adding

end System

/-- Resolving an access makes at most its own node the last writer, of its own shard, by a write. -/
theorem Tracker.lastWriter_resolve {t : Tracker} {g : Graph κ} {n i : NodeId} {a : Address}
    {write : Bool} {k : Nat}
    (h : ((t.resolve g n a write).state.1.shards.getD k {}).lastWriter = some i) :
    (t.shards.getD k {}).lastWriter = some i ∨ i = n ∧ write = true ∧ t.shardOf a = k := by
  have hset {writer : Option NodeId} {readers : List NodeId}
      (hwriter : writer = (t.shardAt a).lastWriter ∨ write = true ∧ writer = some n)
      (hk : ((t.setShard a ⟨writer, readers⟩).shards.getD k {}).lastWriter = some i) :
      (t.shards.getD k {}).lastWriter = some i ∨ i = n ∧ write = true ∧ t.shardOf a = k := by
    rw [getD_setShard] at hk
    split at hk
    · next hyes =>
      rcases hwriter with rfl | ⟨hwrite, rfl⟩
      · unfold shardAt at hk
        rw [hyes.1] at hk
        exact Or.inl hk
      · exact Or.inr ⟨(Option.some.inj hk).symm, hwrite, hyes.1⟩
    · exact Or.inl hk
  unfold resolve Outcome.bind at h
  dsimp only at h
  split at h
  · split at h
    · next hwrite =>
      split at h
      · exact hset (Or.inr ⟨hwrite, rfl⟩) h
      · exact hset (Or.inl rfl) h
    · exact hset (Or.inl rfl) h
  · exact Or.inl h

theorem Tracker.size_shards_resolve (t : Tracker) (g : Graph κ) (n : NodeId) (a : Address)
    (write : Bool) : (t.resolve g n a write).state.1.shards.size = t.shards.size := by
  unfold resolve Outcome.bind
  dsimp only
  split
  · split
    · split <;> exact size_shards_setShard ..
    · exact size_shards_setShard ..
  · rfl

namespace Yard

variable {s s' : Yard κ ε} {moves : List (Move κ)}

/-- The tracker changes when nodes are wired, and when it is reset. -/
theorem Does.tracker_eq {move : Move κ} (h : Does s move s') (hwire : ∀ n c, move ≠ .wire n c)
    (hreset : move ≠ .reset) : s'.system.tracker = s.system.tracker := by
  cases h with
  | wire => exact absurd rfl (hwire _ _)
  | reset => exact absurd rfl hreset
  | finish _ => exact (finishAt_eq ..).2.1
  | _ => rfl

/-- Only nodes that were wired by a write in a shard have been its last writers. -/
structure Written (s : Yard κ ε) (count : Nat) (moves : List (Move κ)) : Prop where
  size : s.system.tracker.shards.size = count
  lastWriter : ∀ (k : Nat) (i : NodeId),
    (s.system.tracker.shards.getD k {}).lastWriter = some i →
      ∃ a, .wire i (.access a true) ∈ moves ∧ s.system.tracker.shardOf a = k

namespace Written

variable {count : Nat}

/-- A tracker of the same size whose last writers are no others. -/
theorem of_lastWriter (h : s.Written count moves)
    (hsize : s'.system.tracker.shards.size = s.system.tracker.shards.size)
    (hwriter : ∀ (k : Nat) (i : NodeId),
      (s'.system.tracker.shards.getD k {}).lastWriter = some i →
        (s.system.tracker.shards.getD k {}).lastWriter = some i ∨
          ∃ a, .wire i (.access a true) ∈ moves ∧ s.system.tracker.shardOf a = k) :
    s'.Written count moves where
  size := hsize.trans h.size
  lastWriter k i hi := by
    simp only [Tracker.shardOf_congr hsize]
    exact (hwriter k i hi).elim (h.lastWriter k i) id

theorem act (h : s.Written count moves) (hs : s.Orderly) {move : Move κ} (hmove : move ∈ moves) :
    (s.act move).Written count moves := by
  have hdoes := hs.does_act move
  cases move with
  | wire n c =>
    simp only [Yard.act]
    split
    · have hsystem {α : Type} (s : Yard κ ε) (result : Except Fault α) :
          (s.noteFault result).system = s.system := by
        cases result <;> rfl
      unfold wire
      dsimp only
      cases c with
      | access a write =>
        refine h.of_lastWriter ?_ fun k i hi => ?_
        · rw [hsystem]
          exact Tracker.size_shards_resolve ..
        · rw [hsystem] at hi
          rcases Tracker.lastWriter_resolve hi with hold | ⟨rfl, rfl, hk⟩
          · exact Or.inl hold
          · exact Or.inr ⟨a, hmove, hk⟩
      | edge source =>
        refine h.of_lastWriter ?_ fun k i hi => ?_
        · rw [hsystem]
          rfl
        · rw [hsystem] at hi
          exact Or.inl hi
    · exact h
  | reset =>
    refine h.of_lastWriter (by simp [Yard.act, Tracker.reset]) fun k i hi => ?_
    simp only [Yard.act] at hi
    rw [Tracker.getD_reset] at hi
    cases hi
  | _ =>
    have htracker := hdoes.tracker_eq (by simp) (by simp)
    exact h.of_lastWriter (by rw [htracker]) fun k i hi => Or.inl (by rwa [htracker] at hi)

theorem start {tracker : Tracker} (htracker : Tracker.create count = .ok tracker) (grain : Nat)
    (moves : List (Move κ)) : (start tracker grain : Yard κ ε).Written count moves where
  size := Tracker.size_shards_of_create htracker
  lastWriter k i hi := by
    have hnone : ((Yard.start tracker grain : Yard κ ε).system.tracker.shards.getD k {}) = {} :=
      Tracker.shard_of_create htracker k
    rw [hnone] at hi
    cases hi

/-- Every run keeps the last writers among those that were wired by writes. -/
theorem run (h : s.Written count moves) (hs : s.Orderly) {rest : List (Move κ)}
    (hrest : rest ⊆ moves) : (s.run rest).Written count moves := by
  induction rest generalizing s with
  | nil => exact h
  | cons move rest ih =>
    rw [List.cons_subset] at hrest
    exact ih (h.act hs hrest.1) (hs.does (hs.does_act move)) hrest.2

end Written

/-- A node that was wired by no write in a shard is not waited for because of that shard, unless
it is written. -/
theorem Written.edgesIn {count : Nat} (h : s.Written count moves) {x : Access} {i : NodeId}
    {k : Nat} (hread : ∀ a, s.system.tracker.shardOf a = k → .wire i (.access a true) ∉ moves)
    (hwrites : ¬ x.WritesIn s.system.tracker k) : s.system.tracker.edgesIn x i k = 0 := by
  have hlast : (s.system.tracker.shards.getD k {}).lastWriter ≠ some i := fun hlast => by
    obtain ⟨a, hwire, hk⟩ := h.lastWriter k i hlast
    exact hread a hk hwire
  unfold Tracker.edgesIn
  rw [if_neg hlast, if_neg hwrites]

/-- What every builder of a yard can rely on when it adds a node to it, after whatever moves. -/
structure WiresExactly (s : Yard κ ε) (moves : List (Move κ)) (b : Builder) (work : Work κ)
    (x : Access) (profile : Option Profile) : Prop where
  adds : ∃ s', s.system.add b work x profile =
      .pure (s', { b with nodes := b.nodes ++ [s.graph.nodes.size] }) s.graph.nodes.size ∧
    s.system.AddsExactly b work x profile s'
  /-- Neither the order nor the repetition of addresses matters. -/
  alike : ∀ y, x.Alike y → s.system.add b work y profile = s.system.add b work x profile
  /-- Nodes that only read a shard are not ordered by it. -/
  readers : ∀ (i : NodeId) (k : Nat),
    (∀ a, s.system.tracker.shardOf a = k → .wire i (.access a true) ∉ moves) →
      ¬ x.WritesIn s.system.tracker k → s.system.tracker.edgesIn x i k = 0

/-- In every state of a yard, adding a node is exact. -/
theorem wiresExactly_run {tracker : Tracker} {count grain : Nat}
    (htracker : Tracker.create count = .ok tracker) (moves : List (Move κ)) {k : Nat} {b : Builder}
    (hb : ((start tracker grain : Yard κ ε).run moves).crews[k]? = some (.adding b))
    (work : Work κ) {x : Access} (profile : Option Profile)
    (hdeps : ∀ d ∈ x.deps, d < ((start tracker grain : Yard κ ε).run moves).graph.nodes.size) :
    ((start tracker grain : Yard κ ε).run moves).WiresExactly moves b work x profile := by
  have hstart : (start tracker grain : Yard κ ε).Orderly := .start htracker grain
  obtain ⟨hs, -⟩ := hstart.run (fun _ => True) moves trivial fun _ _ _ _ _ _ _ => trivial
  have hwritten := (Written.start (ε := ε) htracker grain moves).run hstart (List.Subset.refl moves)
  have hpos : 0 < ((start tracker grain : Yard κ ε).run moves).system.tracker.shards.size := by
    rw [hwritten.size, ← Tracker.size_shards_of_create htracker]
    exact Tracker.size_shards_pos_of_create htracker
  have hholds := hs.staffed.holds k b (Crew.builderAt_of_adding hb)
  exact ⟨System.exists_addsExactly hpos hs.within hholds hdeps,
    fun y hy => System.add_alike hpos hs.within hholds hdeps hy,
    fun i k hread hwrites => hwritten.edgesIn hread hwrites⟩

/-- Node 0 writes the first shard and node 1 reads it; node 2 writes the second one. -/
def sharedShards : List (Move Unit) :=
  [.newBuilder, .add 0 (.host ()) none, .add 0 (.host ()) none, .add 0 (.host ()) none,
    .wire 0 (.access 0 true), .wire 1 (.access 128 false), .wire 2 (.access 64 true)]

/-- A node that reads two addresses of the first shard, one of them twice, writes the second one and
names node 1 twice gets two edges from node 0, two from node 1 and one from node 2. -/
theorem wiresExactly_sharedShards :
    ((start { shards := #[{}, {}] } 1 : Yard Unit Unit).run sharedShards).WiresExactly sharedShards
        { batch := 0, nodes := [0, 1, 2] } (.host ())
        { reads := [0, 128, 0, 64], writes := [64, 192], deps := [1, 1] } none ∧
      (List.range 3).map (Tracker.edgesFrom
        ((start { shards := #[{}, {}] } 1 : Yard Unit Unit).run sharedShards).system.tracker
          { reads := [0, 128, 0, 64], writes := [64, 192], deps := [1, 1] }) = [2, 2, 1] := by
  have htracker : Tracker.create 2 = .ok { shards := #[{}, {}] } := rfl
  exact ⟨wiresExactly_run htracker sharedShards (k := 0) (by decide +kernel) (.host ()) none
    (by decide +kernel), by decide +kernel⟩

end Yard

end HazardFlow
