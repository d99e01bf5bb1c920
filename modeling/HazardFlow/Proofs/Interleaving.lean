import HazardFlow.Proofs.Tracker.Wire

/-!
# Builders that take turns

Builders of several threads may share a tracker. Each call that wires a node is made as a whole,
but between two calls of one builder others may make theirs. Whether the recorded edges are then
free of cycles depends on the order of the calls alone: they are exactly when no nodes come before
each other in a circle, where a node comes before another one that it conflicts with when its own
access was resolved first. Builders that add one node after the other never close such a circle,
but two builders that resolve the same two addresses in opposite orders do.
-/

namespace HazardFlow

/-- One call that wires a node: an access that is resolved, or an edge from an explicit
predecessor. -/
inductive WireCall where
  | access (address : Address) (write : Bool)
  | edge (source : NodeId)
  deriving DecidableEq, Repr

/-- The calls that wire a node, in the order in which its builder makes them. -/
def Access.calls (access : Access) : List WireCall :=
  access.onlyRead.map (.access · false) ++ access.written.map (.access · true) ++
    access.deps.map .edge

namespace Tracker

variable {κ : Type}

/-- Makes one call. -/
def make (t : Tracker) (g : Graph κ) (n : NodeId) : WireCall → Outcome (Tracker × Graph κ) Unit
  | .access a write => (t.resolve g n a write).map fun _ => ()
  | .edge source => ((g.link source n).lift (t, ·)).map fun _ => ()

/-- Makes calls in turn. -/
def makeAll (t : Tracker) (g : Graph κ) (n : NodeId) :
    List WireCall → Outcome (Tracker × Graph κ) Unit
  | [] => .pure (t, g) ()
  | c :: rest => (t.make g n c).bind fun (t, g) _ => t.makeAll g n rest

theorem makeAll_cons (t : Tracker) (g : Graph κ) (n : NodeId) (c : WireCall)
    (rest : List WireCall) :
    t.makeAll g n (c :: rest) = (t.make g n c).bind fun (t, g) _ => t.makeAll g n rest := rfl

/-- Calls may be made in two parts. -/
theorem makeAll_append (t : Tracker) (g : Graph κ) (n : NodeId) (calls more : List WireCall) :
    t.makeAll g n (calls ++ more) =
      (t.makeAll g n calls).bind fun (t, g) _ => t.makeAll g n more := by
  induction calls generalizing t g with
  | nil => rfl
  | cons c rest ih =>
    rw [List.cons_append, makeAll_cons, makeAll_cons, Outcome.bind_assoc]
    simp only [ih]

/-- Resolving accesses is a part of the calls. -/
theorem resolveAll_eq_makeAll (t : Tracker) (g : Graph κ) (n : NodeId) (write : Bool)
    (addresses : List Address) :
    t.resolveAll g n write addresses = t.makeAll g n (addresses.map (.access · write)) := by
  induction addresses generalizing t g with
  | nil => rfl
  | cons a rest ih =>
    rw [List.map_cons, makeAll_cons, make, Outcome.bind_map]
    unfold resolveAll
    simp only [ih]

/-- Wiring the explicit predecessors is a part of the calls. -/
theorem linkAll_eq_makeAll (t : Tracker) (g : Graph κ) (n : NodeId) (sources : List NodeId) :
    (((g.linkAll sources n).lift (t, ·)).map fun _ => ()) =
      t.makeAll g n (sources.map .edge) := by
  induction sources generalizing g with
  | nil => rfl
  | cons source rest ih =>
    rw [List.map_cons, makeAll_cons, make, Outcome.bind_map]
    unfold Graph.linkAll
    cases g.link source n with
    | mk state result =>
      cases result with
      | error _ => rfl
      | ok recorded =>
        change (((state.linkAll rest n).map (· + recorded.toNat)).lift (t, ·)).map (fun _ => ()) =
          t.makeAll state n (rest.map .edge)
        rw [← ih state]
        cases state.linkAll rest n with
        | mk _ last => cases last <;> rfl

/-- A builder that is not interrupted wires a node by making its calls in turn. -/
theorem wire_eq_makeAll (t : Tracker) (g : Graph κ) (n : NodeId) (access : Access) :
    t.wire g n access = t.makeAll g n access.calls := by
  unfold wire Access.calls
  simp only [makeAll_append, resolveAll_eq_makeAll, linkAll_eq_makeAll]

end Tracker

/-- A builder's thread: the batch of the builder, and the node that is being wired with the calls
still to be made. -/
structure Thread where
  batch : BatchId
  node : NodeId := 0
  calls : List WireCall := []
  deriving DecidableEq, Repr

/-- The node that a thread wires, and the explicit predecessors still to be wired, are numbered
below a bound. -/
structure Thread.Within (t : Thread) (bound : Nat) : Prop where
  node : t.calls ≠ [] → t.node < bound
  source : ∀ d : Nat, .edge d ∈ t.calls → d < bound

/-- Making a call leaves the node and the other calls within the bound. -/
theorem Thread.Within.tail {batch n bound : Nat} {c : WireCall} {rest : List WireCall}
    (h : Thread.Within ⟨batch, n, c :: rest⟩ bound) : Thread.Within ⟨batch, n, rest⟩ bound where
  node _ := h.node (List.cons_ne_nil _ _)
  source d hd := h.source d (List.mem_cons_of_mem _ hd)

/-- A thread that wires a node wires the newest one, whose explicit predecessors are older. -/
structure Thread.Newest (t : Thread) (size : Nat) : Prop where
  node : t.calls ≠ [] → t.node + 1 = size
  source : ∀ d : Nat, .edge d ∈ t.calls → d < t.node

/-- Making a call leaves the node the newest. -/
theorem Thread.Newest.tail {batch n size : Nat} {c : WireCall} {rest : List WireCall}
    (h : Thread.Newest ⟨batch, n, c :: rest⟩ size) : Thread.Newest ⟨batch, n, rest⟩ size where
  node _ := h.node (List.cons_ne_nil _ _)
  source d hd := h.source d (List.mem_cons_of_mem _ hd)

/-- A graph that is built by several threads. -/
structure Building (κ : Type) where
  tracker : Tracker
  graph : Graph κ := {}
  threads : Array Thread := #[]
  /-- The accesses resolved so far, oldest first. -/
  log : List Use := []
  /-- The explicit predecessors wired so far, each with its node. -/
  named : List (NodeId × NodeId) := []

/-- What a thread does in one turn. -/
inductive Turn (κ : Type) where
  /-- A further thread starts a builder. -/
  | newBuilder
  /-- A thread that wires no node adds one to its batch. -/
  | create (thread : Nat) (work : Work κ) (access : Access) (profile : Option Profile)
  /-- A thread makes the next call for its node. -/
  | call (thread : Nat)

namespace Building

variable {κ : Type}

/-- Nothing has been built yet. -/
def start (tracker : Tracker) : Building κ := { tracker }

/-- Starts a builder. -/
def newBuilder (s : Building κ) : Building κ :=
  { s with
    graph := s.graph.startBatch.1
    threads := s.threads.push { batch := s.graph.startBatch.2 } }

/-- Adds a node, whose explicit predecessors must exist. Its calls are still to be made. -/
def create (s : Building κ) (i : Nat) (work : Work κ) (access : Access)
    (profile : Option Profile) : Building κ :=
  match s.threads[i]? with
  | some ⟨batch, _, []⟩ =>
    if access.deps.all fun d => d < s.graph.nodes.size then
      let (graph, node) := (s.graph.register batch).addNode work batch profile
      { s with graph, threads := s.threads.setIfInBounds i ⟨batch, node, access.calls⟩ }
    else s
  | _ => s

/-- Notes a call that was made. -/
def note (s : Building κ) (n : NodeId) : WireCall → Building κ
  | .access a write => { s with log := s.log ++ [⟨n, a, write⟩] }
  | .edge source => { s with named := s.named ++ [(source, n)] }

/-- Makes the next call of a thread. A fault ends the wiring of its node. -/
def call (s : Building κ) (i : Nat) : Building κ :=
  match s.threads[i]? with
  | some ⟨batch, n, c :: rest⟩ =>
    let made := s.tracker.make s.graph n c
    let calls := if made.result.isOk then rest else []
    ({ s with
      tracker := made.state.1
      graph := made.state.2
      threads := s.threads.setIfInBounds i ⟨batch, n, calls⟩ }).note n c
  | _ => s

/-- Takes one turn. A turn that is not possible changes nothing. -/
def take (s : Building κ) : Turn κ → Building κ
  | .newBuilder => s.newBuilder
  | .create i work access profile => s.create i work access profile
  | .call i => s.call i

/-- Takes turns one after the other. -/
def run (s : Building κ) (turns : List (Turn κ)) : Building κ := turns.foldl take s

/-- A node is recorded as a predecessor of another one. -/
def Recorded (s : Building κ) (i j : NodeId) : Prop := j ∈ s.graph.entries i

/-- A node comes before another one when it was named as its predecessor, or resolved an access
earlier with which an access of the other one conflicts. -/
def Precedes (s : Building κ) (i j : NodeId) : Prop :=
  i ≠ j ∧ ((i, j) ∈ s.named ∨
    ∃ u v, [u, v].Sublist s.log ∧ s.tracker.Conflict u v ∧ u.node = i ∧ v.node = j)

/-- No chain leads from a node back to itself. -/
def Acyclic (r : NodeId → NodeId → Prop) : Prop := ∀ n, ¬ Relation.TransGen r n n

variable {s s' : Building κ}

@[simp] theorem tracker_note (s : Building κ) (n : NodeId) (c : WireCall) :
    (s.note n c).tracker = s.tracker := by
  cases c <;> rfl

@[simp] theorem graph_note (s : Building κ) (n : NodeId) (c : WireCall) :
    (s.note n c).graph = s.graph := by
  cases c <;> rfl

@[simp] theorem threads_note (s : Building κ) (n : NodeId) (c : WireCall) :
    (s.note n c).threads = s.threads := by
  cases c <;> rfl

/-- A thread with no calls to make has nothing to do. -/
theorem run_calls_of_nil {i batch n : Nat} (hi : s.threads[i]? = some ⟨batch, n, []⟩)
    (count : Nat) : s.run (List.replicate count (.call i)) = s := by
  induction count with
  | zero => rfl
  | succ count ih =>
    have hcall : s.call i = s := by
      unfold call
      rw [hi]
    rw [List.replicate_succ]
    change (s.call i).run (List.replicate count (.call i)) = s
    rw [hcall, ih]

/-- A thread that is not interrupted makes its calls in turn. -/
theorem run_calls {i batch n : Nat} {calls : List WireCall}
    (hi : s.threads[i]? = some ⟨batch, n, calls⟩) :
    ((s.run (List.replicate calls.length (.call i))).tracker,
      (s.run (List.replicate calls.length (.call i))).graph) =
        (s.tracker.makeAll s.graph n calls).state := by
  induction calls generalizing s with
  | nil => rfl
  | cons c rest ih =>
    have hlt : i < s.threads.size := (Array.getElem?_eq_some_iff.mp hi).1
    have hset (t : Thread) : (s.threads.setIfInBounds i t)[i]? = some t :=
      Array.getElem?_setIfInBounds_self_of_lt hlt
    have hrun : s.run (List.replicate (c :: rest).length (.call i)) =
        (s.call i).run (List.replicate rest.length (.call i)) := rfl
    rw [hrun, Tracker.makeAll_cons]
    unfold call
    rw [hi]
    dsimp only
    cases s.tracker.make s.graph n c with
    | mk state result =>
      cases result with
      | ok _ =>
        rw [ih (by rw [threads_note]; exact hset ⟨batch, n, rest⟩), tracker_note, graph_note]
        rfl
      | error _ =>
        rw [run_calls_of_nil (by rw [threads_note]; exact hset ⟨batch, n, []⟩), tracker_note,
          graph_note]
        rfl

/-- A builder that is not interrupted adds a node as a builder alone does. -/
theorem run_create_calls {ε : Type} {system : System κ ε} {b : Builder} {i n : Nat}
    {access : Access} (htracker : system.tracker = s.tracker) (hgraph : system.graph = s.graph)
    (hi : s.threads[i]? = some ⟨b.batch, n, []⟩)
    (hdeps : ∀ d : Nat, d ∈ access.deps → d < s.graph.nodes.size) (work : Work κ)
    (profile : Option Profile) :
    let added := (system.add b work access profile).state.1
    let s' := s.run (.create i work access profile :: List.replicate access.calls.length (.call i))
    s'.tracker = added.tracker ∧ s'.graph = added.graph := by
  have hlt : i < s.threads.size := (Array.getElem?_eq_some_iff.mp hi).1
  have hall : (access.deps.all fun d => d < s.graph.nodes.size) = true :=
    List.all_eq_true.mpr fun d hd => decide_eq_true (hdeps d hd)
  set created := s.create i work access profile with hcreated
  have hcreate : created = { s with
      graph := ((s.graph.register b.batch).addNode work b.batch profile).1
      threads := s.threads.setIfInBounds i ⟨b.batch, s.graph.nodes.size, access.calls⟩ } := by
    rw [hcreated]
    unfold create
    rw [hi]
    dsimp only
    rw [if_pos hall]
    rfl
  have hthread : created.threads[i]? = some ⟨b.batch, s.graph.nodes.size, access.calls⟩ := by
    rw [hcreate]
    exact Array.getElem?_setIfInBounds_self_of_lt hlt
  have hcalls := run_calls hthread
  have hwire : (system.add b work access profile).state.1 =
      let wired := (created.tracker.makeAll created.graph s.graph.nodes.size access.calls).state
      { system with tracker := wired.1, graph := wired.2 } := by
    unfold System.add
    rw [htracker, hgraph, hcreate, ← Tracker.wire_eq_makeAll]
    rfl
  dsimp only at hwire ⊢
  rw [hwire, ← hcalls]
  exact ⟨rfl, rfl⟩

/-- What is built fits together. No node of a builder has been submitted, so that none is complete
and no call stops with a fault. -/
structure Sound (s : Building κ) : Prop where
  shards : 0 < s.tracker.shards.size
  within : s.tracker.Within s.graph.nodes.size
  armed : ∀ b : Nat, (s.graph.batch b).armed = false
  isComplete : ∀ n : Nat, s.graph.isComplete n = false
  threads : ∀ t ∈ s.threads, t.Within s.graph.nodes.size

/-- What a turn can make of a building. -/
inductive Does (s : Building κ) : Turn κ → Building κ → Prop where
  /-- The turn is not possible. -/
  | keep (turn : Turn κ) : Does s turn s
  | newBuilder : Does s .newBuilder s.newBuilder
  | create {i batch n : Nat} {access : Access} (work : Work κ) (profile : Option Profile)
      (hi : s.threads[i]? = some ⟨batch, n, []⟩)
      (hdeps : ∀ d : Nat, d ∈ access.deps → d < s.graph.nodes.size) :
      Does s (.create i work access profile) { s with
        graph := ((s.graph.register batch).addNode work batch profile).1
        threads := s.threads.setIfInBounds i ⟨batch, s.graph.nodes.size, access.calls⟩ }
  | access {i batch n : Nat} {a : Address} {write : Bool} {rest : List WireCall} {g : Graph κ}
      (hi : s.threads[i]? = some ⟨batch, n, .access a write :: rest⟩)
      (hwired : Graph.Wired s.graph n (s.tracker.conflicts a write) g) :
      Does s (.call i) { s with
        tracker := s.tracker.record s.graph n a write
        graph := g
        threads := s.threads.setIfInBounds i ⟨batch, n, rest⟩
        log := s.log ++ [⟨n, a, write⟩] }
  | edge {i batch n d : Nat} {rest : List WireCall} {g : Graph κ}
      (hi : s.threads[i]? = some ⟨batch, n, .edge d :: rest⟩)
      (hwired : Graph.Wired s.graph n [d] g) :
      Does s (.call i) { s with
        graph := g
        threads := s.threads.setIfInBounds i ⟨batch, n, rest⟩
        named := s.named ++ [(d, n)] }

namespace Sound

/-- No node has been submitted. -/
theorem isArmed (hs : s.Sound) (n : Nat) : s.graph.isArmed n = false := hs.armed _

/-- A call that a thread has still to make does not stop with a fault. -/
theorem does_call (hs : s.Sound) (i : Nat) : Does s (.call i) (s.call i) := by
  unfold call
  split
  · next batch n c rest hi =>
    have hthread := hs.threads _ (Array.mem_of_getElem? hi)
    have hn : n < s.graph.nodes.size := hthread.node (List.cons_ne_nil _ _)
    cases c with
    | access a write =>
      obtain ⟨g, hresolve, hwired⟩ := Tracker.resolve_spec hs.within hn (hs.isArmed n) a write
      simp only [Tracker.make, hresolve]
      exact .access hi hwired
    | edge d =>
      have hd : d < s.graph.nodes.size := hthread.source d (List.mem_cons_self ..)
      obtain ⟨g, hlink, hwired⟩ := Graph.link_spec hd hn (hs.isArmed n)
      simp only [Tracker.make, hlink]
      exact .edge hi hwired
  · exact .keep _

/-- A thread that wires no node adds one whose explicit predecessors exist. -/
theorem does_create (s : Building κ) (i : Nat) (work : Work κ) (access : Access)
    (profile : Option Profile) :
    Does s (.create i work access profile) (s.create i work access profile) := by
  unfold create
  split
  · next batch n hi =>
    split
    · next hall =>
      exact .create work profile hi fun d hd => of_decide_eq_true (List.all_eq_true.mp hall d hd)
    · exact .keep _
  · exact .keep _

/-- What a turn does. -/
theorem does_take (hs : s.Sound) (turn : Turn κ) : Does s turn (s.take turn) := by
  cases turn with
  | newBuilder => exact .newBuilder
  | create i work access profile => exact does_create s i work access profile
  | call i => exact hs.does_call i

/-- Wiring a node keeps a building sound. -/
theorem wired (hs : s.Sound) {i n : Nat} {sources : List NodeId} {g : Graph κ} {t : Tracker}
    {thread : Thread} {log : List Use} {named : List (NodeId × NodeId)}
    (hwired : Graph.Wired s.graph n sources g) (hshards : 0 < t.shards.size)
    (hwithin : t.Within s.graph.nodes.size) (hthread : thread.Within s.graph.nodes.size) :
    Sound
      { tracker := t, graph := g, threads := s.threads.setIfInBounds i thread, log, named } where
  shards := hshards
  within := by rwa [hwired.size]
  armed b := by
    rw [hwired.batch]
    exact hs.armed b
  isComplete n := by
    rw [hwired.isComplete]
    exact hs.isComplete n
  threads x hx := by
    rw [hwired.size]
    rcases Array.mem_or_eq_of_mem_setIfInBounds hx with hold | rfl
    · exact hs.threads x hold
    · exact hthread

/-- A turn keeps a building sound. -/
theorem does {turn : Turn κ} (hs : s.Sound) (h : Does s turn s') : s'.Sound := by
  cases h with
  | keep => exact hs
  | newBuilder =>
    refine ⟨hs.shards, hs.within, fun b => ?_, hs.isComplete, fun t ht => ?_⟩
    · exact (Graph.armed_startBatch s.graph b).trans (hs.armed b)
    · rcases Array.mem_push.mp ht with hold | rfl
      · exact hs.threads t hold
      · exact ⟨fun hne => absurd rfl hne, fun d hd => absurd hd List.not_mem_nil⟩
  | @create i batch n access work profile hi hdeps =>
    have hsize : ((s.graph.register batch).addNode work batch profile).1.nodes.size =
        s.graph.nodes.size + 1 := Graph.size_nodes_addNode ..
    refine ⟨hs.shards, fun k m hm => ?_, fun b => ?_, fun m => ?_, fun t ht => ?_⟩
    · rw [hsize]
      exact Nat.lt_succ_of_lt (hs.within k m hm)
    · exact (Graph.field_updateBatch Batch.armed b).trans (hs.armed b)
    · have hsuccessors := Graph.successors_addNode (s.graph.register batch) work batch profile m
      unfold Graph.isComplete Node.isComplete
      rw [hsuccessors]
      exact hs.isComplete m
    · rw [hsize]
      rcases Array.mem_or_eq_of_mem_setIfInBounds ht with hold | rfl
      · have hthread := hs.threads t hold
        exact ⟨fun hne => Nat.lt_succ_of_lt (hthread.node hne),
          fun d hd => Nat.lt_succ_of_lt (hthread.source d hd)⟩
      · refine ⟨fun _ => Nat.lt_succ_self _, fun d hd => Nat.lt_succ_of_lt (hdeps d ?_)⟩
        simpa [Access.calls] using hd
  | @access i batch n a write rest g hi hwired =>
    have hthread := hs.threads _ (Array.mem_of_getElem? hi)
    have hn : n < s.graph.nodes.size := hthread.node (List.cons_ne_nil _ _)
    refine hs.wired hwired ?_ (hs.within.record hn s.graph a write) hthread.tail
    rw [Tracker.size_shards_record]
    exact hs.shards
  | @edge i batch n d rest g hi hwired =>
    have hthread := hs.threads _ (Array.mem_of_getElem? hi)
    exact hs.wired hwired hs.shards hs.within hthread.tail

end Sound

/-- The recorded edges stand for the order of the calls: every edge comes from a conflict or an
explicit predecessor, and every conflict and explicit predecessor is covered by edges. -/
structure Traced (s : Building κ) : Prop where
  tracks : s.tracker.Tracks s.graph s.log
  logged : s.tracker.Logged s.log
  named : ∀ i j : Nat, (i, j) ∈ s.named → s.graph.Reaches i j
  precedes : ∀ i j : Nat, s.Recorded i j → s.Precedes i j

/-- Further calls do not change what came before what. -/
theorem Precedes.mono {i j : Nat} (h : s.Precedes i j)
    (hsize : s'.tracker.shards.size = s.tracker.shards.size) (hlog : s.log.Sublist s'.log)
    (hnamed : s.named ⊆ s'.named) : s'.Precedes i j := by
  obtain ⟨hne, hname | ⟨u, v, huv, hconflict, hu, hv⟩⟩ := h
  · exact ⟨hne, Or.inl (hnamed hname)⟩
  · exact ⟨hne, Or.inr ⟨u, v, huv.trans hlog, (Tracker.conflict_congr hsize u v).mpr hconflict,
      hu, hv⟩⟩

/-- A turn keeps a building traced. -/
theorem Traced.does {turn : Turn κ} (hs : s.Sound) (h : s.Traced) (hdoes : Does s turn s') :
    s'.Traced := by
  cases hdoes with
  | keep => exact h
  | newBuilder =>
    have hlater := Graph.Later.startBatch s.graph
    exact ⟨h.tracks.later hlater, h.logged, fun i j hij => hlater.reaches (h.named i j hij),
      h.precedes⟩
  | @create i batch n access work profile hi hdeps =>
    have hlater := (Graph.Later.register s.graph batch).trans
      (Graph.Later.addNode (s.graph.register batch) work batch profile)
    have hsuccessors := Graph.successors_addNode (s.graph.register batch) work batch profile
    refine ⟨h.tracks.later hlater, h.logged, fun i j hij => hlater.reaches (h.named i j hij),
      fun i j hij => h.precedes i j ?_⟩
    unfold Recorded Graph.entries at hij ⊢
    rwa [hsuccessors] at hij
  | @access i batch n a write rest g hi hwired =>
    have hlater := Graph.Later.wired hwired
    refine ⟨h.tracks.record hs.shards hwired, h.logged.record hs.shards s.graph n a write,
      fun i j hij => hlater.reaches (h.named i j hij), fun i j hij => ?_⟩
    have hsize := Tracker.size_shards_record s.tracker s.graph n a write
    rcases hwired.mem_entries hij with hold | ⟨rfl, hi, hne⟩
    · exact (h.precedes i j hold).mono hsize (List.sublist_append_left _ _)
        (List.Subset.refl _)
    · obtain ⟨u, hu, hnode, hconflict⟩ := h.logged ⟨j, a, write⟩ i hi
      exact ⟨hne, Or.inr ⟨u, ⟨j, a, write⟩,
        (List.singleton_sublist.mpr hu).append (List.Sublist.refl _),
        (Tracker.conflict_congr hsize u _).mpr hconflict, hnode, rfl⟩⟩
  | @edge i batch n d rest g hi hwired =>
    have hlater := Graph.Later.wired hwired
    refine ⟨h.tracks.later hlater, h.logged, fun i j hij => ?_, fun i j hij => ?_⟩
    · rcases List.mem_append.mp hij with hold | hnew
      · exact hlater.reaches (h.named i j hold)
      · obtain ⟨rfl, rfl⟩ := Prod.mk.inj (List.mem_singleton.mp hnew)
        exact hwired.reaches (List.mem_singleton_self i)
    · rcases hwired.mem_entries hij with hold | ⟨rfl, hi, hne⟩
      · exact (h.precedes i j hold).mono rfl (List.Sublist.refl _)
          (List.subset_append_left _ _)
      · rw [List.mem_singleton.mp hi] at hne ⊢
        exact ⟨hne, Or.inl (List.mem_append_right _ (List.mem_singleton_self _))⟩

/-- A building at which nothing has been built is sound. -/
theorem sound_start {tracker : Tracker} {count : Nat} (h : Tracker.create count = .ok tracker) :
    (start tracker : Building κ).Sound where
  shards := Tracker.size_shards_pos_of_create h
  within := Tracker.within_create h
  armed b := Graph.armed_of_size_le (Nat.zero_le b)
  isComplete n := by
    unfold Graph.isComplete
    rw [Graph.node_of_size_le (Nat.zero_le n)]
    rfl
  threads t ht := absurd ht (Array.not_mem_empty t)

/-- A building at which nothing has been built is traced. -/
theorem traced_start {tracker : Tracker} {count : Nat} (h : Tracker.create count = .ok tracker) :
    (start tracker : Building κ).Traced where
  tracks := ⟨fun _ hu => absurd hu List.not_mem_nil, List.Pairwise.nil⟩
  logged := Tracker.logged_create h
  named i j hij := absurd hij List.not_mem_nil
  precedes i j hij := by
    unfold Recorded Graph.entries at hij
    rw [Graph.node_of_size_le (Nat.zero_le i)] at hij
    exact absurd hij List.not_mem_nil

/-- Whatever turns are taken, a building stays sound and traced. -/
theorem Traced.run (hs : s.Sound) (h : s.Traced) (turns : List (Turn κ)) :
    (s.run turns).Sound ∧ (s.run turns).Traced := by
  induction turns generalizing s with
  | nil => exact ⟨hs, h⟩
  | cons turn rest ih =>
    have hdoes := hs.does_take turn
    exact ih (hs.does hdoes) (h.does hs hdoes)

/-- A chain of edges leads from a node to every other one that it comes before. -/
theorem Traced.transGen_recorded (hs : s.Sound) (h : s.Traced) {i j : Nat} (hij : s.Precedes i j) :
    Relation.TransGen s.Recorded i j := by
  have hreaches : s.graph.Reaches i j := by
    obtain ⟨_, hname | ⟨u, v, huv, hconflict, rfl, rfl⟩⟩ := hij
    · exact h.named i j hname
    · exact List.pairwise_pair.mp (h.tracks.ordered.sublist huv) hconflict
  have hedges : Relation.ReflTransGen s.Recorded i j := by
    refine Relation.ReflTransGen.mono (fun a b hab => ?_) i j hreaches
    rcases hab with hdone | hmem
    · rw [hs.isComplete a] at hdone
      cases hdone
    · exact hmem
  rcases Relation.reflTransGen_iff_eq_or_transGen.mp hedges with heq | hchain
  · exact absurd heq.symm hij.1
  · exact hchain

/-- The recorded edges are free of cycles exactly when the order of the calls is. -/
theorem Traced.acyclic_iff (hs : s.Sound) (h : s.Traced) :
    Acyclic s.Recorded ↔ Acyclic s.Precedes := by
  constructor
  · intro hacyclic n hcycle
    exact hacyclic n (Relation.TransGen.closed (fun i j => h.transGen_recorded hs) n n hcycle)
  · intro hacyclic n hcycle
    exact hacyclic n (Relation.TransGen.mono (fun i j => h.precedes i j) n n hcycle)

/-- However the turns of any number of builders alternate, the recorded edges are free of cycles
exactly when no nodes come before each other in a circle. -/
theorem acyclic_recorded_iff {count : Nat} {tracker : Tracker} {turns : List (Turn κ)}
    (htracker : Tracker.create count = .ok tracker) (hrun : (start tracker).run turns = s) :
    Acyclic s.Recorded ↔ Acyclic s.Precedes := by
  obtain ⟨hs, h⟩ := (traced_start htracker).run (sound_start htracker) turns
  rw [hrun] at hs h
  exact h.acyclic_iff hs

/-- Calls that conflict only in the order of their nodes close no circle. -/
theorem acyclic_precedes (hnamed : ∀ i j : Nat, (i, j) ∈ s.named → i < j)
    (hlog : s.log.Pairwise fun u v => s.tracker.Conflict u v → u.node ≤ v.node) :
    Acyclic s.Precedes := by
  have hlt : ∀ i j : Nat, s.Precedes i j → i < j := by
    rintro i j ⟨hne, hname | ⟨u, v, huv, hconflict, rfl, rfl⟩⟩
    · exact hnamed i j hname
    · have hle := List.pairwise_pair.mp (hlog.sublist huv) hconflict
      exact Nat.lt_of_le_of_ne hle hne
  intro n hcycle
  exact Nat.lt_irrefl n (Relation.transGen_minimal hlt n n hcycle)

/-- No node is being wired. -/
def Idle (s : Building κ) : Prop := ∀ t ∈ s.threads, t.calls = []

/-- Turns that add a node only when no other one is being wired. -/
def Uninterrupted (s : Building κ) : List (Turn κ) → Prop
  | [] => True
  | turn :: rest =>
    (∀ i work access profile, turn = .create i work access profile → s.Idle) ∧
      (s.take turn).Uninterrupted rest

/-- Only the newest node is being wired, and all calls were made in the order of their nodes. -/
structure InOrder (s : Building κ) : Prop where
  threads : ∀ t ∈ s.threads, t.Newest s.graph.nodes.size
  named : ∀ i j : Nat, (i, j) ∈ s.named → i < j
  log_lt : ∀ u ∈ s.log, u.node < s.graph.nodes.size
  log : s.log.Pairwise fun u v => u.node ≤ v.node

/-- A turn that does not interrupt the wiring of a node keeps the calls in order. -/
theorem InOrder.does {turn : Turn κ} (h : s.InOrder) (hdoes : Does s turn s')
    (hidle : ∀ i work access profile, turn = .create i work access profile → s.Idle) :
    s'.InOrder := by
  cases hdoes with
  | keep => exact h
  | newBuilder =>
    refine ⟨fun t ht => ?_, h.named, h.log_lt, h.log⟩
    rcases Array.mem_push.mp ht with hold | rfl
    · exact h.threads t hold
    · exact ⟨fun hne => absurd rfl hne, fun d hd => absurd hd List.not_mem_nil⟩
  | @create i batch n access work profile hi hdeps =>
    have hidle := hidle i work access profile rfl
    have hsize : ((s.graph.register batch).addNode work batch profile).1.nodes.size =
        s.graph.nodes.size + 1 := Graph.size_nodes_addNode ..
    refine ⟨fun t ht => ?_, h.named, fun u hu => ?_, h.log⟩
    · rw [hsize]
      rcases Array.mem_or_eq_of_mem_setIfInBounds ht with hold | rfl
      · exact ⟨fun hne => absurd (hidle t hold) hne, (h.threads t hold).source⟩
      · exact ⟨fun _ => rfl, fun d hd => hdeps d (by simpa [Access.calls] using hd)⟩
    · rw [hsize]
      exact Nat.lt_succ_of_lt (h.log_lt u hu)
  | @access i batch n a write rest g hi hwired =>
    have hthread := h.threads _ (Array.mem_of_getElem? hi)
    have hn : n + 1 = s.graph.nodes.size := hthread.node (List.cons_ne_nil _ _)
    refine ⟨fun t ht => ?_, h.named, fun u hu => ?_, ?_⟩
    · rw [hwired.size]
      rcases Array.mem_or_eq_of_mem_setIfInBounds ht with hold | rfl
      · exact h.threads t hold
      · exact hthread.tail
    · rw [hwired.size]
      rcases List.mem_append.mp hu with hold | hnew
      · exact h.log_lt u hold
      · rw [List.mem_singleton.mp hnew]
        exact Nat.lt_of_lt_of_eq (Nat.lt_succ_self n) hn
    · refine List.pairwise_append.mpr ⟨h.log, List.pairwise_singleton .., fun u hu v hv => ?_⟩
      rw [List.mem_singleton.mp hv]
      have hlt := h.log_lt u hu
      exact Nat.le_of_lt_succ (Nat.lt_of_lt_of_eq hlt hn.symm)
  | @edge i batch n d rest g hi hwired =>
    have hthread := h.threads _ (Array.mem_of_getElem? hi)
    refine ⟨fun t ht => ?_, fun i j hij => ?_, fun u hu => ?_, h.log⟩
    · rw [hwired.size]
      rcases Array.mem_or_eq_of_mem_setIfInBounds ht with hold | rfl
      · exact h.threads t hold
      · exact hthread.tail
    · rcases List.mem_append.mp hij with hold | hnew
      · exact h.named i j hold
      · obtain ⟨rfl, rfl⟩ := Prod.mk.inj (List.mem_singleton.mp hnew)
        exact hthread.source i (List.mem_cons_self ..)
    · rw [hwired.size]
      exact h.log_lt u hu

/-- Turns that do not interrupt the wiring of a node keep the calls in order. -/
theorem InOrder.run (hs : s.Sound) (h : s.InOrder) {turns : List (Turn κ)}
    (hturns : s.Uninterrupted turns) : (s.run turns).InOrder := by
  induction turns generalizing s with
  | nil => exact h
  | cons turn rest ih =>
    have hdoes := hs.does_take turn
    exact ih (hs.does hdoes) (h.does hdoes hturns.1) hturns.2

/-- Builders that add one node after the other record no cycle, in whichever order they add. -/
theorem acyclic_of_uninterrupted {count : Nat} {tracker : Tracker} {turns : List (Turn κ)}
    (htracker : Tracker.create count = .ok tracker)
    (hturns : (start tracker).Uninterrupted turns) :
    Acyclic ((start tracker).run turns).Recorded := by
  have hstart : (start tracker : Building κ).Sound := sound_start htracker
  obtain ⟨hs, htraced⟩ := (traced_start htracker).run hstart turns
  have hempty : (start tracker : Building κ).InOrder :=
    ⟨fun t ht => absurd ht (Array.not_mem_empty t), fun _ _ hij => absurd hij List.not_mem_nil,
      fun _ hu => absurd hu List.not_mem_nil, List.Pairwise.nil⟩
  have horder := hempty.run hstart hturns
  refine (htraced.acyclic_iff hs).mpr (acyclic_precedes horder.named ?_)
  refine horder.log.imp ?_
  intro u v hle _
  exact hle

/-- Two builders whose nodes write the same two addresses in the same order, taking turns. -/
def aligned : Building Unit :=
  (start { shards := #[{}, {}] }).run
    [.newBuilder, .newBuilder, .create 0 (.kernel ()) { writes := [0, 64] } none,
      .create 1 (.kernel ()) { writes := [0, 64] } none, .call 0, .call 1, .call 0, .call 1]

/-- Taking turns does no harm to two builders that write in the same order. -/
theorem acyclic_recorded_aligned : Acyclic aligned.Recorded := by
  have htracker : Tracker.create 2 = .ok { shards := #[{}, {}] } := rfl
  have hprecedes : Acyclic aligned.Precedes := by
    refine acyclic_precedes (fun i j hij => absurd hij ?_) ?_
    · have hnamed : aligned.named = [] := by decide
      rw [hnamed]
      exact List.not_mem_nil
    · decide
  exact (acyclic_recorded_iff htracker rfl).mpr hprecedes

/-- Two builders whose nodes write the same two addresses in opposite orders, taking turns. -/
def crossed : Building Unit :=
  (start { shards := #[{}, {}] }).run
    [.newBuilder, .newBuilder, .create 0 (.kernel ()) { writes := [0, 64] } none,
      .create 1 (.kernel ()) { writes := [64, 0] } none, .call 0, .call 1, .call 0, .call 1]

/-- Two builders that write in opposite orders make their nodes wait for each other. -/
theorem not_acyclic_recorded_crossed : ¬ Acyclic crossed.Recorded := by
  have hfirst : crossed.Recorded 0 1 := by
    unfold Recorded
    decide
  have hsecond : crossed.Recorded 1 0 := by
    unfold Recorded
    decide
  intro hacyclic
  exact hacyclic 0 (.tail (.single hfirst) hsecond)

end Building

end HazardFlow
