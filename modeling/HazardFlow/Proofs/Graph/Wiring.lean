import HazardFlow.Proofs.Graph.Updates

/-!
# Wiring a node

Wiring adds edges onto one node. What it leaves behind is determined by the list of the edges'
sources: every source that is neither complete nor the node itself records one more entry, and
the node counts as many edges more. Wirings onto one node compose, so that the calls which wire a
node are summed up by one list of sources.
-/

namespace HazardFlow.Graph

variable {κ : Type}

/-- The entries in a node's list of successors. A complete node has none. -/
def entries (g : Graph κ) (i : NodeId) : List NodeId := (g.node i).successors.entries

/-- The number of entries that name a node, in the lists of all nodes together. -/
def edgeCount (g : Graph κ) (m : NodeId) : Nat :=
  g.total fun n => n.successors.entries.count m

/-- Whether an edge from a node onto a target is recorded. -/
def records (g : Graph κ) (source target : NodeId) : Bool :=
  source != target && !g.isComplete source

/-- Whether an edge from a node onto a target is refused: there is nothing to wait for any more, and
the target has been submitted. -/
def refuses (g : Graph κ) (source target : NodeId) : Bool :=
  source != target && (g.isComplete source && g.isArmed target)

/-- No edge onto a node that was not submitted is refused. -/
theorem refuses_of_not_armed {g : Graph κ} {n : Nat} (harmed : g.isArmed n = false) (i : Nat) :
    g.refuses i n = false := by
  unfold refuses
  rw [harmed, Bool.and_false, Bool.and_false]

/-- A complete node has no entries. -/
theorem entries_of_isComplete {g : Graph κ} {i : Nat} (h : g.isComplete i = true) :
    g.entries i = [] := by
  unfold entries
  unfold isComplete Node.isComplete at h
  cases hs : (g.node i).successors with
  | growing l => simp [hs] at h
  | closed => rfl

/-- An update that touches no list of successors keeps all entries. -/
theorem entries_updateNode {g : Graph κ} {n : Nat} {f : Node κ → Node κ} (i : Nat)
    (hf : ∀ x, (f x).successors = x.successors := by intro x; rfl) :
    (g.updateNode n f).entries i = g.entries i := by
  unfold entries
  rw [field_updateNode Node.successors i hf]

/-- So it keeps the number of edges onto every node. -/
theorem edgeCount_updateNode {g : Graph κ} {n : Nat} {f : Node κ → Node κ} (m : Nat)
    (hf : ∀ x, (f x).successors = x.successors := by intro x; rfl) :
    (g.updateNode n f).edgeCount m = g.edgeCount m :=
  total_congr (size_nodes_updateNode ..) fun i => by rw [field_updateNode Node.successors i hf]

/-- The second graph has edges onto `n` from the given sources besides those of the first. -/
structure Wired (g : Graph κ) (n : Nat) (sources : List NodeId) (g' : Graph κ) : Prop where
  size : g'.nodes.size = g.nodes.size
  batches : g'.batches = g.batches
  /-- Nothing changes but in-degrees and lists of successors. -/
  node : ∀ m : Nat, g'.node m =
    { g.node m with inDegree := (g'.node m).inDegree, successors := (g'.node m).successors }
  isComplete : ∀ i : Nat, g'.isComplete i = g.isComplete i
  entries : ∀ i : Nat, g'.entries i =
    List.replicate (if g.records i n then sources.count i else 0) n ++ g.entries i
  inDegree : ∀ m : Nat, (g'.node m).inDegree =
    (g.node m).inDegree + if m = n then (sources.countP (g.records · n) : Int) else 0
  edgeCount : ∀ m : Nat, g'.edgeCount m =
    g.edgeCount m + if m = n then sources.countP (g.records · n) else 0

namespace Wired

variable {g g' g'' : Graph κ} {n : Nat} {sources : List NodeId}

theorem claimed (h : Wired g n sources g') (m : Nat) :
    (g'.node m).claimed = (g.node m).claimed := by rw [h.node m]

theorem parts (h : Wired g n sources g') (m : Nat) :
    (g'.node m).parts = (g.node m).parts := by rw [h.node m]

theorem batchOf (h : Wired g n sources g') (m : Nat) :
    (g'.node m).batch = (g.node m).batch := by rw [h.node m]

theorem work (h : Wired g n sources g') (m : Nat) :
    (g'.node m).work = (g.node m).work := by rw [h.node m]

theorem batch (h : Wired g n sources g') (b : Nat) : g'.batch b = g.batch b := by
  simp only [Graph.batch, h.batches]

theorem isArmed (h : Wired g n sources g') (m : Nat) : g'.isArmed m = g.isArmed m := by
  simp only [Graph.isArmed, h.batchOf, h.batch]

theorem records (h : Wired g n sources g') (i : Nat) : g'.records i n = g.records i n := by
  simp only [Graph.records, h.isComplete]

theorem refuses (h : Wired g n sources g') (i : Nat) : g'.refuses i n = g.refuses i n := by
  simp only [Graph.refuses, h.isComplete, h.isArmed]

/-- An entry after wiring was there before, or is one of the new edges. -/
theorem mem_entries (h : Wired g n sources g') {i m : Nat} (hm : m ∈ g'.entries i) :
    m ∈ g.entries i ∨ m = n ∧ i ∈ sources ∧ i ≠ n := by
  rw [h.entries, List.mem_append] at hm
  rcases hm with hnew | hold
  · right
    rw [List.mem_replicate] at hnew
    obtain ⟨hcount, rfl⟩ := hnew
    by_cases hrec : g.records i m = true
    · rw [if_pos hrec] at hcount
      refine ⟨rfl, List.count_pos_iff.mp (by omega), ?_⟩
      simp only [Graph.records, Bool.and_eq_true, bne_iff_ne] at hrec
      exact hrec.1
    · rw [if_neg hrec] at hcount
      exact absurd rfl hcount
  · exact Or.inl hold

/-- No entry is lost by wiring. -/
theorem entries_subset (h : Wired g n sources g') (i : Nat) : g.entries i ⊆ g'.entries i := by
  rw [h.entries]
  exact List.subset_append_right _ _

/-- Every source that is not complete lists the node afterwards. -/
theorem mem_entries_of_mem (h : Wired g n sources g') {i : Nat} (hi : i ∈ sources) (hne : i ≠ n)
    (hopen : g.isComplete i = false) : n ∈ g'.entries i := by
  have hrec : g.records i n = true := by simp [Graph.records, hne, hopen]
  rw [h.entries, if_pos hrec, List.mem_append]
  left
  exact List.mem_replicate.mpr ⟨by have := List.count_pos_iff.mpr hi; omega, rfl⟩

/-- A graph with the same nodes is wired from sources none of which records an edge. -/
theorem of_same (hsize : g'.nodes.size = g.nodes.size) (hbatches : g'.batches = g.batches)
    (hnode : ∀ m : Nat, g'.node m = g.node m) (hrec : ∀ i ∈ sources, g.records i n = false) :
    Wired g n sources g' where
  size := hsize
  batches := hbatches
  node m := by rw [hnode m]
  isComplete i := by simp only [Graph.isComplete, hnode]
  entries i := by
    have hzero : (if g.records i n then sources.count i else 0) = 0 := by
      split
      · next hyes =>
        exact List.count_eq_zero.mpr fun hi => by rw [hrec i hi] at hyes; cases hyes
      · rfl
    rw [hzero, List.replicate_zero, List.nil_append]
    simp only [Graph.entries, hnode]
  inDegree m := by
    have hzero : sources.countP (g.records · n) = 0 :=
      List.countP_eq_zero.mpr fun i hi => by rw [hrec i hi]; exact Bool.false_ne_true
    rw [hnode, hzero]
    split <;> simp
  edgeCount m := by
    have hzero : sources.countP (g.records · n) = 0 :=
      List.countP_eq_zero.mpr fun i hi => by rw [hrec i hi]; exact Bool.false_ne_true
    rw [hzero]
    unfold Graph.edgeCount
    rw [total_congr hsize fun m => by rw [hnode]]
    split <;> simp

/-- Wiring with no sources changes nothing. -/
theorem refl (g : Graph κ) (n : Nat) : Wired g n [] g :=
  of_same rfl rfl (fun _ => rfl) (by simp)

/-- Wirings onto one node compose. -/
theorem trans {more : List NodeId} (h : Wired g n sources g') (h' : Wired g' n more g'') :
    Wired g n (sources ++ more) g'' where
  size := h'.size.trans h.size
  batches := h'.batches.trans h.batches
  node m := by rw [h'.node m, h.node m]
  isComplete i := (h'.isComplete i).trans (h.isComplete i)
  entries i := by
    rw [h'.entries, h.entries, h.records, ← List.append_assoc, List.replicate_append_replicate]
    split
    · rw [List.count_append, Nat.add_comm]
    · rfl
  inDegree m := by
    have hrec : more.countP (g'.records · n) = more.countP (g.records · n) := by
      simp only [h.records]
    rw [h'.inDegree, h.inDegree, hrec, List.countP_append]
    split <;> omega
  edgeCount m := by
    have hrec : more.countP (g'.records · n) = more.countP (g.records · n) := by
      simp only [h.records]
    rw [h'.edgeCount, h.edgeCount, hrec, List.countP_append]
    split <;> omega

/-- Putting a node into the list of another one, and counting the edge, wires it. -/
theorem of_push {i : Nat} {l : List NodeId} (hi : i < g.nodes.size) (hn : n < g.nodes.size)
    (hne : i ≠ n) (hs : (g.node i).successors = .growing l) :
    Wired g n [i] ((g.updateNode n fun m => { m with inDegree := m.inDegree + 1 }).updateNode i
      ({ · with successors := .growing (n :: l) })) := by
  set raised := g.updateNode n fun m => { m with inDegree := m.inDegree + 1 } with hraised
  set pushed := raised.updateNode i ({ · with successors := .growing (n :: l) }) with hpushed
  have hrec : g.records i n = true := by
    simp [Graph.records, hne, Graph.isComplete, Node.isComplete, hs]
  have hi' : i < raised.nodes.size := by rw [hraised, size_nodes_updateNode]; exact hi
  have hsource : pushed.node i = { g.node i with successors := .growing (n :: l) } := by
    rw [hpushed, node_updateNode_self _ hi', hraised, node_updateNode_of_ne _ (Ne.symm hne)]
  have htarget : pushed.node n = { g.node n with inDegree := (g.node n).inDegree + 1 } := by
    rw [hpushed, node_updateNode_of_ne _ hne, hraised, node_updateNode_self _ hn]
  have hother : ∀ m : Nat, m ≠ i → m ≠ n → pushed.node m = g.node m := fun m hmi hmn => by
    rw [hpushed, node_updateNode_of_ne _ (Ne.symm hmi), hraised,
      node_updateNode_of_ne _ (Ne.symm hmn)]
  have hentries : ∀ m : Nat, m ≠ i → (pushed.node m).successors = (g.node m).successors := by
    intro m hmi
    by_cases hmn : m = n
    · rw [hmn, htarget]
    · rw [hother m hmi hmn]
  refine ⟨by simp [hpushed, hraised], rfl, fun m => ?_, fun m => ?_, fun m => ?_, fun m => ?_,
    fun m => ?_⟩
  · by_cases hmi : m = i
    · rw [hmi, hsource]
    · by_cases hmn : m = n
      · rw [hmn, htarget]
      · rw [hother m hmi hmn]
  · by_cases hmi : m = i
    · simp [Graph.isComplete, Node.isComplete, hmi, hsource, hs]
    · simp only [Graph.isComplete, Node.isComplete, hentries m hmi]
  · by_cases hmi : m = i
    · subst hmi
      rw [if_pos hrec]
      simp [Graph.entries, hsource, hs, List.replicate_one]
    · have hzero : (if g.records m n then [i].count m else 0) = 0 := by
        split
        · exact List.count_eq_zero.mpr (by simpa using hmi)
        · rfl
      rw [hzero]
      simp [Graph.entries, hentries m hmi]
  · by_cases hmn : m = n
    · subst hmn
      rw [htarget, if_pos rfl]
      simp [hrec]
    · by_cases hmi : m = i
      · rw [hmi, hsource, if_neg hne, Int.add_zero]
      · rw [hother m hmi hmn, if_neg hmn, Int.add_zero]
  · have htotal : pushed.total (fun x => x.successors.entries.count m) +
        (g.node i).successors.entries.count m = g.total (fun x => x.successors.entries.count m) +
        (pushed.node i).successors.entries.count m :=
      total_of_single (fun x => x.successors.entries.count m) (by simp [hpushed, hraised]) hi
        (fun k hk => by rw [hentries k hk])
    simp only [hsource, hs, SealableList.entries_growing, List.count_cons] at htotal
    unfold Graph.edgeCount
    by_cases hmn : m = n
    · subst hmn
      simp only [beq_self_eq_true, if_true] at htotal
      simp only [List.countP_singleton, hrec, if_true]
      omega
    · rw [if_neg (by simpa using Ne.symm hmn)] at htotal
      rw [if_neg hmn]
      omega

end Wired

/-- Wiring an edge that is not refused succeeds, and tells whether the edge was recorded. -/
theorem link_of_not_refuses {g : Graph κ} {i n : Nat} (hi : i < g.nodes.size)
    (hn : n < g.nodes.size) (hrefuses : g.refuses i n = false) :
    ∃ g', g.link i n = .pure g' (g.records i n) ∧ Wired g n [i] g' := by
  by_cases hne : i = n
  · subst hne
    have hrec : g.records i i = false := by simp [records]
    exact ⟨g, by rw [link_self, hrec], .of_same rfl rfl (fun _ => rfl) (by simpa using hrec)⟩
  · unfold link
    rw [if_neg hne]
    simp only [node_updateNode_of_ne _ (Ne.symm hne)]
    cases hs : (g.node i).successors with
    | growing l =>
      have hrec : g.records i n = true := by
        simp [records, hne, isComplete, Node.isComplete, hs]
      exact ⟨_, by rw [hrec]; rfl, .of_push hi hn hne hs⟩
    | closed =>
      have hrec : g.records i n = false := by
        simp [records, isComplete, Node.isComplete, hs]
      have harmed : g.isArmed n = false := by
        simpa [Graph.refuses, hne, isComplete, Node.isComplete, hs] using hrefuses
      set raised := g.updateNode n fun m => { m with inDegree := m.inDegree + 1 } with hraised
      have harmed' : raised.isArmed n = false := (isArmed_updateNode n).trans harmed
      have hn' : n < raised.nodes.size := by simpa [hraised] using hn
      simp only [SealableList.push_closed, harmed', Bool.false_eq_true, if_false]
      refine ⟨raised.updateNode n fun m => { m with inDegree := m.inDegree - 1 }, by rw [hrec],
        .of_same (by simp [hraised]) rfl (fun m => ?_) (by simpa using hrec)⟩
      by_cases hm : n = m
      · subst hm
        rw [node_updateNode_self _ hn', hraised, node_updateNode_self _ hn]
        simp
      · rw [node_updateNode_of_ne _ hm, hraised, node_updateNode_of_ne _ hm]

/-- Wiring an edge onto a node not yet submitted succeeds. -/
theorem link_spec {g : Graph κ} {i n : Nat} (hi : i < g.nodes.size) (hn : n < g.nodes.size)
    (harmed : g.isArmed n = false) :
    ∃ g', g.link i n = .pure g' (g.records i n) ∧ Wired g n [i] g' :=
  link_of_not_refuses hi hn (refuses_of_not_armed harmed i)

/-- Wiring edges from several sources none of which is refused succeeds, and answers how many were
recorded. -/
theorem linkAll_of_not_refuses {g : Graph κ} {n : Nat} {sources : List NodeId}
    (hsources : ∀ i : Nat, i ∈ sources → i < g.nodes.size) (hn : n < g.nodes.size)
    (hrefuses : ∀ i ∈ sources, g.refuses i n = false) :
    ∃ g', g.linkAll sources n = .pure g' (sources.countP (g.records · n)) ∧
      Wired g n sources g' := by
  induction sources generalizing g with
  | nil => exact ⟨g, rfl, .refl g n⟩
  | cons i rest ih =>
    obtain ⟨g₁, hlink, hwired⟩ := link_of_not_refuses (hsources i (by simp)) hn
      (hrefuses i List.mem_cons_self)
    obtain ⟨g₂, hrest, hwired'⟩ := ih (g := g₁)
      (fun j hj => by rw [hwired.size]; exact hsources j (by simp [hj]))
      (by rw [hwired.size]; exact hn)
      (fun j hj => by rw [hwired.refuses]; exact hrefuses j (List.mem_cons_of_mem i hj))
    refine ⟨g₂, ?_, hwired.trans hwired'⟩
    have hrec : rest.countP (g₁.records · n) = rest.countP (g.records · n) := by
      simp only [hwired.records]
    unfold linkAll
    rw [hlink, Outcome.bind_pure, hrest, Outcome.map_pure, hrec, List.countP_cons]
    cases g.records i n <;> rfl

/-- Wiring edges from several sources onto a node not yet submitted succeeds. -/
theorem linkAll_spec {g : Graph κ} {n : Nat} {sources : List NodeId}
    (hsources : ∀ i : Nat, i ∈ sources → i < g.nodes.size) (hn : n < g.nodes.size)
    (harmed : g.isArmed n = false) :
    ∃ g', g.linkAll sources n = .pure g' (sources.countP (g.records · n)) ∧
      Wired g n sources g' :=
  linkAll_of_not_refuses hsources hn fun i _ => refuses_of_not_armed harmed i

end HazardFlow.Graph
