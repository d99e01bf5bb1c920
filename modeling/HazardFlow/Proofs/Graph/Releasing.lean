import HazardFlow.Proofs.Graph.Wiring

/-!
# Releasing successors

A node that completes takes one edge from each of its successors for every entry in its list. The
walk through that list is summed up by the entries walked through and by the nodes claimed on the
way: those are the unclaimed nodes of armed batches whose in-degree the walk brings to zero. A
fault ends the walk early, and the same description then holds of what was walked.
-/

namespace HazardFlow

variable {κ β : Type}

/-- Handing on changes at most the work of the node handed on, and what it makes names the node. -/
structure Hand.Faithful (hand : Hand κ β) (nodeOf : β → NodeId) : Prop where
  state : ∀ (g : Graph κ) (n : Nat), (hand g n).state = g ∨
    (hand g n).state = g.updateNode n ({ · with work := none })
  item : ∀ (g : Graph κ) (n : Nat) (b : β), (hand g n).result = .ok b → nodeOf b = n

/-- Handing on changes no list of successors. -/
theorem Hand.Faithful.entries {hand : Hand κ β} {nodeOf : β → NodeId}
    (hhand : hand.Faithful nodeOf) (g : Graph κ) (n i : Nat) :
    (hand g n).state.entries i = g.entries i := by
  rcases hhand.state g n with heq | heq
  · rw [heq]
  · rw [heq, Graph.entries_updateNode]

/-- Handing on keeps all fields of nodes but their works. -/
theorem Hand.Faithful.field {α : Type} {hand : Hand κ β} {nodeOf : β → NodeId}
    (hhand : hand.Faithful nodeOf) (g : Graph κ) (φ : Node κ → α) (n m : Nat)
    (hφ : ∀ x, φ { x with work := none } = φ x := by intro x; rfl) :
    φ ((hand g n).state.node m) = φ (g.node m) := by
  rcases hhand.state g n with heq | heq
  · rw [heq]
  · rw [heq]
    exact Graph.field_updateNode φ m hφ

/-- Handing on claims nothing. -/
theorem Hand.Faithful.claimed {hand : Hand κ β} {nodeOf : β → NodeId}
    (hhand : hand.Faithful nodeOf) (g : Graph κ) (n m : Nat) :
    ((hand g n).state.node m).claimed = (g.node m).claimed := hhand.field g Node.claimed n m

namespace Graph

/-- A claim claims no other node. -/
theorem claimed_claim {g : Graph κ} {n : Nat} (hn : n < g.nodes.size) (m : Nat) :
    ((g.claim n).1.node m).claimed = true ↔ (g.node m).claimed = true ∨ m = n := by
  unfold claim
  by_cases hm : n = m
  · subst hm
    rw [node_updateNode_self _ hn]
    exact iff_of_true rfl (Or.inr rfl)
  · rw [node_updateNode_of_ne _ hm]
    exact ⟨Or.inl, fun h => h.resolve_right (Ne.symm hm)⟩

/-- Making the first job of a node takes its work and nothing else. -/
theorem faithful_takeJob (grain : Nat) :
    Hand.Faithful (fun g n => takeJob (κ := κ) g n grain) Job.node where
  state g n := by
    unfold takeJob
    cases (g.node n).work with
    | none => exact Or.inl rfl
    | some work =>
      right
      cases work with
      | range span call => cases hc : Cursor.ofSpan span grain <;> simp [hc]
      | _ => rfl
  item g n job h := by
    unfold takeJob at h
    cases hw : (g.node n).work with
    | none => simp [hw, Outcome.fail] at h
    | some work =>
      cases work with
      | range span call =>
        cases hc : Cursor.ofSpan span grain with
        | ok cursor =>
          simp only [hw, hc, Outcome.pure, Except.ok.injEq] at h
          rw [← h]
        | error fault => simp [hw, hc, Outcome.fail] at h
      | _ =>
        simp only [hw, Outcome.pure, Except.ok.injEq] at h
        rw [← h]

/-- The second graph is the first after the entries `walked` took their edges, with the nodes of
`ready` claimed in this order. -/
structure Released (g : Graph κ) (walked ready : List NodeId) (g' : Graph κ) : Prop where
  size : g'.nodes.size = g.nodes.size
  batches : g'.batches = g.batches
  /-- Nothing changes but in-degrees, claims and work. -/
  node : ∀ m : Nat, g'.node m =
    { g.node m with
      inDegree := (g'.node m).inDegree, claimed := (g'.node m).claimed, work := (g'.node m).work }
  inDegree : ∀ m : Nat, (g'.node m).inDegree = (g.node m).inDegree - (walked.count m : Int)
  claimed : ∀ m : Nat, (g'.node m).claimed = true ↔ (g.node m).claimed = true ∨ m ∈ ready
  /-- Only nodes that were claimed lose their work. -/
  work : ∀ m : Nat, m ∉ ready → (g'.node m).work = (g.node m).work
  mem_ready : ∀ m : Nat, m ∈ ready ↔ (g.node m).claimed = false ∧ g.isArmed m = true ∧
    1 ≤ (g.node m).inDegree ∧ (g.node m).inDegree ≤ (walked.count m : Int)
  nodup : ready.Nodup

namespace Released

variable {g g' g'' : Graph κ} {walked ready : List NodeId}

theorem successors (h : Released g walked ready g') (m : Nat) :
    (g'.node m).successors = (g.node m).successors := by rw [h.node m]

theorem parts (h : Released g walked ready g') (m : Nat) :
    (g'.node m).parts = (g.node m).parts := by rw [h.node m]

theorem batchOf (h : Released g walked ready g') (m : Nat) :
    (g'.node m).batch = (g.node m).batch := by rw [h.node m]

theorem isComplete (h : Released g walked ready g') (m : Nat) :
    g'.isComplete m = g.isComplete m := by
  simp only [Graph.isComplete, Node.isComplete, h.successors]

theorem entries (h : Released g walked ready g') (m : Nat) : g'.entries m = g.entries m := by
  simp only [Graph.entries, h.successors]

theorem edgeCount (h : Released g walked ready g') (m : Nat) :
    g'.edgeCount m = g.edgeCount m :=
  total_congr h.size fun i => by rw [h.successors]

theorem batch (h : Released g walked ready g') (b : Nat) : g'.batch b = g.batch b := by
  simp only [Graph.batch, h.batches]

theorem isArmed (h : Released g walked ready g') (m : Nat) : g'.isArmed m = g.isArmed m := by
  simp only [Graph.isArmed, h.batchOf, h.batch]

/-- Walking through nothing changes nothing. -/
theorem refl (g : Graph κ) : Released g [] [] g where
  size := rfl
  batches := rfl
  node _ := rfl
  inDegree m := by simp
  claimed m := by simp
  work _ _ := rfl
  mem_ready m := by
    simp only [List.not_mem_nil, List.count_nil, false_iff]
    omega
  nodup := List.nodup_nil

/-- Walks compose: a node is claimed by the part of the walk that takes its last edge. -/
theorem trans {more later : List NodeId} (h : Released g walked ready g')
    (h' : Released g' more later g'') : Released g (walked ++ more) (ready ++ later) g'' where
  size := h'.size.trans h.size
  batches := h'.batches.trans h.batches
  node m := by rw [h'.node m, h.node m]
  inDegree m := by
    rw [h'.inDegree, h.inDegree, List.count_append]
    omega
  claimed m := by rw [h'.claimed, h.claimed, List.mem_append, or_assoc]
  work m hm := by
    rw [List.mem_append, not_or] at hm
    rw [h'.work m hm.2, h.work m hm.1]
  mem_ready m := by
    have hclaimed := h.claimed m
    have hfirst := h.mem_ready m
    rw [hfirst] at hclaimed
    rw [List.mem_append, h'.mem_ready, hfirst, h.isArmed, h.inDegree, List.count_append,
      ← Bool.not_eq_true (g'.node m).claimed, hclaimed]
    constructor
    · rintro (⟨hc, ha, hone, hle⟩ | ⟨hc, ha, hone, hle⟩)
      · exact ⟨hc, ha, hone, by push_cast; omega⟩
      · rw [not_or] at hc
        exact ⟨by simpa using hc.1, ha, by omega, by push_cast; omega⟩
    · rintro ⟨hc, ha, hone, hle⟩
      push_cast at hle
      by_cases hearly : (g.node m).inDegree ≤ (walked.count m : Int)
      · exact Or.inl ⟨hc, ha, hone, hearly⟩
      · refine Or.inr ⟨?_, ha, by omega, by omega⟩
        rintro (hyes | ⟨_, _, _, hle'⟩)
        · rw [hc] at hyes; cases hyes
        · exact hearly hle'
  nodup := by
    rw [List.nodup_append]
    refine ⟨h.nodup, h'.nodup, fun m hm m' hm' heq => ?_⟩
    subst heq
    have hfree := ((h'.mem_ready m).mp hm').1
    rw [(h.claimed m).mpr (Or.inr hm)] at hfree
    cases hfree

/-- Handing on a claimed node keeps the description of the walk. -/
theorem hand {hand : Hand κ β} {nodeOf : β → NodeId} (hhand : hand.Faithful nodeOf) {n : Nat}
    (h : Released g walked ready g') (hn : n ∈ ready) :
    Released g walked ready (hand g' n).state := by
  rcases hhand.state g' n with heq | heq
  · rw [heq]; exact h
  · rw [heq]
    have hkeep {α : Type} (φ : Node κ → α) (m : Nat)
        (hφ : ∀ x : Node κ, φ { x with work := none } = φ x) :
        φ ((g'.updateNode n ({ · with work := none })).node m) = φ (g'.node m) :=
      field_updateNode φ m hφ
    refine ⟨by rw [size_nodes_updateNode, h.size], h.batches, fun m => ?_, fun m => ?_, fun m => ?_,
      fun m hm => ?_, h.mem_ready, h.nodup⟩
    · by_cases hm : n = m
      · subst hm
        by_cases hlt : n < g'.nodes.size
        · rw [node_updateNode_self _ hlt, h.node n]
        · rw [node_of_size_le (by simpa using hlt)]
          have hdefault := h.node n
          rw [node_of_size_le (by omega), node_of_size_le (by rw [← h.size]; omega)] at hdefault
          rw [node_of_size_le (by rw [← h.size]; omega)]
      · rw [node_updateNode_of_ne _ hm, h.node m]
    · rw [hkeep Node.inDegree m fun _ => rfl, h.inDegree]
    · rw [hkeep Node.claimed m fun _ => rfl, h.claimed]
    · have hne : n ≠ m := by
        rintro rfl
        exact hm hn
      rw [node_updateNode_of_ne _ hne, h.work m hm]

end Released

/-- Whether taking one edge from a node leaves it with nothing to wait for in an armed batch. -/
def becomesReady (g : Graph κ) (n : NodeId) : Bool := (g.node n).inDegree == 1 && g.isArmed n

/-- A release takes an edge from the node, and claims it if that was what it waited for. -/
theorem node_release_self {g : Graph κ} {n : Nat} (hn : n < g.nodes.size) :
    (g.release n).1.node n =
      { g.node n with
        inDegree := (g.node n).inDegree - 1
        claimed := (g.node n).claimed || g.becomesReady n } := by
  have hself := node_updateNode_self (fun m => { m with inDegree := m.inDegree - 1 }) hn
  have hn' : n < (g.updateNode n fun m => { m with inDegree := m.inDegree - 1 }).nodes.size := by
    simpa using hn
  unfold release becomesReady isArmed
  simp only [hself, batch_updateNode]
  split
  · next hready =>
    unfold claim
    rw [node_updateNode_self _ hn', hself, hready, Bool.or_true]
  · next hready =>
    rw [Bool.not_eq_true] at hready
    rw [hself, hready, Bool.or_false]

/-- A release leaves the other nodes as they are. -/
theorem node_release_of_ne {g : Graph κ} {n m : Nat} (h : n ≠ m) :
    (g.release n).1.node m = g.node m := by
  unfold release
  dsimp only
  split
  · unfold claim
    rw [node_updateNode_of_ne _ h, node_updateNode_of_ne _ h]
  · rw [node_updateNode_of_ne _ h]

/-- A release wins the claim of a node that nobody had claimed. -/
theorem release_claims {g : Graph κ} {n : Nat} (hn : n < g.nodes.size) :
    (g.release n).2 = (!(g.node n).claimed && g.becomesReady n) := by
  have hself := node_updateNode_self (fun m => { m with inDegree := m.inDegree - 1 }) hn
  unfold release becomesReady isArmed
  simp only [hself, batch_updateNode]
  split
  · next hready =>
    unfold claim
    rw [hself, hready, Bool.and_true]
  · next hready =>
    rw [Bool.not_eq_true] at hready
    rw [hready, Bool.and_false]

/-- Taking one edge from a node claims it when that was the last one, the batch is armed and the
node was not claimed. -/
theorem release_spec {g : Graph κ} {n : Nat} (hn : n < g.nodes.size) :
    Released g [n] (if (g.release n).2 then [n] else []) (g.release n).1 := by
  have hself := node_release_self hn
  have hmem : ∀ m : Nat, m ∈ (if (g.release n).2 then [n] else []) ↔
      m = n ∧ (g.node n).claimed = false ∧ g.becomesReady n = true := by
    intro m
    rw [release_claims hn]
    cases (g.node n).claimed <;> cases g.becomesReady n <;> simp
  have hcount : ∀ m : Nat, n ≠ m → [n].count m = 0 := fun m hm =>
    List.count_eq_zero.mpr (by simpa using Ne.symm hm)
  refine ⟨?_, ?_, fun m => ?_, fun m => ?_, fun m => ?_, fun m _ => ?_, fun m => ?_, ?_⟩
  · unfold release claim
    dsimp only
    split <;> simp
  · unfold release claim
    dsimp only
    split <;> rfl
  · by_cases hm : n = m
    · subst hm
      rw [hself]
    · rw [node_release_of_ne hm]
  · by_cases hm : n = m
    · subst hm
      rw [hself, List.count_singleton_self]
      rfl
    · rw [node_release_of_ne hm, hcount m hm]
      simp
  · rw [hmem]
    by_cases hm : n = m
    · subst hm
      rw [hself]
      cases (g.node n).claimed <;> simp
    · rw [node_release_of_ne hm]
      simp [Ne.symm hm]
  · by_cases hm : n = m
    · subst hm
      rw [hself]
    · rw [node_release_of_ne hm]
  · rw [hmem]
    by_cases hm : n = m
    · subst hm
      rw [List.count_singleton_self]
      simp only [becomesReady, Bool.and_eq_true, beq_iff_eq, true_and, Int.natCast_one]
      constructor
      · rintro ⟨hc, hone, ha⟩
        exact ⟨hc, ha, by omega, by omega⟩
      · rintro ⟨hc, ha, hge, hle⟩
        exact ⟨hc, by omega, ha⟩
    · rw [hcount m hm]
      constructor
      · rintro ⟨heq, _⟩
        exact absurd heq.symm hm
      · rintro ⟨_, _, hge, hle⟩
        omega
  · split <;> simp

/-- What releasing a list of nodes leaves behind. Without a fault the whole list was walked and
every node claimed was handed on; a fault ends the walk at a node that was claimed in vain. -/
structure Walk (nodeOf : β → NodeId) (g : Graph κ) (l walked ready : List NodeId)
    (handed : Handed κ β) : Prop where
  released : Released g walked ready handed.graph
  walked_isPrefix : walked <+: l
  items_isPrefix : handed.items.map nodeOf <+: ready
  complete : handed.fault = none → walked = l ∧ handed.items.map nodeOf = ready

/-- The nodes that releasing a list of nodes claims and passes on, in order. The walk ends at a
node that cannot be handed on. -/
def passedOn (hand : Hand κ β) (g : Graph κ) : List NodeId → List NodeId
  | [] => []
  | n :: rest =>
    match g.release n with
    | (g, false) => passedOn hand g rest
    | (g, true) =>
      match hand g n with
      | ⟨_, .error _⟩ => [n]
      | ⟨g, .ok _⟩ => n :: passedOn hand g rest

/-- A node that is passed on is handed on, or is the one that a fault stops at. -/
theorem length_passedOn (hand : Hand κ β) (g : Graph κ) (l : List NodeId) :
    (passedOn hand g l).length =
      (releaseAll hand g l).items.length + (releaseAll hand g l).fault.toList.length := by
  induction l generalizing g with
  | nil => rfl
  | cons n rest ih =>
    unfold passedOn releaseAll
    cases g.release n with
    | mk g₁ claimed =>
    cases claimed with
    | false => exact ih g₁
    | true =>
      dsimp only
      cases hand g₁ n with
      | mk g₂ result =>
      cases result with
      | error fault => rfl
      | ok item =>
        dsimp only
        rw [List.length_cons, List.length_cons, ih g₂]
        omega

/-- Releasing a list of nodes walks through it. -/
theorem exists_walk_releaseAll {hand : Hand κ β} {nodeOf : β → NodeId}
    (hhand : hand.Faithful nodeOf) {g : Graph κ} {l : List NodeId}
    (hl : ∀ m : Nat, m ∈ l → m < g.nodes.size) :
    ∃ walked, Walk nodeOf g l walked (passedOn hand g l) (releaseAll hand g l) := by
  induction l generalizing g with
  | nil => exact ⟨[], .refl g, List.prefix_rfl, List.prefix_rfl, fun _ => ⟨rfl, rfl⟩⟩
  | cons n rest ih =>
    have hstep := release_spec (hl n (by simp))
    have hrest {g₁ : Graph κ} (hsize : g₁.nodes.size = g.nodes.size) (m : Nat) (hm : m ∈ rest) :
        m < g₁.nodes.size := by
      rw [hsize]
      exact hl m (by simp [hm])
    unfold releaseAll passedOn
    cases hr : g.release n with
    | mk g₁ claimed =>
    rw [hr] at hstep
    cases claimed with
    | false =>
      obtain ⟨walked, hwalk⟩ := ih (hrest hstep.size)
      refine ⟨n :: walked, hstep.trans hwalk.released, ?_, hwalk.items_isPrefix, ?_⟩
      · exact (List.prefix_cons_inj n).mpr hwalk.walked_isPrefix
      · intro hfault
        obtain ⟨hwalked, hitems⟩ := hwalk.complete hfault
        exact ⟨by rw [hwalked], hitems⟩
    | true =>
      have hhanded := hstep.hand hhand (n := n) (by simp)
      simp only
      cases hh : hand g₁ n with
      | mk g₂ result =>
      rw [hh] at hhanded
      cases result with
      | error fault =>
        refine ⟨[n], hhanded, ?_, List.nil_prefix, fun hfault => nomatch hfault⟩
        exact (List.prefix_cons_inj n).mpr List.nil_prefix
      | ok item =>
        have hitem : nodeOf item = n := hhand.item g₁ n item (by rw [hh])
        obtain ⟨walked, hwalk⟩ := ih (hrest hhanded.size)
        refine ⟨n :: walked, hhanded.trans hwalk.released, ?_, ?_, ?_⟩
        · exact (List.prefix_cons_inj n).mpr hwalk.walked_isPrefix
        · rw [List.map_cons, hitem]
          exact (List.prefix_cons_inj n).mpr hwalk.items_isPrefix
        · intro hfault
          obtain ⟨hwalked, hitems⟩ := hwalk.complete hfault
          exact ⟨by rw [hwalked], by rw [List.map_cons, hitem, hitems]⟩

/-- The graph in which a node has lost a part and its list of successors is closed. -/
def retire (g : Graph κ) (n : NodeId) : Graph κ :=
  g.updateNode n fun m => { m with parts := m.parts - 1, successors := .closed }

/-- A retired node has lost a part and is complete. -/
theorem node_retire_self {g : Graph κ} {n : Nat} (hn : n < g.nodes.size) :
    (g.retire n).node n =
      { g.node n with parts := (g.node n).parts - 1, successors := .closed } :=
  node_updateNode_self _ hn

/-- The other nodes stay as they are. -/
theorem node_retire_of_ne {g : Graph κ} {n m : Nat} (h : n ≠ m) :
    (g.retire n).node m = g.node m :=
  node_updateNode_of_ne _ h

@[simp] theorem size_nodes_retire (g : Graph κ) (n : Nat) :
    (g.retire n).nodes.size = g.nodes.size := size_nodes_updateNode ..

theorem isArmed_retire (g : Graph κ) (n m : Nat) : (g.retire n).isArmed m = g.isArmed m :=
  isArmed_updateNode m

/-- Closing a list adds no entries. -/
theorem entries_retire_subset {g : Graph κ} {n : Nat} (hn : n < g.nodes.size) (i : Nat) :
    (g.retire n).entries i ⊆ g.entries i := by
  unfold entries
  by_cases hi : n = i
  · subst hi
    rw [node_retire_self hn]
    exact List.nil_subset _
  · rw [node_retire_of_ne hi]
    exact List.Subset.refl _

/-- The edges of a retired node's list are gone. -/
theorem edgeCount_retire {g : Graph κ} {n : Nat} (hn : n < g.nodes.size) (m : Nat) :
    (g.retire n).edgeCount m + (g.entries n).count m = g.edgeCount m := by
  have htotal : (g.retire n).total (fun x => x.successors.entries.count m) +
      (g.node n).successors.entries.count m = g.total (fun x => x.successors.entries.count m) +
      ((g.retire n).node n).successors.entries.count m :=
    total_of_single (fun x => x.successors.entries.count m) (size_nodes_retire g n) hn
      (fun k hk => by rw [node_retire_of_ne (Ne.symm hk)])
  rw [node_retire_self hn, SealableList.entries_closed, List.count_nil, Nat.add_zero] at htotal
  exact htotal

/-- While other parts are outstanding, finishing one only counts it. -/
theorem finishPart_of_ne_one (hand : Hand κ β) {g : Graph κ} {n : Nat}
    (h : (g.node n).parts ≠ 1) :
    finishPart hand g n = ⟨g.updateNode n fun m => { m with parts := m.parts - 1 }, [], none⟩ := by
  unfold finishPart
  simp [h]

/-- What finishing a part of a node leaves behind. -/
inductive Finished (hand : Hand κ β) (nodeOf : β → NodeId) (g : Graph κ) (n : NodeId) :
    Handed κ β → Prop where
  /-- Other parts are outstanding. -/
  | part (hparts : (g.node n).parts ≠ 1) : Finished hand nodeOf g n
      ⟨g.updateNode n fun m => { m with parts := m.parts - 1 }, [], none⟩
  /-- The node completes, but a successor could not be handed on. -/
  | stopped {walked : List NodeId} (hparts : (g.node n).parts = 1)
      (hwalk : Walk nodeOf (g.retire n) (g.entries n) walked
        (passedOn hand (g.retire n) (g.entries n)) (releaseAll hand (g.retire n) (g.entries n)))
      (hfault : (releaseAll hand (g.retire n) (g.entries n)).fault ≠ none) :
      Finished hand nodeOf g n (releaseAll hand (g.retire n) (g.entries n))
  /-- The node completes and its batch counts it. -/
  | last {walked : List NodeId} (hparts : (g.node n).parts = 1)
      (hwalk : Walk nodeOf (g.retire n) (g.entries n) walked
        (passedOn hand (g.retire n) (g.entries n)) (releaseAll hand (g.retire n) (g.entries n)))
      (hfault : (releaseAll hand (g.retire n) (g.entries n)).fault = none) :
      Finished hand nodeOf g n
        { releaseAll hand (g.retire n) (g.entries n) with
          graph := (releaseAll hand (g.retire n) (g.entries n)).graph.finishOne (g.node n).batch }

/-- The nodes that finishing a part of a node claims and passes on, in order. -/
def passedOnBy (hand : Hand κ β) (g : Graph κ) (n : NodeId) : List NodeId :=
  if (g.node n).parts = 1 then passedOn hand (g.retire n) (g.entries n) else []

/-- Retiring a node claims nothing. -/
theorem claimed_retire (g : Graph κ) (n m : Nat) :
    ((g.retire n).node m).claimed = (g.node m).claimed := field_updateNode Node.claimed m

/-- What finishing a part passes on is what it claims, and was not claimed before. -/
theorem Finished.claimed {hand : Hand κ β} {nodeOf : β → NodeId} {g : Graph κ} {n : Nat}
    {handed : Handed κ β} (h : Finished hand nodeOf g n handed) :
    (∀ m : Nat, (handed.graph.node m).claimed = true ↔
      (g.node m).claimed = true ∨ m ∈ passedOnBy hand g n) ∧
    (passedOnBy hand g n).Nodup ∧ ∀ m ∈ passedOnBy hand g n, (g.node m).claimed = false := by
  have hof {walked : List NodeId} {g' : Graph κ}
      (hr : Released (g.retire n) walked (passedOn hand (g.retire n) (g.entries n)) g') :
      (∀ m : Nat, (g'.node m).claimed = true ↔
        (g.node m).claimed = true ∨ m ∈ passedOn hand (g.retire n) (g.entries n)) ∧
      (passedOn hand (g.retire n) (g.entries n)).Nodup ∧
      ∀ m ∈ passedOn hand (g.retire n) (g.entries n), (g.node m).claimed = false := by
    refine ⟨fun m => ?_, hr.nodup, fun m hm => ?_⟩
    · rw [hr.claimed, claimed_retire]
    · rw [← claimed_retire g n m]
      exact ((hr.mem_ready m).mp hm).1
  unfold passedOnBy
  cases h with
  | part hparts =>
    rw [if_neg hparts]
    refine ⟨fun m => ?_, List.nodup_nil, fun m hm => absurd hm List.not_mem_nil⟩
    rw [field_updateNode Node.claimed m]
    simp
  | stopped hparts hwalk _ =>
    rw [if_pos hparts]
    exact hof hwalk.released
  | last hparts hwalk _ =>
    rw [if_pos hparts]
    have hlast := hof hwalk.released
    exact hlast

/-- Finishing a part takes it from its node and from no other one. -/
theorem Finished.parts {hand : Hand κ β} {nodeOf : β → NodeId} {g : Graph κ} {n : Nat}
    {handed : Handed κ β} (h : Finished hand nodeOf g n handed) (hn : n < g.nodes.size) (m : Nat) :
    (handed.graph.node m).parts = (g.node m).parts - if m = n then 1 else 0 := by
  have hof {f : Node κ → Node κ} (hf : ∀ x, (f x).parts = x.parts - 1) :
      ((g.updateNode n f).node m).parts = (g.node m).parts - if m = n then 1 else 0 := by
    by_cases hm : m = n
    · subst hm
      rw [node_updateNode_self _ hn, hf, if_pos rfl]
    · rw [node_updateNode_of_ne _ (Ne.symm hm), if_neg hm, Int.sub_zero]
  cases h with
  | part _ => exact hof fun _ => rfl
  | stopped _ hwalk _ => exact (hwalk.released.parts m).trans (hof fun _ => rfl)
  | last _ hwalk _ => exact (hwalk.released.parts m).trans (hof fun _ => rfl)

/-- Finishing a part completes its node if it was the last one, and no other node. -/
theorem Finished.isComplete {hand : Hand κ β} {nodeOf : β → NodeId} {g : Graph κ} {n : Nat}
    {handed : Handed κ β} (h : Finished hand nodeOf g n handed) (hn : n < g.nodes.size) (m : Nat) :
    handed.graph.isComplete m = true ↔
      g.isComplete m = true ∨ m = n ∧ (g.node n).parts = 1 := by
  have hretired (hparts : (g.node n).parts = 1) : (g.retire n).isComplete m = true ↔
      g.isComplete m = true ∨ m = n ∧ (g.node n).parts = 1 := by
    unfold Graph.isComplete
    by_cases hm : m = n
    · subst hm
      rw [node_retire_self hn]
      exact iff_of_true rfl (Or.inr ⟨rfl, hparts⟩)
    · rw [node_retire_of_ne (Ne.symm hm)]
      exact ⟨Or.inl, fun hyes => hyes.resolve_right fun hlast => hm hlast.1⟩
  cases h with
  | part hparts =>
    have hkept : (g.updateNode n fun m => { m with parts := m.parts - 1 }).isComplete m =
        g.isComplete m := field_updateNode Node.isComplete m
    rw [hkept]
    exact ⟨Or.inl, fun hyes => hyes.resolve_right fun hlast => hparts hlast.2⟩
  | stopped hparts hwalk _ =>
    rw [hwalk.released.isComplete]
    exact hretired hparts
  | last hparts hwalk _ =>
    have hkept := hwalk.released.isComplete m
    rw [← hretired hparts, ← hkept]
    rfl

/-- Finishing a part takes the works of the nodes passed on at most. -/
theorem Finished.work {hand : Hand κ β} {nodeOf : β → NodeId} {g : Graph κ} {n : Nat}
    {handed : Handed κ β} (h : Finished hand nodeOf g n handed) {m : Nat}
    (hm : m ∉ passedOnBy hand g n) : (handed.graph.node m).work = (g.node m).work := by
  have hkept : ((g.retire n).node m).work = (g.node m).work := field_updateNode Node.work m
  unfold passedOnBy at hm
  cases h with
  | part _ => exact field_updateNode Node.work m
  | stopped hparts hwalk _ =>
    rw [if_pos hparts] at hm
    exact (hwalk.released.work m hm).trans hkept
  | last hparts hwalk _ =>
    rw [if_pos hparts] at hm
    exact (hwalk.released.work m hm).trans hkept

/-- What is handed on are the nodes passed on, up to one that a fault stops at. -/
theorem Finished.items {hand : Hand κ β} {nodeOf : β → NodeId} {g : Graph κ} {n : Nat}
    {handed : Handed κ β} (h : Finished hand nodeOf g n handed) :
    handed.items.map nodeOf <+: passedOnBy hand g n ∧
      (passedOnBy hand g n).length = handed.items.length + handed.fault.toList.length := by
  unfold passedOnBy
  cases h with
  | part hparts =>
    rw [if_neg hparts]
    exact ⟨List.prefix_rfl, rfl⟩
  | stopped hparts hwalk _ =>
    rw [if_pos hparts]
    exact ⟨hwalk.items_isPrefix, length_passedOn hand _ _⟩
  | last hparts hwalk hnone =>
    rw [if_pos hparts]
    refine ⟨hwalk.items_isPrefix, ?_⟩
    rw [← (hwalk.complete hnone).2, List.length_map]
    simp [hnone]

/-- Finishing a part adds no entries. -/
theorem Finished.entries_subset {hand : Hand κ β} {nodeOf : β → NodeId} {g : Graph κ} {n : Nat}
    {handed : Handed κ β} (h : Finished hand nodeOf g n handed) (hn : n < g.nodes.size)
    (i : Nat) : handed.graph.entries i ⊆ g.entries i := by
  cases h with
  | part _ =>
    rw [entries_updateNode]
    exact List.Subset.refl _
  | stopped _ hwalk _ =>
    rw [hwalk.released.entries]
    exact entries_retire_subset hn i
  | last _ hwalk _ =>
    intro m hm
    refine entries_retire_subset hn i ?_
    rw [← hwalk.released.entries]
    exact hm

/-- Finishing a part of an incomplete node whose successors exist. -/
theorem finished_finishPart {hand : Hand κ β} {nodeOf : β → NodeId} (hhand : hand.Faithful nodeOf)
    {g : Graph κ} {n : Nat} (hn : n < g.nodes.size) (hopen : g.isComplete n = false)
    (hentries : ∀ m : Nat, m ∈ g.entries n → m < g.nodes.size) :
    Finished hand nodeOf g n (finishPart hand g n) := by
  by_cases hparts : (g.node n).parts = 1
  · obtain ⟨walked, hwalk⟩ := exists_walk_releaseAll hhand
      (g := g.retire n) (l := g.entries n) (by simpa using hentries)
    set lowered := g.updateNode n fun m => { m with parts := m.parts - 1 } with hlowered
    have hself : lowered.node n = { g.node n with parts := (g.node n).parts - 1 } := by
      rw [hlowered, node_updateNode_self _ hn]
    have hclosed : lowered.updateNode n ({ · with successors := .closed }) = g.retire n := by
      rw [hlowered, updateNode_updateNode]
      rfl
    have hbatch : ((g.retire n).node n).batch = (g.node n).batch := by
      unfold retire
      exact field_updateNode Node.batch n
    cases hs : (g.node n).successors with
    | closed => simp [isComplete, Node.isComplete, hs] at hopen
    | growing l =>
      have hlist : l = g.entries n := by rw [entries, hs, SealableList.entries_growing]
      unfold finishPart
      simp only [hparts, beq_self_eq_true, if_true, ← hlowered, hself, hs, SealableList.close,
        Outcome.pure, hclosed, hbatch]
      rw [hlist]
      split
      · next hfault => exact .stopped hparts hwalk (by rw [hfault]; exact Option.some_ne_none _)
      · next hfault => exact .last hparts hwalk hfault
  · rw [finishPart_of_ne_one hand hparts]
    exact .part hparts

end Graph

end HazardFlow
