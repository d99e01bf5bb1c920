import HazardFlow.Proofs.Graph.Accounting
import HazardFlow.Proofs.Graph.Settling
import HazardFlow.Proofs.Graph.Soundness
import Mathlib.Data.List.Dedup

/-!
# What a completion makes ready

A node may stand several times in the list of a node that completes. The walk through the list takes
an edge for every entry and finds the node ready at the last one, if these entries are all the edges
that the node waits for. As the list has its newest entry first, nodes are handed on in the reverse
order of their oldest entries.
-/

namespace HazardFlow.Graph

variable {κ β : Type}

/-- Whether a walk makes a node ready: its entries are all the edges that the node waits for, its
batch is armed, and nobody has claimed it. -/
def isReadied (g : Graph κ) (walked : List NodeId) (n : NodeId) : Bool :=
  (g.node n).inDegree == (walked.count n : Int) && g.isArmed n && !(g.node n).claimed

/-- The nodes that a walk makes ready, in the order of their last entries. -/
def readied (g : Graph κ) (walked : List NodeId) : List NodeId :=
  walked.dedup.filter (g.isReadied walked)

/-- No node is named more often than it waits for edges. -/
def Allows (g : Graph κ) (walked : List NodeId) : Prop :=
  ∀ n : Nat, (walked.count n : Int) ≤ (g.node n).inDegree

/-- Ready nodes are handed on in order, all of them or up to one that cannot be handed on. -/
structure HandsOn (hand : Hand κ β) (nodeOf : β → NodeId) (g : Graph κ) (ready : List NodeId)
    (handed : Handed κ β) : Prop where
  all : handed.fault = none → handed.items.map nodeOf = ready
  stopped : ∀ fault, handed.fault = some fault →
    ∃ n, handed.items.map nodeOf ++ [n] <+: ready ∧ (hand g n).result = .error fault

section Readied

variable {hand : Hand κ β} {nodeOf : β → NodeId} {g g' : Graph κ} {n m : NodeId}
  {walked rest ready : List NodeId} {handed : Handed κ β}

theorem isReadied_iff : g.isReadied walked m = true ↔
    (g.node m).inDegree = (walked.count m : Int) ∧ g.isArmed m = true ∧
      (g.node m).claimed = false := by
  unfold isReadied
  rw [Bool.and_eq_true, Bool.and_eq_true, beq_iff_eq, Bool.not_eq_true', and_assoc]

theorem mem_readied : m ∈ g.readied walked ↔ m ∈ walked ∧
    (g.node m).inDegree = (walked.count m : Int) ∧ g.isArmed m = true ∧
      (g.node m).claimed = false := by
  unfold readied
  rw [List.mem_filter, List.mem_dedup, isReadied_iff]

theorem nodup_readied (g : Graph κ) (walked : List NodeId) : (g.readied walked).Nodup :=
  (List.nodup_dedup walked).filter _

/-- Which nodes a walk makes ready depends on in-degrees, claims and armed batches. -/
theorem readied_congr
    (hnode : ∀ m ∈ walked, (g'.node m).inDegree = (g.node m).inDegree ∧
      (g'.node m).claimed = (g.node m).claimed ∧ g'.isArmed m = g.isArmed m) :
    g'.readied walked = g.readied walked := by
  refine List.filter_congr fun m hm => ?_
  obtain ⟨hdegree, hclaimed, harmed⟩ := hnode m (List.mem_dedup.mp hm)
  unfold isReadied
  rw [hdegree, hclaimed, harmed]

/-- No fault stops the walk when every node that it makes ready can be handed on. -/
theorem HandsOn.fault_eq_none (h : HandsOn hand nodeOf g ready handed)
    (hserved : ∀ m ∈ ready, ∃ item, (hand g m).result = .ok item) : handed.fault = none := by
  rw [Option.eq_none_iff_forall_ne_some]
  intro fault hfault
  obtain ⟨m, hinit, herror⟩ := h.stopped fault hfault
  obtain ⟨item, hitem⟩ := hserved m (hinit.mem (by simp))
  rw [hitem] at herror
  exact nomatch herror

/-- A walk through one entry claims the node that it names, or nothing. -/
theorem Released.eq_singleton (h : Released g [n] ready g') :
    ready = if n ∈ ready then [n] else [] := by
  have hall (m : NodeId) (hm : m ∈ ready) : m = n := by
    by_contra hne
    obtain ⟨_, _, hone, hle⟩ := (h.mem_ready m).mp hm
    rw [List.count_eq_zero.mpr (by simpa using hne)] at hle
    omega
  split
  · next hyes =>
    refine List.perm_singleton.mp ((List.perm_ext_iff_of_nodup h.nodup
      (List.nodup_singleton n)).mpr fun m => ?_)
    rw [List.mem_singleton]
    exact ⟨hall m, fun heq => heq ▸ hyes⟩
  · next hno =>
    exact List.eq_nil_iff_forall_not_mem.mpr fun m hm => hno (hall m hm ▸ hm)

/-- It does so at the last entry of a node that the whole walk makes ready. -/
theorem Released.mem_ready_iff (h : Released g [n] ready g') (hallows : g.Allows (n :: rest)) :
    n ∈ ready ↔ n ∉ rest ∧ g.isReadied (n :: rest) n = true := by
  have hle := hallows n
  rw [h.mem_ready, isReadied_iff, List.count_singleton_self, List.count_cons_self]
  rw [List.count_cons_self] at hle
  push_cast at hle ⊢
  constructor
  · rintro ⟨hfree, harmed, hone, hone'⟩
    have hzero : rest.count n = 0 := by omega
    exact ⟨List.count_eq_zero.mp hzero, by omega, harmed, hfree⟩
  · rintro ⟨hmem, hdegree, harmed, hfree⟩
    rw [List.count_eq_zero.mpr hmem] at hdegree
    exact ⟨hfree, harmed, by omega, by omega⟩

/-- What is left of a walk finds other nodes ready as the whole of it does. -/
theorem Released.isReadied_tail (h : Released g [n] ready g') (hm : m ∉ ready) :
    g.isReadied (n :: rest) m = g'.isReadied rest m := by
  have hclaimed : (g'.node m).claimed = (g.node m).claimed := by
    rw [Bool.eq_iff_iff, h.claimed, or_iff_left hm]
  rw [Bool.eq_iff_iff, isReadied_iff, isReadied_iff, h.inDegree, h.isArmed, hclaimed]
  refine and_congr_left fun _ => ?_
  rw [← List.singleton_append, List.count_append]
  push_cast
  omega

/-- The nodes that a walk makes ready are those claimed at its first entry and those that the rest
of it makes ready. -/
theorem Released.readied_cons (h : Released g [n] ready g') (hallows : g.Allows (n :: rest)) :
    g.readied (n :: rest) = ready ++ g'.readied rest := by
  have hmem := h.mem_ready_iff hallows
  have hsingle := h.eq_singleton
  have htail : rest.dedup.filter (g.isReadied (n :: rest)) = g'.readied rest := by
    refine List.filter_congr fun m hm => h.isReadied_tail fun hready => ?_
    rw [List.mem_dedup] at hm
    rw [hsingle] at hready
    split at hready
    · next hyes =>
      rw [List.mem_singleton.mp hready] at hm
      exact (hmem.mp hyes).1 hm
    · exact absurd hready List.not_mem_nil
  rw [hsingle]
  by_cases hrest : n ∈ rest
  · rw [if_neg fun hyes => (hmem.mp hyes).1 hrest, List.nil_append, ← htail]
    unfold readied
    rw [List.dedup_cons_of_mem hrest]
  · rw [← htail]
    unfold readied
    rw [List.dedup_cons_of_notMem hrest, List.filter_cons]
    have hiff : n ∈ ready ↔ g.isReadied (n :: rest) n = true := by
      rw [hmem, and_iff_right hrest]
    simp only [hiff]
    split <;> rfl

/-- What is left of a walk names no node more often than it waits for edges. -/
theorem Allows.tail (h : g.Allows (n :: rest)) (hr : Released g [n] ready g') :
    g'.Allows rest := by
  intro m
  have hle := h m
  rw [← List.singleton_append, List.count_append] at hle
  rw [hr.inDegree]
  push_cast at hle
  omega

/-- What the rest of a walk hands on comes after what the first entry did. -/
theorem HandsOn.after {items : List β} (hhand : hand.Local nodeOf)
    (hp : Passed hand nodeOf g [n] items g') (h : HandsOn hand nodeOf g' (g'.readied rest) handed) :
    HandsOn hand nodeOf g (items.map nodeOf ++ g'.readied rest)
      { handed with items := items ++ handed.items } := by
  constructor
  · intro hnone
    rw [List.map_append, h.all hnone]
  · intro fault hfault
    obtain ⟨m, hinit, herror⟩ := h.stopped fault hfault
    refine ⟨m, ?_, ?_⟩
    · rw [List.map_append, List.append_assoc]
      exact (List.prefix_append_right_inj _).mpr hinit
    · -- What cannot be handed on after the first entry could not be handed on before it.
      have hready : m ∈ g'.readied rest := hinit.mem (by simp)
      have hfree := (mem_readied.mp hready).2.2.2
      rwa [hhand.result (hp.work m (hp.toReleased.of_not_claimed hfree).2)] at herror

/-- A walk hands on the nodes that it makes ready, in the order of their last entries. -/
theorem handsOn_releaseAll (hhand : hand.Local nodeOf) {l : List NodeId}
    (hl : ∀ m ∈ l, m < g.nodes.size) (hallows : g.Allows l) :
    HandsOn hand nodeOf g (g.readied l) (releaseAll hand g l) := by
  induction l generalizing g with
  | nil => exact ⟨fun _ => rfl, fun fault hfault => absurd hfault.symm (Option.some_ne_none fault)⟩
  | cons n rest ih =>
    have hn := hl n List.mem_cons_self
    obtain ⟨hquiet, hclaims⟩ := passed_release hhand hn
    have hrest {g₁ : Graph κ} {items : List β} (hp : Passed hand nodeOf g [n] items g₁) :
        HandsOn hand nodeOf g (g.readied (n :: rest))
          { releaseAll hand g₁ rest with items := items ++ (releaseAll hand g₁ rest).items } := by
      rw [hp.toReleased.readied_cons hallows]
      refine .after hhand hp (ih (fun m hm => ?_) (hallows.tail hp.toReleased))
      rw [hp.size]
      exact hl m (List.mem_cons_of_mem n hm)
    unfold releaseAll
    cases hr : g.release n with
    | mk g₁ claimed =>
    rw [hr] at hquiet hclaims
    cases claimed with
    | false => exact hrest (hquiet rfl)
    | true =>
      obtain ⟨hsame, hpassed⟩ := hclaims rfl
      have hstep := release_spec hn
      rw [hr, if_pos rfl] at hstep
      dsimp only at hsame hpassed ⊢
      cases hh : hand g₁ n with
      | mk g₂ result =>
      rw [hh] at hsame hpassed
      cases result with
      | error fault =>
        rw [hstep.readied_cons hallows]
        refine ⟨fun hnone => absurd hnone (Option.some_ne_none fault),
          fun other hother => ⟨n, ?_, ?_⟩⟩
        · exact List.prefix_append [n] _
        · rw [← hsame]
          exact congrArg Except.error (Option.some.inj hother)
      | ok item => exact hrest (hpassed item hsame.symm)

end Readied

/-- What finishing the last part of a node does: the nodes that its edges were the last for are
handed on, and the node and its edges are counted no more. -/
structure Completes (hand : Hand κ β) (nodeOf : β → NodeId) (g : Graph κ) (n : NodeId)
    (handed : Handed κ β) : Prop
    extends HandsOn hand nodeOf g (g.readied (g.entries n)) handed where
  size : handed.graph.nodes.size = g.nodes.size
  /-- Nodes lose an edge for every entry, and those that are handed on are claimed. -/
  node : handed.fault = none → ∀ m : Nat, handed.graph.node m =
    { g.node m with
      inDegree := (g.node m).inDegree - ((g.entries n).count m : Int)
      claimed := (g.node m).claimed || decide (m ∈ g.readied (g.entries n))
      parts := if m = n then 0 else (g.node m).parts
      successors := if m = n then .closed else (g.node m).successors
      work := (handed.graph.node m).work }
  /-- Only what is handed on loses its work. -/
  work : handed.fault = none → ∀ m : Nat, m ∉ g.readied (g.entries n) →
    (handed.graph.node m).work = (g.node m).work
  /-- The batch of the node has one thing less to wait for, and the others are not concerned. -/
  batch : handed.fault = none → ∀ b : Nat, handed.graph.batch b =
    if b = (g.node n).batch then
      { g.batch b with
        remaining := (g.batch b).remaining - 1
        done := (g.batch b).done || (g.batch b).remaining == 1 }
    else g.batch b

section Completes

variable {hand : Hand κ β} {nodeOf : β → NodeId} {g : Graph κ} {n : NodeId}
  {load : NodeId → Nat}

/-- In a coherent graph no list names a node more often than the node waits for edges. -/
theorem Coherent.allows (h : g.Coherent load) (n : NodeId) : g.Allows (g.entries n) := by
  intro m
  have hle := h.edgeCount_le m
  have hcount := g.count_entries_le_edgeCount n m
  omega

/-- Retiring a node makes no other nodes ready. -/
theorem readied_retire (g : Graph κ) (n : NodeId) (walked : List NodeId) :
    (g.retire n).readied walked = g.readied walked :=
  readied_congr fun m _ =>
    ⟨field_updateNode Node.inDegree m, claimed_retire g n m, isArmed_retire g n m⟩

/-- So the walk of a node that is retired hands on what its list makes ready. -/
theorem Coherent.handsOn_retire (h : g.Coherent load) (hhand : hand.Local nodeOf) (n : NodeId) :
    HandsOn hand nodeOf g (g.readied (g.entries n))
      (releaseAll hand (g.retire n) (g.entries n)) := by
  have hallows : (g.retire n).Allows (g.entries n) := fun m => by
    rw [Graph.retire, field_updateNode Node.inDegree m]
    exact h.allows n m
  have hwalk := handsOn_releaseAll (g := g.retire n) hhand
    (fun m hm => by simpa using h.entry_lt n m hm) hallows
  rw [readied_retire] at hwalk
  refine ⟨hwalk.all, fun fault hfault => ?_⟩
  obtain ⟨m, hinit, herror⟩ := hwalk.stopped fault hfault
  exact ⟨m, hinit, (hhand.result (field_updateNode Node.work m)).symm.trans herror⟩

/-- In a coherent graph, the last part of a node completes it. -/
theorem completes_finishPart (h : g.Coherent load) (hhand : hand.Local nodeOf)
    (hn : n < g.nodes.size) (hparts : (g.node n).parts = 1) :
    Completes hand nodeOf g n (finishPart hand g n) := by
  have hopen : g.isComplete n = false := by
    rw [← Bool.not_eq_true, h.isComplete_iff, hparts]
    decide
  have hentries (m : Nat) (hm : m ∈ g.entries n) : m < g.nodes.size := h.entry_lt n m hm
  have hwalk := h.handsOn_retire hhand n
  have hfinished := finished_finishPart hhand.toFaithful hn hopen hentries
  have hhands : HandsOn hand nodeOf g (g.readied (g.entries n)) (finishPart hand g n) ∧
      (finishPart hand g n).graph.nodes.size = g.nodes.size := by
    generalize finishPart hand g n = handed at hfinished
    cases hfinished with
    | part hmore => exact absurd hparts hmore
    | stopped _ hwalked _ => exact ⟨hwalk, hwalked.released.size.trans (size_nodes_retire g n)⟩
    | last _ hwalked _ =>
      exact ⟨⟨hwalk.all, hwalk.stopped⟩, hwalked.released.size.trans (size_nodes_retire g n)⟩
  have hpassed := passed_finishPart hhand hn hopen hentries
  have hgiven : g.givenUp n = g.entries n := if_pos hparts
  have hshed : g.shed n = (g.retire n).finishOne (g.node n).batch := if_pos hparts
  rw [hgiven] at hpassed
  refine ⟨hhands.1, hhands.2, fun hnone m => ?_, fun hnone m hm => ?_, fun hnone b => ?_⟩
  · have hp := hpassed hnone
    have hdegree : ((finishPart hand g n).graph.node m).inDegree =
        (g.node m).inDegree - ((g.entries n).count m : Int) := by
      rw [hp.inDegree, field_shed Node.inDegree]
    have hclaimed : ((finishPart hand g n).graph.node m).claimed =
        ((g.node m).claimed || decide (m ∈ g.readied (g.entries n))) := by
      rw [Bool.eq_iff_iff, hp.claimed, field_shed Node.claimed, hhands.1.all hnone, Bool.or_eq_true,
        decide_eq_true_eq]
    rw [hp.node m, hdegree, hclaimed]
    by_cases hm : m = n
    · subst hm
      rw [node_shed_self hn, hparts]
      simp
    · rw [node_shed_of_ne (Ne.symm hm), if_neg hm, if_neg hm]
  · have hp := hpassed hnone
    rw [hp.work m (by rwa [hhands.1.all hnone]), field_shed Node.work]
  · rw [(hpassed hnone).batch, hshed]
    unfold finishOne
    split
    · next hself =>
      subst hself
      exact batch_updateBatch_self _ (h.batch_lt n hn)
    · next hother => exact batch_updateBatch_of_ne _ (Ne.symm hother)

end Completes

end HazardFlow.Graph
