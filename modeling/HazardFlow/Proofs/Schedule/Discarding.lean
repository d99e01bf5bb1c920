import HazardFlow.Proofs.Graph.Stopping
import HazardFlow.Proofs.Schedule.Submitting

/-!
# Dropping a builder and executing it

Dropping a builder discards the works of its nodes and submits them. That leaves the same system as
executing the builder, with the same edges, claims and counts and as many jobs in the same order, but
that works and jobs of its nodes are idle. A submission stops where it claims a range that ends before
it starts; since a work that was discarded is no range any more, nothing stops a drop.
-/

namespace HazardFlow

variable {κ ε : Type}

/-- A node whose work does nothing, unless it was taken. -/
def Node.idle (x : Node κ) : Node κ := { x with work := x.work.map fun _ => .idle }

/-- A job that does nothing if it is one of certain nodes. -/
def Job.idleAt (nodes : List NodeId) (job : Job κ) : Job κ :=
  if job.node ∈ nodes then { job with task := .idle } else job

namespace Graph

variable {g : Graph κ} {nodes : List NodeId} {n : Nat}

/-- Works of certain nodes that were not taken do nothing. -/
def idleAt (g : Graph κ) (nodes : List NodeId) : Graph κ :=
  { g with nodes := g.nodes.mapIdx fun n x => if n ∈ nodes then x.idle else x }

theorem node_idleAt (g : Graph κ) (nodes : List NodeId) (n : NodeId) :
    (g.idleAt nodes).node n = if n ∈ nodes then (g.node n).idle else g.node n := by
  unfold node idleAt
  rw [Array.getD_eq_getD_getElem?, Array.getD_eq_getD_getElem?, Array.getElem?_mapIdx]
  cases g.nodes[n]? with
  | some x => rfl
  | none => exact (ite_self default).symm

theorem idleAt_nil (g : Graph κ) : g.idleAt [] = g := by
  unfold idleAt
  congr 1
  apply Array.ext_getElem?
  simp

/-- Works that are idle stay so. -/
theorem idleAt_idleAt (g : Graph κ) (nodes : List NodeId) :
    (g.idleAt nodes).idleAt nodes = g.idleAt nodes := by
  unfold idleAt
  congr 1
  apply Array.ext_getElem?
  intro n
  rw [Array.getElem?_mapIdx, Array.getElem?_mapIdx, Option.map_map]
  refine congrArg (Option.map · g.nodes[n]?) (funext fun x => ?_)
  by_cases hn : n ∈ nodes <;> simp [hn, Node.idle, Function.comp_def]

/-- Idle works do not show in what works have no part in. -/
theorem field_idleAt {α : Type} (field : Node κ → α) (nodes : List NodeId) (n : NodeId)
    (hfield : ∀ x : Node κ, field x.idle = field x := by intro x; rfl) :
    field ((g.idleAt nodes).node n) = field (g.node n) := by
  rw [node_idleAt]
  split
  · exact hfield _
  · rfl

/-- They do not stand in the way of an update. -/
theorem updateNode_idleAt (g : Graph κ) (nodes : List NodeId) (n : NodeId) {f : Node κ → Node κ}
    (hf : ∀ x : Node κ, f x.idle = (f x).idle := by intro x; rfl) :
    (g.idleAt nodes).updateNode n f = (g.updateNode n f).idleAt nodes := by
  unfold updateNode idleAt
  congr 1
  apply Array.ext_getElem?
  intro m
  rw [Array.getElem?_modify, Array.getElem?_mapIdx, Array.getElem?_mapIdx, Array.getElem?_modify]
  cases g.nodes[m]? with
  | none => split <;> rfl
  | some x =>
    by_cases hnm : n = m
    · rw [if_pos hnm, if_pos hnm]
      simp only [Option.map_some]
      split
      · rw [hf]
      · rfl
    · rw [if_neg hnm, if_neg hnm]

/-- Discarding a work makes it idle. -/
theorem idleAt_cons (hn : (g.node n).work.isSome = true) (nodes : List NodeId) :
    (g.updateNode n ({ · with work := some .idle })).idleAt nodes = g.idleAt (n :: nodes) := by
  unfold updateNode idleAt
  congr 1
  apply Array.ext_getElem?
  intro m
  rw [Array.getElem?_mapIdx, Array.getElem?_mapIdx, Array.getElem?_modify]
  cases hm : g.nodes[m]? with
  | none => simp
  | some x =>
    by_cases hnm : n = m
    · subst hnm
      have hx : g.node n = x := by
        unfold node
        rw [Array.getD_eq_getD_getElem?, hm]
        rfl
      obtain ⟨work, hwork⟩ := Option.isSome_iff_exists.mp hn
      rw [hx] at hwork
      simp [Node.idle, hwork]
    · simp [hnm, Ne.symm hnm]

/-- A node that has a work exists. -/
theorem lt_size_of_work (hn : (g.node n).work.isSome = true) : n < g.nodes.size := by
  by_contra hge
  rw [node_of_size_le (Nat.not_lt.mp hge)] at hn
  cases hn

/-- A job is made of an idle work whatever the work was before. -/
theorem takeJob_idleAt (grain : Nat) (hmem : n ∈ nodes) {work : Work κ}
    (hwork : (g.node n).work = some work) :
    handJob grain (g.idleAt nodes) n =
      .pure ((handJob grain g n).state.idleAt nodes) ⟨n, .idle⟩ := by
  have hidle : ((g.idleAt nodes).node n).work = some .idle := by
    rw [node_idleAt, if_pos hmem]
    unfold Node.idle
    rw [hwork]
    rfl
  have hstate : (handJob grain g n).state = g.updateNode n ({ · with work := none }) := by
    unfold handJob takeJob
    rw [hwork]
    cases work with
    | range span call => cases hcursor : Cursor.ofSpan span grain <;> simp [hcursor]
    | _ => rfl
  rw [hstate, ← updateNode_idleAt]
  unfold handJob takeJob
  rw [hidle]

/-- Claiming a node and taking its work leaves the others alone. -/
theorem node_take_of_ne (g : Graph κ) (grain : Nat) {m : Nat} (hnm : n ≠ m) :
    (handJob grain (g.claim n).1 n).state.node m = g.node m := by
  rw [(hand_of_ne (faithful_handJob grain) _ n).2 m hnm]
  exact node_updateNode_of_ne _ hnm

/-- The node itself has been claimed then. -/
theorem claimed_take (grain : Nat) (hn : n < g.nodes.size) :
    ((handJob grain (g.claim n).1 n).state.node n).claimed = true := by
  rw [(faithful_handJob grain).claimed]
  exact (claimed_claim hn n).mpr (Or.inr rfl)

end Graph

namespace System

variable {s t : System κ ε} {nodes due : List NodeId} {n : NodeId} {b : Builder}

/-- The second system is like the first one, but works and submitted jobs of certain nodes are idle,
and something else may have been reported. -/
structure Idles (nodes : List NodeId) (s t : System κ ε) : Prop where
  graph : t.graph = s.graph.idleAt nodes
  inbox : t.inbox = { s.inbox with waiting := s.inbox.waiting.map (Job.idleAt nodes) }
  tracker : t.tracker = s.tracker
  workers : t.workers = s.workers
  grain : t.grain = s.grain
  stats : t.stats = s.stats

/-- A node that nobody has claimed has its work. -/
def Stocks (nodes : List NodeId) (s : System κ ε) : Prop :=
  ∀ n ∈ nodes, (s.graph.node n).claimed = false → (s.graph.node n).work.isSome = true

/-- It goes on to do so when a node is claimed and its work is taken. -/
theorem Stocks.claim (hs : s.Stocks nodes) (n : NodeId) (inbox : Inbox (Job κ)) :
    Stocks nodes
      { s with graph := (Graph.handJob s.grain (s.graph.claim n).1 n).state, inbox } := by
  intro m hm hfree
  dsimp only at hfree ⊢
  by_cases hnm : n = m
  · subst hnm
    by_cases hn : n < s.graph.nodes.size
    · rw [Graph.claimed_take s.grain hn] at hfree
      cases hfree
    · have hnode : s.graph.node n = default := Graph.node_of_size_le (Nat.not_lt.mp hn)
      have hwork := hs n hm
      rw [hnode] at hwork
      cases hwork rfl
  · rw [Graph.node_take_of_ne s.graph s.grain hnm] at hfree ⊢
    exact hs m hm hfree

/-- A node that waits for something or was claimed before is passed over. -/
theorem dispatch_of_skip (h : (s.graph.node n).inDegree ≠ 0 ∨ (s.graph.node n).claimed = true) :
    s.dispatch n = .pure s false := by
  have hdispatched := dispatched_dispatch s n
  generalize s.dispatch n = outcome at hdispatched
  cases hdispatched with
  | skip _ => rfl
  | put hfree hunclaimed _ | stall hfree hunclaimed _ =>
    rcases h with hwaits | hclaimed
    · exact absurd hfree hwaits
    · rw [hunclaimed] at hclaimed
      cases hclaimed

/-- A node that is dispatched, and the others after it. -/
theorem dispatchAll_cons {s' : System κ ε} {dispatched : Bool}
    (h : s.dispatch n = .pure s' dispatched) (due : List NodeId) :
    s.dispatchAll (n :: due) = (s'.dispatchAll due).map (· + dispatched.toNat) := by
  rw [dispatchAll, h, Outcome.bind_pure]

namespace Idles

/-- Jobs of a node make no difference when the node is idle in the second system. -/
theorem put (h : s.Idles nodes t) (hmem : n ∈ nodes) {job : Job κ} (hjob : job.node = n)
    (graph : Graph κ) : Idles nodes { s with graph, inbox := s.inbox.put job }
      { t with graph := graph.idleAt nodes, inbox := t.inbox.put ⟨n, .idle⟩ } := by
  refine ⟨rfl, ?_, h.tracker, h.workers, h.grain, h.stats⟩
  have hidle : job.idleAt nodes = ⟨n, .idle⟩ := by
    unfold Job.idleAt
    rw [if_pos (hjob ▸ hmem), hjob]
  dsimp only
  rw [h.inbox]
  unfold Inbox.put
  dsimp only
  rw [List.map_append, List.map_singleton, hidle]

/-- Both systems have claimed the same nodes. -/
theorem claimed (h : s.Idles nodes t) (n : NodeId) :
    (t.graph.node n).claimed = (s.graph.node n).claimed := by
  rw [h.graph]
  exact Graph.field_idleAt Node.claimed nodes n

/-- Nodes wait for as much in one as in the other. -/
theorem inDegree (h : s.Idles nodes t) (n : NodeId) :
    (t.graph.node n).inDegree = (s.graph.node n).inDegree := by
  rw [h.graph]
  exact Graph.field_idleAt Node.inDegree nodes n

/-- An idle job is made of a node that waits for nothing. -/
theorem dispatch_eq (h : s.Idles nodes t) (hs : s.Stocks nodes) (hmem : n ∈ nodes)
    (hfree : (s.graph.node n).inDegree = 0) (hunclaimed : (s.graph.node n).claimed = false) :
    t.dispatch n = .pure { t with
      graph := (Graph.handJob s.grain (s.graph.claim n).1 n).state.idleAt nodes
      inbox := t.inbox.put ⟨n, .idle⟩ } true := by
  have hclaim : (t.graph.claim n).1 = (s.graph.claim n).1.idleAt nodes := by
    rw [h.graph]
    exact Graph.updateNode_idleAt s.graph nodes n
  obtain ⟨work, hwork⟩ := Option.isSome_iff_exists.mp (hs n hmem hunclaimed)
  have hkept : ((s.graph.claim n).1.node n).work = some work :=
    (Graph.field_updateNode Node.work n).trans hwork
  have hmade := Graph.takeJob_idleAt s.grain hmem hkept
  rw [← hclaim, ← h.grain] at hmade
  have hdispatched := dispatched_dispatch t n
  generalize t.dispatch n = outcome at hdispatched
  cases hdispatched with
  | skip hskip =>
    rw [h.inDegree, h.claimed, hfree, hunclaimed] at hskip
    simp at hskip
  | put _ _ hjob =>
    rw [hmade] at hjob ⊢
    obtain rfl := Except.ok.inj hjob
    rw [h.grain]
    rfl
  | stall _ _ hjob =>
    rw [hmade] at hjob
    cases hjob

/-- Dispatching a node whose work is idle does what dispatching it does otherwise, and meets no
fault. -/
theorem exists_dispatch (h : s.Idles nodes t) (hs : s.Stocks nodes) (hmem : n ∈ nodes) :
    ∃ (s' t' : System κ ε) (dispatched : Bool), t.dispatch n = .pure t' dispatched ∧
      s'.Idles nodes t' ∧ s'.Stocks nodes ∧
      ∀ answer, (s.dispatch n).result = .ok answer →
        s' = (s.dispatch n).state ∧ dispatched = answer := by
  have hdispatched := dispatched_dispatch s n
  generalize s.dispatch n = outcome at hdispatched ⊢
  cases hdispatched with
  | skip hskip =>
    rw [← h.inDegree, ← h.claimed] at hskip
    exact ⟨s, t, false, dispatch_of_skip hskip, h, hs, fun _ hanswer => ⟨rfl, Except.ok.inj hanswer⟩⟩
  | @put job hfree hunclaimed hjob =>
    have hnode := (Graph.faithful_handJob s.grain).item _ n job hjob
    exact ⟨_, _, true, h.dispatch_eq hs hmem hfree hunclaimed, h.put hmem hnode _, hs.claim n _,
      fun _ hanswer => ⟨rfl, Except.ok.inj hanswer⟩⟩
  | stall hfree hunclaimed _ =>
    -- The first system stops here. The second one goes on as if a job had been made.
    have hnode : (⟨n, .idle⟩ : Job κ).node = n := rfl
    exact ⟨_, _, true, h.dispatch_eq hs hmem hfree hunclaimed, h.put hmem hnode _, hs.claim n _,
      nofun⟩

/-- Dispatching nodes whose works are idle, one after the other. -/
theorem exists_dispatchAll (h : s.Idles nodes t) (hs : s.Stocks nodes) (hdue : due ⊆ nodes) :
    ∃ (t' : System κ ε) (roots : Nat), t.dispatchAll due = .pure t' roots ∧
      ∀ answer, (s.dispatchAll due).result = .ok answer →
        (s.dispatchAll due).state.Idles nodes t' ∧ roots = answer := by
  induction due generalizing s t with
  | nil => exact ⟨t, 0, rfl, fun _ hanswer => ⟨h, Except.ok.inj hanswer⟩⟩
  | cons n rest ih =>
    obtain ⟨hmem, hrest⟩ := List.cons_subset.mp hdue
    obtain ⟨s', t', dispatched, hdispatch, h', hs', hsame⟩ := h.exists_dispatch hs hmem
    obtain ⟨t'', roots, hlater, hsame'⟩ := ih h' hs' hrest
    refine ⟨t'', roots + dispatched.toNat, ?_, ?_⟩
    · rw [dispatchAll_cons hdispatch, hlater]
      rfl
    · cases hfirst : s.dispatch n with
      | mk state result =>
      rw [hfirst] at hsame
      cases result with
      | error fault =>
        rw [dispatchAll, hfirst]
        nofun
      | ok answer =>
        obtain ⟨rfl, rfl⟩ := hsame answer rfl
        rw [dispatchAll_cons hfirst]
        cases hothers : s'.dispatchAll rest with
        | mk state' result' =>
        rw [hothers] at hsame'
        intro total htotal
        cases result' with
        | error fault => cases htotal
        | ok count =>
          obtain ⟨hidles, rfl⟩ := hsame' count rfl
          exact ⟨hidles, Except.ok.inj htotal⟩

end Idles

/-- Dispatching nodes meets no fault when none that would be claimed has an inverted range. -/
theorem exists_dispatchAll_iff (hgrain : 0 < s.grain) (hs : s.Stocks nodes) (hdue : due ⊆ nodes) :
    (∃ roots, (s.dispatchAll due).result = .ok roots) ↔
      ∀ n ∈ due, (s.graph.node n).inDegree = 0 → (s.graph.node n).claimed = false →
        ¬ s.graph.IsInverted n := by
  induction due generalizing s with
  | nil => exact iff_of_true ⟨0, rfl⟩ nofun
  | cons n rest ih =>
    obtain ⟨hmem, hrest⟩ := List.cons_subset.mp hdue
    have hlater {s' : System κ ε} {dispatched : Bool} (hfirst : s.dispatch n = .pure s' dispatched) :
        (∃ roots, (s.dispatchAll (n :: rest)).result = .ok roots) ↔
          ∃ roots, (s'.dispatchAll rest).result = .ok roots := by
      rw [dispatchAll_cons hfirst]
      cases s'.dispatchAll rest with
      | mk state result =>
      cases result with
      | error fault => exact iff_of_false nofun nofun
      | ok count => exact iff_of_true ⟨_, rfl⟩ ⟨_, rfl⟩
    have hmade (hunclaimed : (s.graph.node n).claimed = false) :=
      Graph.exists_handJob_claim_iff hgrain (hs n hmem hunclaimed)
    have hdispatched := dispatched_dispatch s n
    generalize hfirst : s.dispatch n = outcome at hdispatched
    cases hdispatched with
    | skip hskip =>
      rw [hlater hfirst, ih hgrain hs hrest, List.forall_mem_cons]
      refine (and_iff_right fun hfree hunclaimed => ?_).symm
      rcases hskip with hwaits | hclaimed
      · exact absurd hfree hwaits
      · rw [hunclaimed] at hclaimed
        cases hclaimed
    | @put job hfree hunclaimed hjob =>
      rw [hlater hfirst, ih (s := { s with
        graph := (Graph.handJob s.grain (s.graph.claim n).1 n).state
        inbox := s.inbox.put job }) hgrain (hs.claim n _) hrest, List.forall_mem_cons]
      have hordered := (hmade hunclaimed).mp ⟨job, hjob⟩
      refine Iff.trans (forall₂_congr fun m hm => ?_)
        (and_iff_right fun _ _ => hordered).symm
      by_cases hnm : n = m
      · subst hnm
        have hn := Graph.lt_size_of_work (hs n hmem hunclaimed)
        dsimp only
        rw [Graph.claimed_take s.grain hn]
        exact iff_of_true nofun fun _ _ => hordered
      · have hnode := Graph.node_take_of_ne s.graph s.grain hnm
        dsimp only
        rw [hnode, Graph.isInverted_congr (congrArg Node.work hnode)]
    | stall hfree hunclaimed hjob =>
      refine iff_of_false ?_ fun hall => ?_
      · rintro ⟨roots, hroots⟩
        unfold dispatchAll at hroots
        rw [hfirst] at hroots
        cases hroots
      · obtain ⟨job, hok⟩ := (hmade hunclaimed).mpr
          (hall n List.mem_cons_self hfree hunclaimed)
        cases hjob.symm.trans hok

/-- The works of nodes that are not submitted can all be discarded. -/
theorem discardAll_eq (hunarmed : ∀ n ∈ nodes, s.graph.isArmed n = false)
    (hwork : ∀ n ∈ nodes, (s.graph.node n).work.isSome = true) :
    s.discardAll nodes = .pure { s with graph := s.graph.idleAt nodes } () := by
  induction nodes generalizing s with
  | nil =>
    rw [Graph.idleAt_nil]
    rfl
  | cons n rest ih =>
    have hn := hwork n List.mem_cons_self
    have hdiscard : s.graph.discard n =
        .pure (s.graph.updateNode n ({ · with work := some .idle })) () := by
      unfold Graph.discard
      rw [hunarmed n List.mem_cons_self]
      rfl
    unfold discardAll
    rw [hdiscard]
    change discardAll { s with graph := s.graph.updateNode n ({ · with work := some .idle }) } rest = _
    rw [ih (fun m hm => ?_) fun m hm => ?_]
    · dsimp only
      rw [Graph.idleAt_cons hn]
    · have hsteady : s.graph.Steady (s.graph.updateNode n ({ · with work := some .idle })) :=
        .updateNode n
      rw [hsteady.isArmed]
      exact hunarmed m (List.mem_cons_of_mem n hm)
    · by_cases hnm : n = m
      · subst hnm
        rw [Graph.node_updateNode_self _ (Graph.lt_size_of_work hn)]
        rfl
      · rw [Graph.node_updateNode_of_ne _ hnm]
        exact hwork m (List.mem_cons_of_mem n hm)

/-- A builder is dropped by submitting it with its works idle. -/
theorem dropBuilder_eq (hb : b.Holds s.graph)
    (hwork : ∀ n ∈ b.nodes, (s.graph.node n).work.isSome = true) (hnodes : b.nodes ≠ []) :
    s.dropBuilder b =
      (({ s.reportDrop b with graph := s.graph.idleAt b.nodes } :
        System κ ε).newBuilder.1.submit b).bind fun s _ =>
          .pure (s.report .debug "graph generation submitted"
            [("nodes", .number b.nodes.length)]) () := by
  have hdiscard : (s.reportDrop b).discardAll b.nodes =
      .pure { s.reportDrop b with graph := s.graph.idleAt b.nodes } () :=
    discardAll_eq (s := s.reportDrop b) (fun n hn => hb.isArmed hn) hwork
  unfold dropBuilder
  rw [if_neg (by simpa using hnodes)]
  change ((s.reportDrop b).discardAll b.nodes).bind _ = _
  rw [hdiscard]
  rfl

/-- A builder may be dropped whose nodes have their works and no jobs yet. Nothing stops that, and
when nothing stops executing the builder either, the system is left the same but for the works. -/
theorem exists_idles (hb : b.Holds s.graph)
    (hwork : ∀ n ∈ b.nodes, (s.graph.node n).work.isSome = true)
    (hjobs : ∀ job ∈ s.inbox.waiting, job.node ∉ b.nodes) (hnodes : b.nodes ≠ []) :
    ∃ t, s.dropBuilder b = .pure t () ∧
      ∀ batch, (s.execute b).result = .ok batch → (s.execute b).state.1.Idles b.nodes t := by
  set s₁ : System κ ε :=
    { s.newBuilder.1 with graph := s.newBuilder.1.graph.arm b.batch } with hs₁
  set t₁ : System κ ε := { s.reportDrop b with graph := s₁.graph.idleAt b.nodes } with ht₁
  have hidles : s₁.Idles b.nodes t₁ := by
    refine ⟨rfl, ?_, rfl, rfl, rfl, rfl⟩
    have hsame : s.inbox.waiting.map (Job.idleAt b.nodes) = s.inbox.waiting := by
      refine (List.map_congr_left fun job hjob => ?_).trans (List.map_id _)
      exact if_neg (hjobs job hjob)
    change s.inbox = { s.inbox with waiting := s.inbox.waiting.map (Job.idleAt b.nodes) }
    rw [hsame]
  obtain ⟨t₂, roots, hdispatch, hsame⟩ :=
    hidles.exists_dispatchAll (fun n hn _ => hwork n hn) (List.Subset.refl b.nodes)
  have hsubmit : ({ s.reportDrop b with graph := s.graph.idleAt b.nodes } :
      System κ ε).newBuilder.1.submit b = (t₁.dispatchAll b.nodes).bind fun s roots =>
        .pure { s with graph := s.graph.finishOne b.batch } roots := rfl
  have hdrop : s.dropBuilder b = .pure
      (({ t₂ with graph := t₂.graph.finishOne b.batch } : System κ ε).report .debug
        "graph generation submitted" [("nodes", .number b.nodes.length)]) () := by
    rw [dropBuilder_eq hb hwork hnodes, hsubmit, hdispatch]
    rfl
  refine ⟨_, hdrop, fun batch hbatch => ?_⟩
  have hexecute : s.execute b = (((s₁.dispatchAll b.nodes).bind fun s roots =>
      .pure { s with graph := s.graph.finishOne b.batch } roots).bind fun s roots =>
        .pure (s.report .debug "graph generation submitted"
          [("nodes", .number b.nodes.length), ("roots", .number roots)]) b.batch).lift fun t =>
            (t, s.newBuilder.2) := rfl
  rw [hexecute] at hbatch ⊢
  cases hall : s₁.dispatchAll b.nodes with
  | mk state result =>
  rw [hall] at hsame hbatch
  cases result with
  | error fault => cases hbatch
  | ok answer =>
    obtain ⟨hsame, rfl⟩ := hsame answer rfl
    have hbatches : t₂.graph.finishOne b.batch = (state.graph.finishOne b.batch).idleAt b.nodes := by
      rw [hsame.graph]
      rfl
    exact ⟨hbatches, hsame.inbox, hsame.tracker, hsame.workers, hsame.grain, hsame.stats⟩

/-- A builder can be executed when none of its nodes that wait for nothing has an inverted range. -/
theorem exists_execute_iff (hgrain : 0 < s.grain)
    (hunclaimed : ∀ n ∈ b.nodes, (s.graph.node n).claimed = false)
    (hwork : ∀ n ∈ b.nodes, (s.graph.node n).work.isSome = true) :
    (∃ batch, (s.execute b).result = .ok batch) ↔
      ∀ n ∈ b.nodes, (s.graph.node n).inDegree = 0 → ¬ s.graph.IsInverted n := by
  set s₁ : System κ ε :=
    { s.newBuilder.1 with graph := s.newBuilder.1.graph.arm b.batch } with hs₁
  have hall : (∃ batch, (s.execute b).result = .ok batch) ↔
      ∃ roots, (s₁.dispatchAll b.nodes).result = .ok roots := by
    unfold execute submit
    dsimp only
    rw [← hs₁]
    cases s₁.dispatchAll b.nodes with
    | mk state result =>
    cases result with
    | error fault => exact iff_of_false nofun nofun
    | ok answer => exact iff_of_true ⟨_, rfl⟩ ⟨_, rfl⟩
  have hordered := exists_dispatchAll_iff (s := s₁) hgrain (fun n hn _ => hwork n hn)
    (List.Subset.refl b.nodes)
  rw [hall, hordered]
  exact forall₂_congr fun n hn =>
    forall_congr' fun _ => ⟨fun hordered => hordered (hunclaimed n hn), fun hordered _ => hordered⟩

/-- A builder that holds a batch goes on to do so when works are idle. -/
theorem holds_idleAt (hb : b.Holds s.graph) (nodes : List NodeId) :
    b.Holds (s.graph.idleAt nodes) where
  batch_lt := hb.batch_lt
  unarmed := hb.unarmed
  mem_nodes n := by
    rw [hb.mem_nodes, Graph.field_idleAt Node.batch nodes n]
    unfold Graph.idleAt
    rw [Array.size_mapIdx]

/-- A builder is dropped in the same way when its works are idle already. -/
theorem dropBuilder_idleAt (hb : b.Holds s.graph)
    (hwork : ∀ n ∈ b.nodes, (s.graph.node n).work.isSome = true) (hnodes : b.nodes ≠ []) :
    ({ s with graph := s.graph.idleAt b.nodes } : System κ ε).dropBuilder b = s.dropBuilder b := by
  rw [dropBuilder_eq hb hwork hnodes,
    dropBuilder_eq (holds_idleAt hb b.nodes) (fun n hn => ?_) hnodes]
  · dsimp only [reportDrop, report]
    rw [Graph.idleAt_idleAt]
  · refine Eq.trans ?_ (hwork n hn)
    exact Graph.field_idleAt (fun x => x.work.isSome) b.nodes n fun x => Option.isSome_map

/-- A builder may be dropped, and that leaves the system as executing the builder does, but for the
works. Only an inverted range that waits for nothing stops the latter. -/
structure MirrorsExecute (s : System κ ε) (b : Builder) : Prop where
  drops : (s.dropBuilder b).result = .ok ()
  idles : ∀ batch, (s.execute b).result = .ok batch →
    (s.execute b).state.1.Idles b.nodes (s.dropBuilder b).state
  executes : (∃ batch, (s.execute b).result = .ok batch) ↔
    ∀ n ∈ b.nodes, (s.graph.node n).inDegree = 0 → ¬ s.graph.IsInverted n
  /-- Nothing stops a builder whose works are idle. -/
  executesIdle : ∃ batch,
    (({ s with graph := s.graph.idleAt b.nodes } : System κ ε).execute b).result = .ok batch ∧
    (({ s with graph := s.graph.idleAt b.nodes } : System κ ε).execute b).state.1.Idles b.nodes
      (s.dropBuilder b).state

/-- That is so when the nodes of the builder have their works and no jobs. -/
theorem mirrorsExecute (hgrain : 0 < s.grain) (hb : b.Holds s.graph)
    (hunclaimed : ∀ n ∈ b.nodes, (s.graph.node n).claimed = false)
    (hwork : ∀ n ∈ b.nodes, (s.graph.node n).work.isSome = true)
    (hjobs : ∀ job ∈ s.inbox.waiting, job.node ∉ b.nodes) (hnodes : b.nodes ≠ []) :
    s.MirrorsExecute b := by
  set t : System κ ε := { s with graph := s.graph.idleAt b.nodes } with ht
  have hwork' (n : NodeId) (hn : n ∈ b.nodes) : (t.graph.node n).work = some .idle := by
    obtain ⟨work, hsome⟩ := Option.isSome_iff_exists.mp (hwork n hn)
    dsimp only [t]
    rw [Graph.node_idleAt, if_pos hn]
    simp [Node.idle, hsome]
  have hordered (n : NodeId) (hn : n ∈ b.nodes) : ¬ t.graph.IsInverted n := by
    rintro ⟨work, hsome, hinverted⟩
    obtain rfl := Option.some.inj ((hwork' n hn).symm.trans hsome)
    exact hinverted trivial
  have hsome (n : NodeId) (hn : n ∈ b.nodes) : (t.graph.node n).work.isSome = true := by
    rw [hwork' n hn]
    rfl
  obtain ⟨_, hdrop, hidles⟩ := exists_idles hb hwork hjobs hnodes
  obtain ⟨_, hdrop', hidles'⟩ := exists_idles (s := t) (holds_idleAt hb b.nodes) hsome hjobs hnodes
  obtain ⟨batch, hbatch⟩ := (exists_execute_iff (s := t) hgrain
    (fun n hn => (Graph.field_idleAt Node.claimed b.nodes n).trans (hunclaimed n hn)) hsome).mpr
    fun n hn _ => hordered n hn
  have hsame := dropBuilder_idleAt hb hwork hnodes
  rw [← ht, hdrop'] at hsame
  refine ⟨by rw [hdrop]; rfl, ?_, exists_execute_iff hgrain hunclaimed hwork, batch, hbatch, ?_⟩
  · rw [hdrop]
    exact hidles
  · rw [← hsame]
    exact hidles' batch hbatch

end System

end HazardFlow
