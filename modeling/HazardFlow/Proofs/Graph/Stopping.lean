import HazardFlow.Proofs.Graph.FirstJobs
import HazardFlow.Proofs.Schedule.Steps

/-!
# Where a release stops

No job can be made of a range that ends before it starts. The walk that releases the successors of a
node ends at the first such range that it makes ready: the successors behind it keep their edges,
and the batch of the node goes on to count it.
-/

namespace HazardFlow.Graph

variable {κ β : Type}

/-- The work of a node is a range that ends before it starts. -/
def IsInverted (g : Graph κ) (n : NodeId) : Prop :=
  ∃ work, (g.node n).work = some work ∧ ¬ work.Ordered

/-- Whether a range is inverted depends on the work of the node. -/
theorem isInverted_congr {g g' : Graph κ} {n : Nat}
    (h : (g'.node n).work = (g.node n).work) : g'.IsInverted n ↔ g.IsInverted n := by
  unfold IsInverted
  rw [h]

/-- A job is made of a node that has a work, unless its range is inverted. -/
theorem exists_handJob_iff {g : Graph κ} {n grain : Nat} {work : Work κ} (hgrain : 0 < grain)
    (hwork : (g.node n).work = some work) :
    (∃ job, (handJob grain g n).result = .ok job) ↔ ¬ g.IsInverted n := by
  have hinverted : g.IsInverted n ↔ ¬ work.Ordered := by
    unfold IsInverted
    rw [hwork]
    simp
  rw [hinverted, not_not]
  constructor
  · rintro ⟨job, hjob⟩
    cases work with
    | range span call =>
      by_contra hspan
      have hcursor : Cursor.ofSpan span grain = .error .cursorInverted := by
        unfold Cursor.ofSpan
        rw [dif_pos hgrain]
        exact dif_neg hspan
      unfold handJob takeJob at hjob
      rw [hwork] at hjob
      dsimp only at hjob
      rw [hcursor] at hjob
      cases hjob
    | _ => trivial
  · intro hordered
    obtain ⟨job, hjob⟩ := exists_takeJob hgrain hwork hordered
    exact ⟨job, by unfold handJob; rw [hjob]; rfl⟩

/-- Nor does claiming the node before that make a difference. -/
theorem exists_handJob_claim_iff {g : Graph κ} {n grain : Nat} (hgrain : 0 < grain)
    (hwork : (g.node n).work.isSome = true) :
    (∃ job, (handJob grain (g.claim n).1 n).result = .ok job) ↔ ¬ g.IsInverted n := by
  obtain ⟨work, hsome⟩ := Option.isSome_iff_exists.mp hwork
  have hkept : ((g.claim n).1.node n).work = (g.node n).work := field_updateNode Node.work n
  rw [exists_handJob_iff hgrain (hkept.trans hsome), isInverted_congr hkept]

section Walks

variable {hand : Hand κ β} {nodeOf : β → NodeId} {g g₁ g₂ : Graph κ} {n : NodeId}

/-- A walk passes over an entry that makes no node ready. -/
theorem walk_over (hr : g.release n = (g₁, false)) (l : List NodeId) :
    releaseAll hand g (n :: l) = releaseAll hand g₁ l ∧
      passedOn hand g (n :: l) = passedOn hand g₁ l :=
  ⟨by simp only [releaseAll, hr], by simp only [passedOn, hr]⟩

/-- A walk goes on behind a node that it handed on. -/
theorem walk_on {item : β} (hr : g.release n = (g₁, true)) (hh : hand g₁ n = ⟨g₂, .ok item⟩)
    (l : List NodeId) :
    releaseAll hand g (n :: l) =
        { releaseAll hand g₂ l with items := item :: (releaseAll hand g₂ l).items } ∧
      passedOn hand g (n :: l) = n :: passedOn hand g₂ l :=
  ⟨by simp only [releaseAll, hr, hh], by simp only [passedOn, hr, hh]⟩

/-- A walk ends at a node that cannot be handed on. -/
theorem walk_end {fault : Fault} (hr : g.release n = (g₁, true))
    (hh : hand g₁ n = ⟨g₂, .error fault⟩) (l : List NodeId) :
    releaseAll hand g (n :: l) = ⟨g₂, [], some fault⟩ ∧ passedOn hand g (n :: l) = [n] :=
  ⟨by simp only [releaseAll, hr, hh], by simp only [passedOn, hr, hh]⟩

/-- A walk goes through the entries `before` without a fault and ends at the next one. -/
structure EndsAt (hand : Hand κ β) (g : Graph κ) (l before : List NodeId) (m : NodeId) : Prop where
  isPrefix : before ++ [m] <+: l
  through : (releaseAll hand g before).fault = none
  ready : ((releaseAll hand g before).graph.release m).2 = true
  fault : ∃ fault, (hand ((releaseAll hand g before).graph.release m).1 m).result = .error fault
  graph : (releaseAll hand g l).graph = (hand ((releaseAll hand g before).graph.release m).1 m).state
  items : (releaseAll hand g l).items = (releaseAll hand g before).items
  passedOn : passedOn hand g l = Graph.passedOn hand g before ++ [m]

/-- A walk that goes on behind its first entry ends where the rest of it does. -/
theorem EndsAt.cons {rest before : List NodeId} {m : NodeId} (made : List β) (ready : List NodeId)
    (hwalk : ∀ l : List NodeId,
      releaseAll hand g (n :: l) =
          { releaseAll hand g₁ l with items := made ++ (releaseAll hand g₁ l).items } ∧
        Graph.passedOn hand g (n :: l) = ready ++ Graph.passedOn hand g₁ l)
    (h : EndsAt hand g₁ rest before m) : EndsAt hand g (n :: rest) (n :: before) m where
  isPrefix := (List.prefix_cons_inj n).mpr h.isPrefix
  through := by
    rw [(hwalk before).1]
    exact h.through
  ready := by
    rw [(hwalk before).1]
    exact h.ready
  fault := by
    rw [(hwalk before).1]
    exact h.fault
  graph := by
    rw [(hwalk rest).1, (hwalk before).1]
    exact h.graph
  items := by
    rw [(hwalk rest).1, (hwalk before).1]
    exact congrArg (made ++ ·) h.items
  passedOn := by
    rw [(hwalk rest).2, (hwalk before).2, h.passedOn, List.append_assoc]

/-- A fault ends a walk at some node. -/
theorem exists_endsAt {l : List NodeId} (h : (releaseAll hand g l).fault ≠ none) :
    ∃ before m, EndsAt hand g l before m := by
  induction l generalizing g with
  | nil => exact absurd rfl h
  | cons n rest ih =>
    cases hr : g.release n with
    | mk g₁ claimed =>
    cases claimed with
    | false =>
      rw [(walk_over hr rest).1] at h
      obtain ⟨before, m, hends⟩ := ih h
      exact ⟨n :: before, m, hends.cons [] [] (walk_over hr)⟩
    | true =>
      cases hh : hand g₁ n with
      | mk g₂ result =>
      cases result with
      | error fault =>
        obtain ⟨hwalk, hpassed⟩ := walk_end hr hh rest
        refine ⟨[], n, (List.prefix_cons_inj n).mpr List.nil_prefix, rfl, ?_, ⟨fault, ?_⟩, ?_, ?_,
          hpassed⟩
        · rw [releaseAll_nil, hr]
        · rw [releaseAll_nil, hr, hh]
        · rw [hwalk, releaseAll_nil, hr, hh]
        · rw [hwalk, releaseAll_nil]
      | ok item =>
        rw [(walk_on hr hh rest).1] at h
        obtain ⟨before, m, hends⟩ := ih h
        exact ⟨n :: before, m, hends.cons [item] [n] (walk_on hr hh)⟩

end Walks

section Inverted

variable {grain : Nat} {g : Graph κ} {l : List NodeId}

/-- A walk that meets no fault makes no inverted range ready. -/
theorem not_isInverted_of_passedOn (hgrain : 0 < grain) (h : g.StockedWith fun _ => True)
    (hl : ∀ m : Nat, m ∈ l → m < g.nodes.size)
    (hfault : (releaseAll (handJob grain) g l).fault = none) (m : Nat)
    (hm : m ∈ passedOn (handJob grain) g l) : ¬ g.IsInverted m := by
  induction l generalizing g with
  | nil => exact absurd hm List.not_mem_nil
  | cons n rest ih =>
    have hn := hl n List.mem_cons_self
    have hsize := (release_spec hn).size
    have hwork := work_release hn
    have hstocked := h.release hn
    have hclaims := release_claims hn
    have hself := node_release_self hn
    cases hr : g.release n with
    | mk g₁ claimed =>
    rw [hr] at hsize hwork hstocked hclaims hself
    dsimp only at hsize hwork hstocked hclaims hself
    have hrest (k : Nat) (hk : k ∈ rest) : k < g₁.nodes.size := by
      rw [hsize]
      exact hl k (List.mem_cons_of_mem n hk)
    rw [← isInverted_congr (hwork m)]
    cases claimed with
    | false =>
      rw [(walk_over hr rest).1] at hfault
      rw [(walk_over hr rest).2] at hm
      exact ih hstocked hrest hfault hm
    | true =>
      obtain ⟨hfree, hready⟩ := Bool.and_eq_true_iff.mp hclaims.symm
      obtain ⟨work, hsome, _⟩ := h n hn (by simpa using hfree)
      have hclaimed : (g₁.node n).claimed = true := by
        rw [hself, hready]
        exact Bool.or_true _
      have hhand := faithful_handJob (κ := κ) grain
      have hkept := hand_of_ne hhand g₁ n
      have hstocked' := hstocked.hand hhand (by omega) hclaimed
      cases hh : handJob grain g₁ n with
      | mk g₂ result =>
      rw [hh] at hkept hstocked'
      cases result with
      | error fault =>
        rw [(walk_end hr hh rest).1] at hfault
        cases hfault
      | ok item =>
        rw [(walk_on hr hh rest).1] at hfault
        rw [(walk_on hr hh rest).2] at hm
        by_cases hmn : n = m
        · subst hmn
          exact (exists_handJob_iff hgrain ((hwork n).trans hsome)).mp ⟨item, by rw [hh]⟩
        · have hlater := (List.mem_cons.mp hm).resolve_left (Ne.symm hmn)
          rw [← isInverted_congr (congrArg Node.work (hkept.2 m hmn))]
          exact ih hstocked' (fun k hk => by rw [hkept.1]; exact hrest k hk) hfault hlater

/-- A walk through a list takes the edges of `walked`, and makes the nodes of `ready` ready. It goes
on until it meets an inverted range among these, which leaves the edges of `left`. -/
structure WalksUpTo (g : Graph κ) (l walked left ready : List NodeId) (handed : Handed κ (Job κ)) :
    Prop where
  released : Released g walked ready handed.graph
  append : walked ++ left = l
  last : ∀ m ∈ ready, g.IsInverted m → walked.getLast? = some m
  exists_inverted : left ≠ [] → ∃ m ∈ ready, g.IsInverted m
  fault : handed.fault = none ↔ ∀ m ∈ ready, ¬ g.IsInverted m
  items : ∀ m ∈ ready, m ∈ handed.items.map Job.node ↔ ¬ g.IsInverted m

/-- The node at which a walk ends was not made ready before, and its range is inverted. -/
theorem EndsAt.isInverted (hgrain : 0 < grain) (h : g.StockedWith fun _ => True)
    {before : List NodeId} {m : NodeId} (hends : EndsAt (handJob grain) g l before m)
    (hm : m < g.nodes.size) {g₁ : Graph κ} (hg₁ : (releaseAll (handJob grain) g before).graph = g₁)
    {ready : List NodeId} (hreleased : Released g before ready g₁) : m ∉ ready ∧ g.IsInverted m := by
  have hready := hends.ready
  obtain ⟨fault, herror⟩ := hends.fault
  rw [hg₁] at hready herror
  have hm₁ : m < g₁.nodes.size := by
    rw [hreleased.size]
    exact hm
  -- Nobody had claimed the node when the walk came to it, so that it still has its work.
  have hclaims := release_claims hm₁
  rw [hready] at hclaims
  obtain ⟨hfree, _⟩ := Bool.and_eq_true_iff.mp hclaims.symm
  have hunclaimed : ¬ (g₁.node m).claimed = true := by simpa using hfree
  rw [hreleased.claimed, not_or, Bool.not_eq_true] at hunclaimed
  obtain ⟨work, hwork, _⟩ := h m hm hunclaimed.1
  have hkept : ((g₁.release m).1.node m).work = (g.node m).work :=
    (work_release hm₁ m).trans (hreleased.work m hunclaimed.2)
  refine ⟨hunclaimed.2, by_contra fun hno => ?_⟩
  rw [← isInverted_congr hkept, ← exists_handJob_iff hgrain (hkept.trans hwork)] at hno
  obtain ⟨job, hjob⟩ := hno
  cases hjob.symm.trans herror

/-- Releasing a list of nodes, each of which has its work until it is claimed. -/
theorem exists_walksUpTo (hgrain : 0 < grain) (h : g.StockedWith fun _ => True)
    (hl : ∀ m : Nat, m ∈ l → m < g.nodes.size) :
    ∃ walked left, WalksUpTo g l walked left (passedOn (handJob grain) g l)
      (releaseAll (handJob grain) g l) := by
  have hhand := faithful_handJob (κ := κ) grain
  by_cases hfault : (releaseAll (handJob grain) g l).fault = none
  · obtain ⟨walked, hwalk⟩ := exists_walk_releaseAll hhand hl
    obtain ⟨rfl, hitems⟩ := hwalk.complete hfault
    have hordered := not_isInverted_of_passedOn hgrain h hl hfault
    refine ⟨walked, [], hwalk.released, List.append_nil _, fun m hm hyes => ?_,
      fun hnil => absurd rfl hnil, iff_of_true hfault hordered, fun m hm => ?_⟩
    · exact absurd hyes (hordered m hm)
    · rw [hitems]
      exact iff_of_true hm (hordered m hm)
  · obtain ⟨before, m, hends⟩ := exists_endsAt hfault
    obtain ⟨left, hleft⟩ := hends.isPrefix
    have hlt (k : Nat) (hk : k ∈ before ++ [m]) : k < g.nodes.size :=
      hl k (hends.isPrefix.subset hk)
    have hm := hlt m List.mem_concat_self
    have hbefore (k : Nat) (hk : k ∈ before) := hlt k (List.mem_append_left _ hk)
    obtain ⟨walked, hwalk⟩ := exists_walk_releaseAll hhand hbefore
    obtain ⟨rfl, hitems⟩ := hwalk.complete hends.through
    have hordered := not_isInverted_of_passedOn hgrain h hbefore hends.through
    obtain ⟨hnot, hinverted⟩ := hends.isInverted hgrain h hm rfl hwalk.released
    have hready := hends.passedOn
    have hself : m ∈ passedOn (handJob grain) g l := by
      rw [hready]
      exact List.mem_concat_self
    have hmem (k : Nat) (hk : k ∈ passedOn (handJob grain) g l) :
        k ∈ passedOn (handJob grain) g walked ∨ k = m := by
      rw [hready] at hk
      exact (List.mem_append.mp hk).imp_right List.mem_singleton.mp
    refine ⟨walked ++ [m], left, ?_, hleft, fun k hk hyes => ?_, fun _ => ⟨m, hself, hinverted⟩,
      iff_of_false hfault fun hnone => hnone m hself hinverted, fun k hk => ?_⟩
    · have hstep := release_spec (hwalk.released.size.symm ▸ hm)
      rw [if_pos hends.ready] at hstep
      rw [hends.graph, hready]
      exact (hwalk.released.trans hstep).hand hhand List.mem_concat_self
    · rcases hmem k hk with hold | rfl
      · exact absurd hyes (hordered k hold)
      · exact List.getLast?_concat
    · rw [hends.items, hitems]
      rcases hmem k hk with hold | rfl
      · exact iff_of_true hold (hordered k hold)
      · exact iff_of_false hnot fun hno => hno hinverted

/-- The last part of a node releases its successors up to an inverted range. -/
theorem Coherent.exists_walksUpTo {load : NodeId → Nat} (hs : g.Coherent load) (hgrain : 0 < grain)
    (h : g.StockedWith fun _ => True) (n : Nat) :
    ∃ walked left, WalksUpTo (g.retire n) (g.entries n) walked left
      (passedOn (handJob grain) (g.retire n) (g.entries n))
      (releaseAll (handJob grain) (g.retire n) (g.entries n)) := by
  apply Graph.exists_walksUpTo hgrain h.retire
  intro m hm
  rw [size_nodes_retire]
  exact hs.entry_lt n m hm

/-- Of the nodes that a part passes on, those become jobs whose ranges are not inverted, and a fault
comes up if there are others. -/
theorem Coherent.finishPart_inverted {load : NodeId → Nat} (hs : g.Coherent load)
    (hgrain : 0 < grain) (h : g.StockedWith fun _ => True) {n : Nat} (hn : 0 < load n) :
    (∀ m ∈ passedOnBy (handJob grain) g n,
      m ∈ (Graph.finishPart (handJob grain) g n).items.map Job.node ↔ ¬ g.IsInverted m) ∧
    ((Graph.finishPart (handJob grain) g n).fault = none ↔
      ∀ m ∈ passedOnBy (handJob grain) g n, ¬ g.IsInverted m) := by
  obtain ⟨walked, left, hwalks⟩ := hs.exists_walksUpTo hgrain h n
  have hkept (m : NodeId) : (g.retire n).IsInverted m ↔ g.IsInverted m :=
    isInverted_congr (field_updateNode Node.work m)
  have hitems := hwalks.items
  have hfault := hwalks.fault
  simp only [hkept] at hitems hfault
  have hfinished := hs.finished (faithful_handJob grain) hn
  unfold passedOnBy
  generalize Graph.finishPart (handJob grain) g n = handed at hfinished ⊢
  cases hfinished with
  | part hparts =>
    rw [if_neg hparts]
    simp
  | stopped hparts _ _ =>
    rw [if_pos hparts]
    exact ⟨hitems, hfault⟩
  | last hparts _ _ =>
    rw [if_pos hparts]
    exact ⟨hitems, hfault⟩

end Inverted

end HazardFlow.Graph
