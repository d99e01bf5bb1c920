import HazardFlow.Proofs.Graph.Preservation

/-!
# The works of nodes

A node keeps its work until it is claimed, and its claim is followed by taking the work, once. So
nothing can go wrong in taking it but that its range has no cursor, and not even that when ranges
are ordered and the grain is not zero.
-/

namespace HazardFlow

variable {κ β : Type}

/-- A work that a cursor can cover, if it needs one. -/
def Work.Ordered : Work κ → Prop
  | .range span _ => span.start ≤ span.stop
  | _ => True

/-- The faults of a range that no cursor covers. -/
def Fault.OfCursor (fault : Fault) : Prop := fault = .cursorInverted ∨ fault = .grainZero

namespace Graph

/-- Every node that nobody has claimed has a work, of a certain kind. -/
def StockedWith (kind : Work κ → Prop) (g : Graph κ) : Prop :=
  ∀ n : Nat, n < g.nodes.size → (g.node n).claimed = false →
    ∃ work, (g.node n).work = some work ∧ kind work

/-- Every node that nobody has claimed has a work that can be taken. -/
def Stocked (g : Graph κ) : Prop := g.StockedWith Work.Ordered

/-- A work that can be taken makes a job. -/
theorem exists_takeJob {g : Graph κ} {n grain : Nat} {work : Work κ} (hgrain : 0 < grain)
    (hwork : (g.node n).work = some work) (hordered : work.Ordered) :
    ∃ job, g.takeJob n grain = .pure (g.updateNode n ({ · with work := none })) job := by
  unfold takeJob
  rw [hwork]
  cases work with
  | kernel call => exact ⟨_, rfl⟩
  | host call => exact ⟨_, rfl⟩
  | idle => exact ⟨_, rfl⟩
  | range span call =>
    have hspan : span.start ≤ span.stop := hordered
    have hcursor : Cursor.ofSpan span grain =
        .ok ⟨span.start, span.stop, grain, hspan, hgrain⟩ := by
      unfold Cursor.ofSpan
      rw [dif_pos hgrain, dif_pos hspan]
    dsimp only
    rw [hcursor]
    exact ⟨_, rfl⟩

/-- A work that is there is taken, or its range has no cursor. -/
theorem ofCursor_of_takeJob {g : Graph κ} {n grain : Nat} {work : Work κ} {fault : Fault}
    (hwork : (g.node n).work = some work)
    (hfault : (g.takeJob n grain).result = .error fault) : fault.OfCursor := by
  unfold takeJob at hfault
  rw [hwork] at hfault
  cases work with
  | range span call =>
    dsimp only at hfault
    unfold Cursor.ofSpan at hfault
    by_cases hgrain : 0 < grain
    · by_cases hspan : span.start ≤ span.stop
      · simp [hgrain, hspan, Outcome.pure] at hfault
      · simp only [hgrain, hspan, dif_pos, dif_neg, not_false_eq_true, Outcome.fail,
          Except.error.injEq] at hfault
        exact Or.inl hfault.symm
    · simp only [hgrain, dif_neg, not_false_eq_true, Outcome.fail, Except.error.injEq] at hfault
      exact Or.inr hfault.symm
  | _ => simp [Outcome.pure] at hfault

namespace StockedWith

variable {kind : Work κ → Prop} {g : Graph κ} {n : Nat}

/-- A graph stays stocked when nodes are only claimed. -/
theorem of_work {g' : Graph κ} (h : g.StockedWith kind) (hsize : g'.nodes.size = g.nodes.size)
    (hkept : ∀ m : Nat, m < g.nodes.size → (g'.node m).claimed = false →
      (g.node m).claimed = false ∧ (g'.node m).work = (g.node m).work) : g'.StockedWith kind := by
  intro m hm hc
  rw [hsize] at hm
  obtain ⟨hfree, hwork⟩ := hkept m hm hc
  rw [hwork]
  exact h m hm hfree

theorem retire (h : g.StockedWith kind) : (g.retire n).StockedWith kind := by
  refine h.of_work (size_nodes_retire g n) fun m _ hc => ?_
  have hclaimed : ((g.retire n).node m).claimed = (g.node m).claimed :=
    field_updateNode Node.claimed m
  rw [hclaimed] at hc
  exact ⟨hc, field_updateNode Node.work m⟩

theorem release (h : g.StockedWith kind) (hn : n < g.nodes.size) :
    (g.release n).1.StockedWith kind := by
  refine h.of_work (release_spec hn).size fun m _ hc => ?_
  by_cases hm : n = m
  · subst hm
    rw [node_release_self hn] at hc ⊢
    exact ⟨(Bool.or_eq_false_iff.mp hc).1, rfl⟩
  · rw [node_release_of_ne hm] at hc ⊢
    exact ⟨hc, rfl⟩

/-- Taking the work of a claimed node leaves the others' alone. -/
theorem clear (h : g.StockedWith kind) (hn : n < g.nodes.size)
    (hclaimed : (g.node n).claimed = true) :
    (g.updateNode n ({ · with work := none })).StockedWith kind := by
  refine h.of_work (size_nodes_updateNode ..) fun m _ hc => ?_
  by_cases hm : n = m
  · subst hm
    rw [node_updateNode_self _ hn, hclaimed] at hc
    cases hc
  · rw [node_updateNode_of_ne _ hm] at hc ⊢
    exact ⟨hc, rfl⟩

/-- Handing on a claimed node leaves the others' works alone. -/
theorem hand (h : g.StockedWith kind) {hand : Hand κ β} {nodeOf : β → NodeId}
    (hhand : hand.Faithful nodeOf) (hn : n < g.nodes.size) (hclaimed : (g.node n).claimed = true) :
    (hand g n).state.StockedWith kind := by
  rcases hhand.state g n with heq | heq
  · rwa [heq]
  · rw [heq]
    exact h.clear hn hclaimed

end StockedWith

/-- The faults that stop the release of nodes are those of handing on a node with a work of the
kind that all nodes have. -/
theorem fault_releaseAll_of {kind : Work κ → Prop} {hand : Hand κ β} {nodeOf : β → NodeId}
    (hhand : hand.Faithful nodeOf) {fault : Fault}
    (hfault : ∀ (g : Graph κ) (n : Nat) (work : Work κ), (g.node n).work = some work → kind work →
      (hand g n).result ≠ .error fault)
    {g : Graph κ} {l : List NodeId} (h : g.StockedWith kind)
    (hl : ∀ m : Nat, m ∈ l → m < g.nodes.size) : (releaseAll hand g l).fault ≠ some fault := by
  induction l generalizing g with
  | nil => exact nofun
  | cons n rest ih =>
    have hn := hl n (by simp)
    have hsize := (release_spec hn).size
    have hstocked := h.release hn
    have hclaims := release_claims hn
    have hself := node_release_self hn
    have hrest : ∀ m : Nat, m ∈ rest → m < (g.release n).1.nodes.size := fun m hm => by
      rw [hsize]
      exact hl m (by simp [hm])
    unfold releaseAll
    cases hr : g.release n with
    | mk g₁ claimed =>
    rw [hr] at hsize hstocked hclaims hself hrest
    dsimp only at hsize hstocked hclaims hself hrest
    cases claimed with
    | false => exact ih hstocked hrest
    | true =>
      obtain ⟨hfree, hready⟩ := Bool.and_eq_true_iff.mp hclaims.symm
      obtain ⟨work, hwork, hkind⟩ := h n hn (by simpa using hfree)
      have hnone := hfault g₁ n work (by rw [hself]; exact hwork) hkind
      have hclaimed : (g₁.node n).claimed = true := by
        rw [hself, hready]
        exact Bool.or_true _
      have hhanded := hstocked.hand hhand (by omega) hclaimed
      have hkept : (hand g₁ n).state.nodes.size = g₁.nodes.size := by
        rcases hhand.state g₁ n with heq | heq <;> rw [heq]
        exact size_nodes_updateNode ..
      dsimp only
      cases hh : hand g₁ n with
      | mk g₂ result =>
      rw [hh] at hnone hhanded hkept
      cases result with
      | error other =>
        exact fun heq => hnone (by rw [Option.some.inj heq])
      | ok item => exact ih hhanded (by rw [hkept]; exact hrest)

/-- In a stocked graph no fault stops the release of nodes. -/
theorem fault_releaseAll {grain : Nat} (hgrain : 0 < grain) {g : Graph κ} {l : List NodeId}
    (h : g.Stocked) (hl : ∀ m : Nat, m ∈ l → m < g.nodes.size) :
    (releaseAll (fun g n => takeJob g n grain) g l).fault = none := by
  rw [Option.eq_none_iff_forall_ne_some]
  intro fault
  refine fault_releaseAll_of (faithful_takeJob grain) (fun g n work hwork hordered => ?_) h hl
  obtain ⟨job, hjob⟩ := exists_takeJob hgrain hwork hordered
  rw [hjob]
  exact nofun

/-- In a coherent and stocked graph no fault comes up when a part finishes. -/
theorem fault_finishPart {grain : Nat} (hgrain : 0 < grain) {g : Graph κ} {load : NodeId → Nat}
    (hs : g.Coherent load) (h : g.Stocked) {n : Nat} (hn : 0 < load n) :
    (finishPart (fun g n => takeJob g n grain) g n).fault = none := by
  have hfinished := hs.finished (faithful_takeJob grain) hn
  generalize finishPart (fun g n => takeJob g n grain) g n = handed at hfinished ⊢
  cases hfinished with
  | part _ => rfl
  | stopped _ _ hfault =>
    refine absurd (fault_releaseAll hgrain h.retire fun m hm => ?_) hfault
    rw [size_nodes_retire]
    exact hs.entry_lt n m hm
  | last _ _ hfault => exact hfault

end Graph

end HazardFlow
