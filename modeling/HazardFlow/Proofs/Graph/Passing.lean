import HazardFlow.Proofs.Graph.FirstJobs

/-!
# Walks without a fault

A walk through successors that meets no fault hands on every node that it claims. What it hands on
is settled beforehand, when what becomes of a node depends on the node's own work: walks that name
each node equally often claim the same nodes, make the same of them and leave the same graph.
-/

namespace HazardFlow

variable {κ β : Type}

/-- What handing on makes of a node depends on the work of that node only. -/
structure Hand.Local (hand : Hand κ β) (nodeOf : β → NodeId) : Prop
    extends Hand.Faithful hand nodeOf where
  result : ∀ {g g' : Graph κ} {n : Nat}, (g.node n).work = (g'.node n).work →
    (hand g n).result = (hand g' n).result
  work : ∀ {g g' : Graph κ} {n : Nat}, g.nodes.size = g'.nodes.size →
    (g.node n).work = (g'.node n).work →
      ((hand g n).state.node n).work = ((hand g' n).state.node n).work

namespace Graph

/-- Graphs with the same batches and the same nodes are the same. -/
theorem eq_of_node {g g' : Graph κ} (hbatches : g.batches = g'.batches)
    (hsize : g.nodes.size = g'.nodes.size) (hnode : ∀ n : Nat, g.node n = g'.node n) : g = g' := by
  have hnodes : g.nodes = g'.nodes := by
    refine Array.ext hsize fun n hn hn' => ?_
    have hget := hnode n
    simpa only [node, Array.getD_eq_getD_getElem?, Array.getElem?_eq_getElem hn,
      Array.getElem?_eq_getElem hn', Option.getD_some] using hget
  cases g
  cases g'
  simp_all

theorem local_handNode : Hand.Local (handNode (κ := κ)) id where
  state _ _ := Or.inl rfl
  item _ _ _ h := (Except.ok.inj h).symm
  result _ := rfl
  work _ h := h

/-- Taking the work of a node leaves it with none. -/
theorem work_takeJob (g : Graph κ) (n grain : Nat) :
    ((g.takeJob n grain).state.node n).work = none := by
  have hcleared : ((g.updateNode n ({ · with work := none })).node n).work = none := by
    by_cases hn : n < g.nodes.size
    · rw [node_updateNode_self _ hn]
    · rw [node_of_size_le (by simpa using hn)]
      rfl
  unfold takeJob
  cases hwork : (g.node n).work with
  | none => exact hwork
  | some work =>
    cases work with
    | range span call => cases hc : Cursor.ofSpan span grain <;> simpa [hc] using hcleared
    | _ => exact hcleared

theorem local_takeJob (grain : Nat) :
    Hand.Local (fun g n => takeJob (κ := κ) g n grain) Job.node where
  toFaithful := faithful_takeJob grain
  result {g g' n} h := by
    unfold takeJob
    rw [h]
    cases (g'.node n).work with
    | none => rfl
    | some work =>
      cases work with
      | range span call =>
        cases hc : Cursor.ofSpan span grain <;> simp [hc, Outcome.pure, Outcome.fail]
      | _ => rfl
  work _ _ := by rw [work_takeJob, work_takeJob]

/-- A walk that handed on every node that it claimed. -/
structure Passed (hand : Hand κ β) (nodeOf : β → NodeId) (g : Graph κ) (walked : List NodeId)
    (items : List β) (g' : Graph κ) : Prop
    extends Released g walked (items.map nodeOf) g' where
  made : ∀ item ∈ items, (hand g (nodeOf item)).result = .ok item
  taken : ∀ n ∈ items.map nodeOf, (g'.node n).work = ((hand g n).state.node n).work

/-- Every node that a walk claims can be handed on. -/
def Serves (hand : Hand κ β) (g : Graph κ) (walked : List NodeId) : Prop :=
  ∀ n : Nat, (g.node n).claimed = false → g.isArmed n = true → 1 ≤ (g.node n).inDegree →
    (g.node n).inDegree ≤ (walked.count n : Int) → ∃ item, (hand g n).result = .ok item

section Walks

variable {hand : Hand κ β} {nodeOf : β → NodeId} {g g' g'' : Graph κ} {n : NodeId}
  {walked more : List NodeId} {items later : List β}

/-- What nobody has claimed at the end of a walk, it has left alone. -/
theorem Released.of_not_claimed {ready : List NodeId} (h : Released g walked ready g') {n : Nat}
    (hn : (g'.node n).claimed = false) : (g.node n).claimed = false ∧ n ∉ ready := by
  rw [← Bool.not_eq_true, h.claimed, not_or, Bool.not_eq_true] at hn
  exact hn

/-- A walk claims no node that an earlier one has claimed. -/
theorem Released.not_mem_of_later {ready next : List NodeId} (h : Released g walked ready g')
    (h' : Released g' more next g'') {n : Nat} (hn : n ∈ next) : n ∉ ready :=
  (h.of_not_claimed ((h'.mem_ready n).mp hn).1).2

namespace Passed

theorem refl (g : Graph κ) : Passed hand nodeOf g [] [] g where
  toReleased := .refl g
  made _ h := absurd h List.not_mem_nil
  taken _ h := absurd h List.not_mem_nil

theorem trans (hhand : hand.Local nodeOf) (h : Passed hand nodeOf g walked items g')
    (h' : Passed hand nodeOf g' more later g'') :
    Passed hand nodeOf g (walked ++ more) (items ++ later) g'' where
  toReleased := by
    rw [List.map_append]
    exact h.toReleased.trans h'.toReleased
  made item hitem := by
    rcases List.mem_append.mp hitem with hfirst | hlater
    · exact h.made item hfirst
    · have hnot := h.toReleased.not_mem_of_later h'.toReleased (List.mem_map_of_mem hlater)
      rw [← hhand.result (h.work _ hnot)]
      exact h'.made item hlater
  taken n hn := by
    rw [List.map_append, List.mem_append] at hn
    rcases hn with hfirst | hlater
    · have hnot : n ∉ later.map nodeOf := fun hlater =>
        h.toReleased.not_mem_of_later h'.toReleased hlater hfirst
      rw [h'.work n hnot, h.taken n hfirst]
    · have hnot := h.toReleased.not_mem_of_later h'.toReleased hlater
      rw [h'.taken n hlater]
      exact hhand.work h.size (h.work n hnot)

/-- The nodes that a walk claimed could be handed on. -/
theorem serves (h : Passed hand nodeOf g walked items g') : Serves hand g walked := by
  intro n hc harmed hone hle
  have hmem := (h.mem_ready n).mpr ⟨hc, harmed, hone, hle⟩
  obtain ⟨item, hitem, rfl⟩ := List.mem_map.mp hmem
  exact ⟨item, h.made item hitem⟩

end Passed

namespace Serves

/-- A shorter walk claims fewer nodes. -/
theorem of_append (h : Serves hand g (walked ++ more)) : Serves hand g walked := by
  intro n hc harmed hone hle
  refine h n hc harmed hone ?_
  rw [List.count_append]
  push_cast
  omega

theorem of_perm (h : Serves hand g walked) (hperm : walked.Perm more) : Serves hand g more := by
  intro n hc harmed hone hle
  exact h n hc harmed hone (by rwa [hperm.count_eq])

/-- What is left of a walk claims no node that the whole of it does not claim. -/
theorem of_passed (hhand : hand.Local nodeOf) (h : Serves hand g (walked ++ more))
    (hp : Passed hand nodeOf g walked items g') : Serves hand g' more := by
  intro n hc harmed hone hle
  obtain ⟨hfree, hnot⟩ := hp.toReleased.of_not_claimed hc
  rw [hp.isArmed] at harmed
  have hdegree := hp.inDegree n
  rw [hhand.result (hp.work n hnot)]
  refine h n hfree harmed (by omega) ?_
  rw [List.count_append]
  push_cast
  omega

/-- Whether nodes can be handed on does not depend on parts, successors and what batches count. -/
theorem of_kept (hhand : hand.Local nodeOf) (h : Serves hand g walked)
    (hnode : ∀ n : Nat, (g'.node n).claimed = (g.node n).claimed ∧
      (g'.node n).inDegree = (g.node n).inDegree ∧ (g'.node n).work = (g.node n).work)
    (harmed : ∀ n : Nat, g'.isArmed n = g.isArmed n) : Serves hand g' walked := by
  intro n hc hyes hone hle
  obtain ⟨hclaimed, hdegree, hwork⟩ := hnode n
  rw [hclaimed] at hc
  rw [harmed] at hyes
  rw [hdegree] at hone hle
  rw [hhand.result hwork]
  exact h n hc hyes hone hle

end Serves

/-- One step of a walk: a release that claims nothing, or a node that is claimed and handed on. -/
theorem passed_release (hhand : hand.Local nodeOf) (hn : n < g.nodes.size) :
    ((g.release n).2 = false → Passed hand nodeOf g [n] [] (g.release n).1) ∧
    ((g.release n).2 = true → (hand (g.release n).1 n).result = (hand g n).result ∧
      ∀ item, (hand g n).result = .ok item →
        Passed hand nodeOf g [n] [item] (hand (g.release n).1 n).state) := by
  have hstep := release_spec hn
  have hwork := work_release hn n
  constructor
  · intro hfalse
    rw [hfalse] at hstep
    exact ⟨hstep, fun _ h => absurd h List.not_mem_nil, fun _ h => absurd h List.not_mem_nil⟩
  · intro htrue
    rw [htrue, if_pos rfl] at hstep
    have hresult := hhand.result hwork
    refine ⟨hresult, fun item hitem => ?_⟩
    have hnode : nodeOf item = n := hhand.item _ n item hitem
    have hmap : [item].map nodeOf = [n] := by simp [hnode]
    refine ⟨?_, fun other hother => ?_, fun m hm => ?_⟩
    · rw [hmap]
      exact hstep.hand hhand.toFaithful (List.mem_singleton_self n)
    · rw [List.mem_singleton.mp hother, hnode]
      exact hitem
    · rw [hmap, List.mem_singleton] at hm
      subst hm
      exact hhand.work hstep.size hwork

/-- A walk without a fault handed on what it claimed. -/
theorem passed_releaseAll (hhand : hand.Local nodeOf) {l : List NodeId}
    (hl : ∀ m ∈ l, m < g.nodes.size) (hfault : (releaseAll hand g l).fault = none) :
    Passed hand nodeOf g l (releaseAll hand g l).items (releaseAll hand g l).graph := by
  induction l generalizing g with
  | nil => exact .refl g
  | cons n rest ih =>
    obtain ⟨hquiet, hclaims⟩ := passed_release hhand (hl n List.mem_cons_self)
    have hrest {g₁ : Graph κ} {items : List β} (hp : Passed hand nodeOf g [n] items g₁) :
        ∀ m ∈ rest, m < g₁.nodes.size := fun m hm => by
      rw [hp.size]
      exact hl m (List.mem_cons_of_mem n hm)
    unfold releaseAll at hfault ⊢
    cases hr : g.release n with
    | mk g₁ claimed =>
    rw [hr] at hfault hquiet hclaims
    cases claimed with
    | false => exact (hquiet rfl).trans hhand (ih (hrest (hquiet rfl)) hfault)
    | true =>
      obtain ⟨hresult, hpassed⟩ := hclaims rfl
      dsimp only at hfault hresult hpassed ⊢
      cases hh : hand g₁ n with
      | mk g₂ result =>
      rw [hh] at hfault hresult hpassed
      cases result with
      | error fault => cases hfault
      | ok item =>
        have hp := hpassed item hresult.symm
        exact hp.trans hhand (ih (hrest hp) hfault)

/-- No fault stops a walk when every node that it claims can be handed on. -/
theorem Serves.fault_releaseAll (hhand : hand.Local nodeOf) {l : List NodeId}
    (hl : ∀ m ∈ l, m < g.nodes.size) (h : Serves hand g l) :
    (releaseAll hand g l).fault = none := by
  induction l generalizing g with
  | nil => rfl
  | cons n rest ih =>
    have hn := hl n List.mem_cons_self
    obtain ⟨hquiet, hclaims⟩ := passed_release hhand hn
    have hrest {g₁ : Graph κ} {items : List β} (hp : Passed hand nodeOf g [n] items g₁) :
        (releaseAll hand g₁ rest).fault = none := by
      refine ih (fun m hm => ?_) (of_passed hhand h hp)
      rw [hp.size]
      exact hl m (List.mem_cons_of_mem n hm)
    have hmem := (release_spec hn).mem_ready n
    unfold releaseAll
    cases hr : g.release n with
    | mk g₁ claimed =>
    rw [hr] at hquiet hclaims hmem
    cases claimed with
    | false => exact hrest (hquiet rfl)
    | true =>
      obtain ⟨hfree, harmed, hone, hle⟩ := hmem.mp (by simp)
      have hfirst : Serves hand g ([n] ++ rest) := h
      have hserved : ∃ item, (hand g n).result = .ok item :=
        hfirst.of_append n hfree harmed hone hle
      obtain ⟨item, hitem⟩ := hserved
      obtain ⟨hresult, hpassed⟩ := hclaims rfl
      dsimp only at hresult hpassed ⊢
      cases hh : hand g₁ n with
      | mk g₂ result =>
      rw [hh] at hresult hpassed
      rw [hitem] at hresult
      dsimp only at hresult
      subst hresult
      exact hrest (hpassed item hitem)

/-- What a walk leaves and hands on depends on how often it names each node. -/
theorem Passed.alike (h : Passed hand nodeOf g walked items g')
    (h' : Passed hand nodeOf g more later g'') (hperm : walked.Perm more) :
    g' = g'' ∧ items.Perm later := by
  have hready : (items.map nodeOf).Perm (later.map nodeOf) :=
    (List.perm_ext_iff_of_nodup h.nodup h'.nodup).mpr fun m => by
      rw [h.mem_ready, h'.mem_ready, hperm.count_eq]
  constructor
  · refine eq_of_node (h.batches.trans h'.batches.symm) (h.size.trans h'.size.symm) fun m => ?_
    have hdegree : (g'.node m).inDegree = (g''.node m).inDegree := by
      rw [h.inDegree, h'.inDegree, hperm.count_eq]
    have hclaimed : (g'.node m).claimed = (g''.node m).claimed := by
      rw [Bool.eq_iff_iff, h.claimed, h'.claimed, hready.mem_iff]
    have hwork : (g'.node m).work = (g''.node m).work := by
      by_cases hm : m ∈ items.map nodeOf
      · rw [h.taken m hm, h'.taken m (hready.mem_iff.mp hm)]
      · rw [h.work m hm, h'.work m fun hyes => hm (hready.mem_iff.mpr hyes)]
    rw [h.node m, h'.node m, hdegree, hclaimed, hwork]
  · -- An item is what handing on its node gives, so that equal nodes come with equal items.
    have hsome {l : List β} (hmade : ∀ item ∈ l, (hand g (nodeOf item)).result = .ok item) :
        (l.map nodeOf).filterMap (fun n => (hand g n).result.toOption) = l := by
      rw [List.filterMap_map]
      conv_rhs => rw [← List.filterMap_some (l := l)]
      refine List.filterMap_congr fun item hitem => ?_
      rw [Function.comp_apply, hmade item hitem]
      rfl
    rw [← hsome h.made, ← hsome h'.made]
    exact hready.filterMap _

end Walks

end Graph

end HazardFlow
