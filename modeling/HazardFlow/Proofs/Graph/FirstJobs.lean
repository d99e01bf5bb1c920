import HazardFlow.Proofs.Graph.Stock

/-!
# First jobs

The first job of a node is made of the work that the node had when it was claimed. Other nodes keep
their works and parts meanwhile. So when a part finishes, there is a first job of an ordered range
among those that it hands on exactly if the part passed the range on.
-/

namespace HazardFlow

variable {κ β : Type}

/-- The job of a whole range. -/
def Job.ofRange (n : NodeId) (span : Span) (call : κ) {grain : Nat} (hgrain : 0 < grain)
    (hspan : span.start ≤ span.stop) : Job κ :=
  ⟨n, .range ⟨span.start, span.stop, grain, hspan, hgrain⟩ call⟩

namespace Graph

variable {g g' : Graph κ} {load : NodeId → Nat}

/-- The first job of an ordered range covers all of it. -/
theorem takeJob_range {n grain : Nat} {span : Span} {call : κ} (hgrain : 0 < grain)
    (hspan : span.start ≤ span.stop) (hwork : (g.node n).work = some (.range span call)) :
    (g.takeJob n grain).result = .ok (.ofRange n span call hgrain hspan) := by
  have hcursor : Cursor.ofSpan span grain = .ok ⟨span.start, span.stop, grain, hspan, hgrain⟩ := by
    unfold Cursor.ofSpan
    rw [dif_pos hgrain, dif_pos hspan]
  unfold takeJob
  rw [hwork]
  dsimp only
  rw [hcursor]
  rfl

section Walks

variable {hand : Hand κ β} {nodeOf : β → NodeId}

/-- A release takes nobody's work. -/
theorem work_release {m : Nat} (hm : m < g.nodes.size) (n : Nat) :
    ((g.release m).1.node n).work = (g.node n).work := by
  by_cases hmn : m = n
  · rw [← hmn, node_release_self hm]
  · rw [node_release_of_ne hmn]

/-- Handing on a node takes no other node's work, and adds no node. -/
theorem hand_of_ne (hhand : hand.Faithful nodeOf) (g : Graph κ) (m : Nat) :
    (hand g m).state.nodes.size = g.nodes.size ∧
      ∀ n : Nat, m ≠ n → (hand g m).state.node n = g.node n := by
  rcases hhand.state g m with heq | heq
  · rw [heq]
    exact ⟨rfl, fun _ _ => rfl⟩
  · rw [heq]
    exact ⟨size_nodes_updateNode .., fun n hmn => node_updateNode_of_ne _ hmn⟩

/-- What is handed on of a node that was claimed before is nothing. -/
theorem filter_items_of_claimed (hhand : hand.Faithful nodeOf) {l : List NodeId}
    (hl : ∀ m : Nat, m ∈ l → m < g.nodes.size) {n : Nat} (hn : (g.node n).claimed = true) :
    (releaseAll hand g l).items.filter (nodeOf · == n) = [] := by
  obtain ⟨walked, hwalk⟩ := exists_walk_releaseAll hhand hl
  refine List.filter_eq_nil_iff.mpr fun item hitem hyes => ?_
  have hmem := hwalk.items_isPrefix.subset (List.mem_map_of_mem hitem)
  have hfree := ((hwalk.released.mem_ready _).mp hmem).1
  rw [beq_iff_eq.mp hyes, hn] at hfree
  cases hfree

/-- A node that is passed on is handed on with the work that it had before the walk, and once, or a
fault stops the walk at it. -/
theorem exists_handed (hhand : hand.Faithful nodeOf) {l : List NodeId}
    (hl : ∀ m : Nat, m ∈ l → m < g.nodes.size) {n : Nat} (hn : n ∈ passedOn hand g l) :
    ∃ g' : Graph κ, (g'.node n).work = (g.node n).work ∧
      ((∃ fault, (hand g' n).result = .error fault) ∨
        ∃ item, (hand g' n).result = .ok item ∧
          (releaseAll hand g l).items.filter (nodeOf · == n) = [item]) := by
  induction l generalizing g with
  | nil => exact absurd hn List.not_mem_nil
  | cons m rest ih =>
    have hm := hl m List.mem_cons_self
    have hsize := (release_spec hm).size
    have hwork := work_release hm n
    have hready : (g.release m).2 = true → ((g.release m).1.node m).claimed = true := fun hyes =>
      ((release_spec hm).claimed m).mpr (Or.inr (by rw [if_pos hyes]; exact List.mem_cons_self))
    unfold passedOn at hn
    unfold releaseAll
    cases hr : g.release m with
    | mk g₁ claimed =>
    rw [hr] at hn hsize hwork hready
    dsimp only at hsize hwork hready
    rw [← hwork]
    have hrest : ∀ k : Nat, k ∈ rest → k < g₁.nodes.size := fun k hk => by
      rw [hsize]
      exact hl k (List.mem_cons_of_mem m hk)
    cases claimed with
    | false => exact ih hrest hn
    | true =>
      obtain ⟨hkept, hother⟩ := hand_of_ne hhand g₁ m
      have hclaimed := (hhand.claimed g₁ m m).trans (hready rfl)
      have hitem := hhand.item g₁ m
      dsimp only at hn ⊢
      cases hh : hand g₁ m with
      | mk g₂ result =>
      rw [hh] at hn hkept hother hclaimed hitem
      dsimp only at hn hkept hother hclaimed hitem
      have hrest₂ : ∀ k : Nat, k ∈ rest → k < g₂.nodes.size := fun k hk => by
        rw [hkept]
        exact hrest k hk
      by_cases hmn : m = n
      · subst hmn
        refine ⟨g₁, rfl, ?_⟩
        cases result with
        | error fault => exact Or.inl ⟨fault, by rw [hh]⟩
        | ok item =>
          -- The node has been claimed by now, so that the rest of the walk passes it over.
          refine Or.inr ⟨item, by rw [hh], ?_⟩
          dsimp only
          rw [List.filter_cons_of_pos (by simp [hitem item rfl]),
            filter_items_of_claimed hhand hrest₂ hclaimed]
      · cases result with
        | error fault => exact absurd (List.mem_singleton.mp hn) (Ne.symm hmn)
        | ok item =>
          obtain ⟨g', hwork', hhanded⟩ :=
            ih hrest₂ ((List.mem_cons.mp hn).resolve_left (Ne.symm hmn))
          refine ⟨g', hwork'.trans (by rw [hother n hmn]), hhanded.imp_right ?_⟩
          rintro ⟨other, hok, hfilter⟩
          refine ⟨other, hok, ?_⟩
          dsimp only
          rw [List.filter_cons_of_neg (by simpa [hitem item rfl] using hmn), hfilter]

end Walks

section FinishPart

variable {grain n m : Nat} {span : Span} {call : κ}

/-- A job is made of a node that a part passes on, and of the work that the node has, or a fault comes
up there. -/
theorem exists_filter_items (hs : g.Coherent load) (hm : 0 < load m)
    (hn : n ∈ passedOnBy (fun g n => takeJob g n grain) g m) :
    ∃ g' : Graph κ, (g'.node n).work = (g.node n).work ∧
      ((∃ fault, (g'.takeJob n grain).result = .error fault) ∨
        ∃ job, (g'.takeJob n grain).result = .ok job ∧
          (finishPart (fun g n => takeJob g n grain) g m).items.filter (·.node == n) = [job]) := by
  have hhand := faithful_takeJob (κ := κ) grain
  have hentries : ∀ k : Nat, k ∈ g.entries m → k < (g.retire m).nodes.size := fun k hk => by
    rw [size_nodes_retire]
    exact hs.entry_lt m k hk
  have hkept : ((g.retire m).node n).work = (g.node n).work := field_updateNode Node.work n
  have hfinished := hs.finished hhand hm
  unfold passedOnBy at hn
  generalize finishPart (fun g n => takeJob g n grain) g m = handed at hfinished ⊢
  rw [← hkept]
  cases hfinished with
  | part hparts =>
    rw [if_neg hparts] at hn
    exact absurd hn List.not_mem_nil
  | stopped hparts _ _ =>
    rw [if_pos hparts] at hn
    exact exists_handed hhand hentries hn
  | last hparts _ _ =>
    rw [if_pos hparts] at hn
    exact exists_handed hhand hentries hn

/-- One job is made of an ordered range that a part passes on, and it covers the whole range. -/
theorem filter_items_finishPart (hs : g.Coherent load) (hm : 0 < load m) (hgrain : 0 < grain)
    (hspan : span.start ≤ span.stop) (hwork : (g.node n).work = some (.range span call))
    (hn : n ∈ passedOnBy (fun g n => takeJob g n grain) g m) :
    (finishPart (fun g n => takeJob g n grain) g m).items.filter (·.node == n) =
      [.ofRange n span call hgrain hspan] := by
  obtain ⟨g', hwork', hhanded⟩ := exists_filter_items hs hm hn
  have hmade := takeJob_range hgrain hspan (hwork'.trans hwork)
  rcases hhanded with ⟨fault, hfault⟩ | ⟨job, hjob, hfilter⟩
  · cases hmade.symm.trans hfault
  · rw [hfilter, Except.ok.inj (hmade.symm.trans hjob)]

/-- A job of an idle work does nothing. -/
theorem takeJob_idle (grain : Nat) (hwork : (g.node n).work = some .idle) :
    (g.takeJob n grain).result = .ok ⟨n, .idle⟩ := by
  unfold takeJob
  rw [hwork]
  rfl

/-- So do the jobs made of nodes with idle works that a part passes on. -/
theorem task_of_mem_items (hs : g.Coherent load) (hm : 0 < load m) {job : Job κ}
    (hjob : job ∈ (finishPart (fun g n => takeJob g n grain) g m).items)
    (hwork : (g.node job.node).work = some .idle) : job.task = .idle := by
  have hpassed := (hs.finished (faithful_takeJob grain) hm).items.1.subset
    (List.mem_map_of_mem hjob)
  obtain ⟨g', hwork', hhanded⟩ := exists_filter_items hs hm hpassed
  have hmade := takeJob_idle grain (hwork'.trans hwork)
  rcases hhanded with ⟨fault, hfault⟩ | ⟨first, hfirst, hfilter⟩
  · cases hmade.symm.trans hfault
  · have hmem : job ∈ [first] := hfilter ▸ List.mem_filter.mpr ⟨hjob, beq_self_eq_true _⟩
    rw [List.mem_singleton.mp hmem, ← Except.ok.inj (hmade.symm.trans hfirst)]

end FinishPart

end Graph

end HazardFlow
