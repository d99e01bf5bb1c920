import HazardFlow.Proofs.Graph.Accounting

/-!
# Edges that are refused

An edge from a complete node onto one that has been submitted is refused. The call has counted the
edge by then, and stops before it gives it back: the target owes an edge that no list holds. Of
several edges those before the first that is refused are recorded, and those after it are not tried.
A node that owes an edge waits for one completion more than there are, and is never handed on.
-/

namespace HazardFlow.Graph

variable {κ : Type} {g g' : Graph κ} {owed : NodeId → Nat} {i n : Nat} {sources : List NodeId}

/-- The graph in which a node counts an edge that no list holds. -/
def raise (g : Graph κ) (n : NodeId) : Graph κ :=
  g.updateNode n fun m => { m with inDegree := m.inDegree + 1 }

@[simp] theorem size_nodes_raise (g : Graph κ) (n : NodeId) :
    (g.raise n).nodes.size = g.nodes.size := size_nodes_updateNode ..

theorem entries_raise (g : Graph κ) (n i : NodeId) : (g.raise n).entries i = g.entries i :=
  entries_updateNode i

theorem inDegree_raise (hn : n < g.nodes.size) (m : NodeId) :
    ((g.raise n).node m).inDegree = (g.node m).inDegree + if m = n then 1 else 0 := by
  unfold raise
  by_cases hm : m = n
  · subst hm
    rw [node_updateNode_self _ hn, if_pos rfl]
  · rw [node_updateNode_of_ne _ (Ne.symm hm), if_neg hm, Int.add_zero]

theorem refuses_iff : g.refuses i n = true ↔
    i ≠ n ∧ g.isComplete i = true ∧ g.isArmed n = true := by
  unfold refuses
  rw [Bool.and_eq_true, Bool.and_eq_true, bne_iff_ne]

/-- A refused edge raises the in-degree of its target. -/
theorem link_of_refuses (h : g.refuses i n = true) :
    g.link i n = .fail (g.raise n) .successorSubmitted := by
  obtain ⟨hne, hcomplete, harmed⟩ := refuses_iff.mp h
  have harmed' : (g.raise n).isArmed n = true := (isArmed_updateNode n).trans harmed
  unfold isComplete Node.isComplete at hcomplete
  unfold link
  rw [if_neg hne]
  simp only [node_updateNode_of_ne _ (Ne.symm hne)]
  cases hs : (g.node i).successors with
  | growing l => simp [hs] at hcomplete
  | closed =>
    simp only [SealableList.push_closed]
    exact if_pos harmed'

/-- The sources before the first one whose edge is refused. -/
def beforeRefusal (g : Graph κ) (n : NodeId) (sources : List NodeId) : List NodeId :=
  sources.takeWhile fun i => !g.refuses i n

/-- When an edge is refused, those before it have been recorded. -/
theorem linkAll_of_refuses (hsources : ∀ i : Nat, i ∈ sources → i < g.nodes.size)
    (hn : n < g.nodes.size) (hrefuses : ∃ i ∈ sources, g.refuses i n = true) :
    ∃ g', g.linkAll sources n = .fail (g'.raise n) .successorSubmitted ∧
      Wired g n (g.beforeRefusal n sources) g' := by
  induction sources generalizing g with
  | nil =>
    obtain ⟨_, hmem, _⟩ := hrefuses
    exact absurd hmem List.not_mem_nil
  | cons i rest ih =>
    unfold beforeRefusal linkAll
    cases hi : g.refuses i n with
    | true =>
      rw [List.takeWhile_cons_of_neg (by simp [hi]), link_of_refuses hi]
      exact ⟨g, rfl, .refl g n⟩
    | false =>
      obtain ⟨g₁, hlink, hwired⟩ := link_of_not_refuses (hsources i List.mem_cons_self) hn hi
      obtain ⟨j, hj, hrefused⟩ := hrefuses
      have hlater : ∃ j ∈ rest, g₁.refuses j n = true := by
        obtain rfl | hj := List.mem_cons.mp hj
        · rw [hi] at hrefused
          cases hrefused
        · exact ⟨j, hj, (hwired.refuses j).trans hrefused⟩
      obtain ⟨g₂, hrest, hwired'⟩ := ih (g := g₁)
        (fun k hk => by rw [hwired.size]; exact hsources k (List.mem_cons_of_mem i hk))
        (by rw [hwired.size]; exact hn) hlater
      have hsame : g₁.beforeRefusal n rest = g.beforeRefusal n rest := by
        simp only [beforeRefusal, hwired.refuses]
      rw [hsame] at hwired'
      rw [List.takeWhile_cons_of_pos (by simp [hi]), hlink, Outcome.bind_pure, hrest]
      exact ⟨g₂, rfl, hwired.trans hwired'⟩

namespace Owing

/-- The target of a refused edge owes one more. -/
theorem raise (h : g.Owing owed) (hn : n < g.nodes.size) :
    (g.raise n).Owing fun m => owed m + if m = n then 1 else 0 where
  entry i m hm := by
    rw [entries_raise] at hm
    rw [size_nodes_raise]
    exact h.entry i m hm
  inDegree m := by
    have hedge : (g.raise n).edgeCount m = g.edgeCount m := edgeCount_updateNode m
    rw [inDegree_raise hn, h.inDegree, hedge]
    split <;> (push_cast; omega)

/-- What a completion hands on: the nodes that it gives all their edges, that owe none, and that are
armed and not claimed. -/
theorem mem_items_finishPart (h : g.Owing owed) (n m : Nat) :
    m ∈ (Graph.finishPart handNode g n).items ↔
      (g.node n).parts = 1 ∧ g.isComplete n = false ∧ m ∈ g.entries n ∧ g.isArmed m = true ∧
        (g.node m).claimed = false ∧ g.openEdges m = (g.entries n).count m ∧ owed m = 0 := by
  by_cases hparts : (g.node n).parts = 1
  · by_cases hn : n < g.nodes.size
    · cases hopen : g.isComplete n with
      | true =>
        rw [finishPart_of_isComplete handNode hparts hopen]
        exact iff_of_false List.not_mem_nil fun hm => absurd hm.2.1 (by decide)
      | false =>
        have hdegree : ((g.retire n).node m).inDegree = g.edgeCount m + owed m :=
          (field_updateNode Node.inDegree m).trans (h.inDegree m)
        have hcount := g.count_entries_le_edgeCount n m
        have hmem : m ∈ g.entries n ↔ 1 ≤ (g.entries n).count m := List.count_pos_iff.symm
        have hfinished := finished_finishPart faithful_handNode hn hopen fun m hm =>
          (h.entry n m hm).2
        generalize Graph.finishPart handNode g n = handed at hfinished ⊢
        cases hfinished with
        | part hne => exact absurd hparts hne
        | stopped _ _ hfault => exact absurd (fault_releaseAll_handNode _ _) hfault
        | last _ hwalk hfault =>
          obtain ⟨rfl, hitems⟩ := hwalk.complete hfault
          rw [List.map_id] at hitems
          change m ∈ (releaseAll handNode (g.retire n) (g.entries n)).items ↔ _
          -- The walk hands on what its entries are all the edges of.
          rw [hitems, hwalk.released.mem_ready, hdegree, isArmed_retire, claimed_retire, hmem,
            ← edgeCount_eq_openEdges]
          constructor
          · rintro ⟨hclaimed, harmed, hpos, hle⟩
            refine ⟨hparts, rfl, ?_, harmed, hclaimed, ?_, ?_⟩ <;> omega
          · rintro ⟨-, -, hpos, harmed, hclaimed, hall, hnone⟩
            refine ⟨hclaimed, harmed, ?_, ?_⟩ <;> omega
    · have hnone : g.entries n = [] := by rw [entries, node_of_size_le (by omega)]; rfl
      rw [finishPart_of_size_le handNode (by omega), hnone]
      exact iff_of_false List.not_mem_nil fun hm => List.not_mem_nil hm.2.2.1
  · rw [finishPart_of_ne_one handNode hparts]
    exact iff_of_false List.not_mem_nil fun hm => hparts hm.1

end Owing

end HazardFlow.Graph
