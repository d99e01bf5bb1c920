import HazardFlow.Proofs.Tracker.History

/-!
# Wiring a node by its accesses

A node is wired by resolving its reads, then its writes, and by edges from its explicit
predecessors. The whole is one wiring of the graph and extends the tracked log by the node's
accesses.
-/

namespace HazardFlow.Tracker

variable {κ : Type}

/-- What resolving the accesses `uses` of a node leaves behind: edges from `sources`, and a
tracker that tracks these accesses too. -/
structure Resolved (t : Tracker) (g : Graph κ) (n : Nat) (uses : List Use)
    (sources : List NodeId) (t' : Tracker) (g' : Graph κ) : Prop where
  wired : Graph.Wired g n sources g'
  sources_lt : ∀ i : Nat, i ∈ sources → i < g.nodes.size
  within : t'.Within g.nodes.size
  size : t'.shards.size = t.shards.size
  tracks : ∀ log, t.Tracks g log → t'.Tracks g' (log ++ uses)

namespace Resolved

variable {t t' t'' : Tracker} {g g' g'' : Graph κ} {n : Nat}

theorem refl (g : Graph κ) (n : Nat) (ht : t.Within g.nodes.size) : Resolved t g n [] [] t g where
  wired := .refl g n
  sources_lt i hi := absurd hi List.not_mem_nil
  within := ht
  size := rfl
  tracks log h := by rwa [List.append_nil]

theorem trans {uses more : List Use} {sources others : List NodeId}
    (h : Resolved t g n uses sources t' g') (h' : Resolved t' g' n more others t'' g'') :
    Resolved t g n (uses ++ more) (sources ++ others) t'' g'' where
  wired := h.wired.trans h'.wired
  sources_lt i hi := by
    rcases List.mem_append.mp hi with hi | hi
    · exact h.sources_lt i hi
    · rw [← h.wired.size]
      exact h'.sources_lt i hi
  within := by
    rw [← h.wired.size]
    exact h'.within
  size := h'.size.trans h.size
  tracks log hlog := by
    rw [← List.append_assoc]
    exact h'.tracks _ (h.tracks log hlog)

/-- Explicit predecessors add edges and no accesses. -/
theorem links {sources : List NodeId} (ht : t.Within g.nodes.size) (hw : Graph.Wired g n sources g')
    (hsources : ∀ i : Nat, i ∈ sources → i < g.nodes.size) : Resolved t g n [] sources t g' where
  wired := hw
  sources_lt := hsources
  within := ht
  size := rfl
  tracks log h := by
    rw [List.append_nil]
    exact h.later (.wired hw)

end Resolved

/-- Resolving one access of a node not yet submitted. -/
theorem exists_resolved_resolve {t : Tracker} {g : Graph κ} {n : Nat} (hpos : 0 < t.shards.size)
    (ht : t.Within g.nodes.size) (hn : n < g.nodes.size) (harmed : g.isArmed n = false)
    (a : Address) (write : Bool) :
    ∃ g' wired, t.resolve g n a write = .pure (t.record g n a write, g') wired ∧
      Resolved t g n [⟨n, a, write⟩] (t.conflicts a write) (t.record g n a write) g' := by
  obtain ⟨g', hresolve, hw⟩ := resolve_spec ht hn harmed a write
  refine ⟨g', _, hresolve, hw, fun i hi => ?_, ht.record hn g a write,
    size_shards_record t g n a write, fun log hlog => hlog.record hpos hw⟩
  apply ht (t.shardOf a) i
  unfold conflicts at hi
  rcases List.mem_append.mp hi with hi | hi
  · exact List.mem_append_left _ hi
  · apply List.mem_append_right
    cases write with
    | true => exact hi
    | false => exact absurd hi List.not_mem_nil

/-- Resolving several accesses of a node not yet submitted. -/
theorem exists_resolved_resolveAll {t : Tracker} {g : Graph κ} {n : Nat}
    (hpos : 0 < t.shards.size) (ht : t.Within g.nodes.size) (hn : n < g.nodes.size)
    (harmed : g.isArmed n = false) (write : Bool) (addresses : List Address) :
    ∃ t' g' sources, t.resolveAll g n write addresses = .pure (t', g') () ∧
      Resolved t g n (addresses.map (⟨n, ·, write⟩)) sources t' g' := by
  induction addresses generalizing t g with
  | nil => exact ⟨t, g, [], rfl, .refl g n ht⟩
  | cons a rest ih =>
    obtain ⟨g₁, wired, hresolve, hfirst⟩ := exists_resolved_resolve hpos ht hn harmed a write
    obtain ⟨t₂, g₂, sources, hrest, hlater⟩ := ih (t := t.record g n a write) (g := g₁)
      (by rw [hfirst.size]; exact hpos) (by rw [hfirst.wired.size]; exact hfirst.within)
      (by rw [hfirst.wired.size]; exact hn) (by rw [hfirst.wired.isArmed]; exact harmed)
    refine ⟨t₂, g₂, _, ?_, hfirst.trans hlater⟩
    unfold resolveAll
    rw [hresolve, Outcome.bind_pure]
    exact hrest

/-- Wiring a node not yet submitted succeeds. Its explicit predecessors are among the sources of
its edges. -/
theorem exists_resolved_wire {t : Tracker} {g : Graph κ} {n : Nat} {access : Access}
    (hpos : 0 < t.shards.size) (ht : t.Within g.nodes.size) (hn : n < g.nodes.size)
    (harmed : g.isArmed n = false) (hdeps : ∀ d : Nat, d ∈ access.deps → d < g.nodes.size) :
    ∃ t' g' sources, t.wire g n access = .pure (t', g') () ∧
      Resolved t g n (access.uses n) sources t' g' ∧ access.deps ⊆ sources := by
  obtain ⟨t₁, g₁, s₁, hreads, hfirst⟩ :=
    exists_resolved_resolveAll hpos ht hn harmed false access.onlyRead
  obtain ⟨t₂, g₂, s₂, hwrites, hsecond⟩ := exists_resolved_resolveAll (t := t₁) (g := g₁) (n := n)
    (by rw [hfirst.size]; exact hpos) (by rw [hfirst.wired.size]; exact hfirst.within)
    (by rw [hfirst.wired.size]; exact hn) (by rw [hfirst.wired.isArmed]; exact harmed) true
    access.written
  have hboth := hfirst.trans hsecond
  have hdeps' : ∀ d : Nat, d ∈ access.deps → d < g₂.nodes.size := fun d hd => by
    rw [hboth.wired.size]
    exact hdeps d hd
  obtain ⟨g₃, hlinks, hthird⟩ := Graph.linkAll_spec hdeps' (by rw [hboth.wired.size]; exact hn)
    (by rw [hboth.wired.isArmed]; exact harmed)
  refine ⟨t₂, g₃, (s₁ ++ s₂) ++ access.deps, ?_, ?_, List.subset_append_right ..⟩
  · unfold wire
    rw [hreads, Outcome.bind_pure]
    dsimp only
    rw [hwrites, Outcome.bind_pure]
    dsimp only
    rw [hlinks]
    rfl
  · have hall := hboth.trans
      (.links (by rw [hboth.wired.size]; exact hboth.within) hthird hdeps')
    rwa [List.append_nil] at hall

end HazardFlow.Tracker
