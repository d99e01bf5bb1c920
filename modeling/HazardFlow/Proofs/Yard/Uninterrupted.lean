import HazardFlow.Proofs.Yard.Order

/-!
# Moves without interruption

The moves of a builder that nobody interrupts do what the operations of a system do as a whole. It
adds a node and wires it, submits its nodes, or goes away. The jobs that run meanwhile stay where
they are.
-/

namespace HazardFlow.Yard

variable {κ ε : Type} {s s' : Yard κ ε}

/-- Moves made in two parts. -/
theorem run_append (s : Yard κ ε) (moves more : List (Move κ)) :
    s.run (moves ++ more) = (s.run moves).run more := List.foldl_append

/-- The jobs that run and those that are watched stay where they are. -/
structure Rests (s s' : Yard κ ε) : Prop where
  running : s'.running = s.running
  watched : s'.watched = s.watched

/-- A submission that a fault has stopped does nothing more. -/
theorem run_of_stopped {k : Nat} {b : BatchId} {due : List NodeId}
    (hk : s.submissions[k]? = some ⟨b, due, .stopped⟩) (count : Nat) :
    s.run (List.replicate count (.dispatch k) ++ [.close k]) = s := by
  induction count with
  | zero =>
    change s.act (.close k) = s
    simp [act, hk]
  | succ count ih =>
    have hnone : s.act (.dispatch k) = s := by simp [act, hk]
    change (s.act (.dispatch k)).run (List.replicate count (.dispatch k) ++ [.close k]) = s
    rw [hnone]
    exact ih

/-- A submission that is not interrupted dispatches its nodes in turn, and ends unless a fault stops
it. -/
theorem run_dispatches {k : Nat} {b : BatchId} {due : List NodeId}
    (hk : s.submissions[k]? = some ⟨b, due, .underWay⟩)
    (hs' : s' = s.run (List.replicate due.length (.dispatch k) ++ [.close k])) :
    s'.system = ((s.system.dispatchAll due).bind fun system roots =>
        .pure { system with graph := system.graph.finishOne b } roots).state ∧
      s'.crews = s.crews ∧ Rests s s' := by
  induction due generalizing s with
  | nil =>
    have hclose : s' = s.close k b := by
      rw [hs']
      change s.act (.close k) = s.close k b
      simp [act, hk]
    subst hclose
    exact ⟨rfl, rfl, rfl, rfl⟩
  | cons n rest ih =>
    have hlt := (Array.getElem?_eq_some_iff.mp hk).1
    have hact : s.act (.dispatch k) = s.dispatch k b n rest := by simp [act, hk]
    change s' = (s.act (.dispatch k)).run (List.replicate rest.length (.dispatch k) ++ [.close k])
      at hs'
    rw [hact] at hs'
    unfold System.dispatchAll
    unfold Yard.dispatch at hs'
    cases hdispatch : s.system.dispatch n with
    | mk system result =>
      rw [hdispatch] at hs'
      cases result with
      | ok handed =>
        obtain ⟨hsystem, hcrews, hrests⟩ := ih (Array.getElem?_setIfInBounds_self_of_lt hlt) hs'
        refine ⟨hsystem.trans ?_, hcrews, hrests.running, hrests.watched⟩
        change _ = (((system.dispatchAll rest).map (· + handed.toNat)).bind _).state
        cases system.dispatchAll rest with
        | mk _ last => cases last <;> rfl
      | error fault =>
        dsimp only at hs'
        rw [run_of_stopped (Array.getElem?_setIfInBounds_self_of_lt hlt)] at hs'
        subst hs'
        exact ⟨rfl, rfl, rfl, rfl⟩

/-- The moves that submit the nodes of a builder. -/
def submission (first : Move κ) (b : Builder) (k : Nat) : List (Move κ) :=
  first :: (List.replicate b.nodes.length (.dispatch k) ++ [.close k])

/-- A builder that is not interrupted submits its nodes as a system does. -/
theorem run_execute {i : Nat} {b : Builder} (hi : s.crews[i]? = some (.adding b))
    (hs' : s' = s.run (submission (.execute i) b s.submissions.size)) :
    s'.system = (s.system.newBuilder.1.submit b).state ∧
      s'.crews = s.crews.setIfInBounds i (.adding s.system.newBuilder.2) ∧ Rests s s' := by
  have hact : s.act (.execute i) = s.submit i b .adding := by simp [act, hi]
  change s' = (s.act (.execute i)).run _ at hs'
  rw [hact] at hs'
  obtain ⟨hsystem, hcrews, hrests⟩ :=
    run_dispatches (s := s.submit i b .adding) Array.getElem?_push_size hs'
  exact ⟨hsystem, hcrews, hrests.running, hrests.watched⟩

/-- Calls that nobody interrupts wire a node as they do one after the other. -/
theorem run_wires (hs : s.Orderly) {n : Nat} (hn : n < s.graph.nodes.size)
    (harmed : s.graph.isArmed n = false) {calls : List WireCall}
    (hcalls : ∀ source : Nat, .edge source ∈ calls → source < s.graph.nodes.size) :
    s.run (calls.map (.wire n)) =
      let wired := (s.system.tracker.makeAll s.graph n calls).state
      { s with system := { s.system with tracker := wired.1, graph := wired.2 } } := by
  induction calls generalizing s with
  | nil => rfl
  | cons c rest ih =>
    obtain ⟨t, g, sources, hmake, hwired, ht⟩ := Tracker.exists_make (c := c) hs.within hn harmed
      fun source hc => hcalls source (hc ▸ List.mem_cons_self)
    have hmay : s.mayWire n c = true := by
      unfold mayWire
      rw [harmed, decide_eq_true hn]
      cases c with
      | access _ _ => rfl
      | edge source => exact decide_eq_true (hcalls source List.mem_cons_self)
    have hact : s.act (.wire n c) =
        { s with system := { s.system with tracker := t, graph := g } } := by
      simp only [act, if_pos hmay]
      unfold wire
      rw [hmake]
      rfl
    change (s.act (.wire n c)).run (rest.map (.wire n)) = _
    rw [hact, ih (hs.wire hn harmed hwired ht) (hwired.size.symm ▸ hn)
      ((hwired.isArmed n).trans harmed)
      fun source hc => hwired.size.symm ▸ hcalls source (List.mem_cons_of_mem c hc),
      Tracker.makeAll_cons, hmake]
    rfl

/-- A builder that is not interrupted adds a node as a system does. -/
theorem run_add (hs : s.Orderly) {i : Nat} {b : Builder} (hi : s.crews[i]? = some (.adding b))
    {access : Access} (hdeps : ∀ d : Nat, d ∈ access.deps → d < s.graph.nodes.size) (work : Work κ)
    (profile : Option Profile) :
    s.run (.add i work profile :: access.calls.map (.wire s.graph.nodes.size)) =
      let added := (s.system.add b work access profile).state
      { s with
        system := added.1
        crews := s.crews.setIfInBounds i (.adding added.2)
        notes := .added i s.graph.nodes.size work :: s.notes } := by
  have hact : s.act (.add i work profile) = s.add i b work profile := by simp [act, hi]
  have hb := hs.staffed.holds i b (Crew.builderAt_of_adding hi)
  have hsize : (s.add i b work profile).graph.nodes.size = s.graph.nodes.size + 1 :=
    Graph.size_nodes_addNode (s.graph.register b.batch) work b.batch profile
  change (s.act (.add i work profile)).run _ = _
  rw [hact, run_wires (hs.add hi work profile) (by omega)
    (Graph.isArmed_addNode_self hb.unarmed work profile) fun source hc => ?_]
  · unfold System.add
    rw [← Tracker.wire_eq_makeAll]
    rfl
  · have hmem : source ∈ access.deps := by simpa [Access.calls] using hc
    have hlt := hdeps source hmem
    omega

/-- A builder that goes away and is not interrupted discards the work of its nodes in turn. -/
theorem run_discards (hs : s.Orderly) {i : Nat} {b : Builder} {left : List NodeId}
    (hi : s.crews[i]? = some (.leaving b left))
    (hs' : s' = s.run (List.replicate left.length (.discard i))) :
    s.system.discardAll left = .pure s'.system () ∧ s'.crews[i]? = some (.leaving b []) ∧
      (∀ crew, s'.crews.setIfInBounds i crew = s.crews.setIfInBounds i crew) ∧
        s'.submissions = s.submissions ∧ Rests s s' := by
  induction left generalizing s with
  | nil =>
    subst hs'
    exact ⟨rfl, hi, fun _ => rfl, rfl, rfl, rfl⟩
  | cons n rest ih =>
    have hlt := (Array.getElem?_eq_some_iff.mp hi).1
    obtain ⟨_, hdiscard⟩ := hs.discard_eq hi
    have hact : s.act (.discard i) = { s with
        system := { s.system with graph := s.graph.updateNode n ({ · with work := some .idle }) }
        crews := s.crews.setIfInBounds i (.leaving b rest)
        notes := .discarded n :: s.notes } := by
      simp only [act, hi]
      unfold Yard.discard
      dsimp only [graph] at hdiscard ⊢
      rw [hdiscard]
      rfl
    change s' = (s.act (.discard i)).run (List.replicate rest.length (.discard i)) at hs'
    rw [hact] at hs'
    obtain ⟨hall, hleft, hcrews, hsubmissions, hrests⟩ :=
      ih (hs.discard hi _) (Array.getElem?_setIfInBounds_self_of_lt hlt) hs'
    refine ⟨?_, hleft, fun crew => (hcrews crew).trans (Array.setIfInBounds_setIfInBounds _),
      hsubmissions, hrests.running, hrests.watched⟩
    unfold System.discardAll
    dsimp only [graph] at hdiscard
    rw [hdiscard]
    exact hall

/-- The moves that make a builder go away. -/
def departure (i : Nat) (b : Builder) (k : Nat) : List (Move κ) :=
  .drop i :: if b.nodes.isEmpty then [] else
    List.replicate b.nodes.length (.discard i) ++ submission (.abandon i) b k

/-- A builder that goes away and is not interrupted does so as in a system. -/
theorem run_drop (hs : s.Orderly) {i : Nat} {b : Builder} (hi : s.crews[i]? = some (.adding b))
    (hs' : s' = s.run (departure i b s.submissions.size)) :
    s'.system = (if b.nodes.isEmpty then s.system else
      ((s.system.discardAll b.nodes).bind fun system _ => system.newBuilder.1.submit b).state) ∧
        s'.crews = s.crews.setIfInBounds i .gone ∧ Rests s s' := by
  have hlt := (Array.getElem?_eq_some_iff.mp hi).1
  unfold departure at hs'
  change s' = (s.act (.drop i)).run _ at hs'
  split at hs'
  · next hnone =>
    have hdrop : s.act (.drop i) = { s with crews := s.crews.setIfInBounds i .gone } := by
      simp only [act, hi, if_pos hnone]
    rw [hdrop] at hs'
    rw [if_pos hnone, hs']
    exact ⟨rfl, rfl, rfl, rfl⟩
  · next hsome =>
    have hdrop : s.act (.drop i) =
        { s with crews := s.crews.setIfInBounds i (.leaving b b.nodes) } := by
      simp only [act, hi, if_neg hsome]
    rw [hdrop, run_append] at hs'
    obtain ⟨hall, hleft, hcrews, hsubmissions, hrests⟩ :=
      run_discards (hs.drop hi (Or.inr rfl)) (Array.getElem?_setIfInBounds_self_of_lt hlt) rfl
    generalize Yard.run _ (List.replicate b.nodes.length (.discard i)) = discarded at *
    have habandon : discarded.act (.abandon i) = discarded.submit i b fun _ => .gone := by
      simp [act, hleft]
    change s' = (discarded.act (.abandon i)).run _ at hs'
    rw [habandon, ← hsubmissions] at hs'
    obtain ⟨hsystem, hgone, hrests'⟩ :=
      run_dispatches (s := discarded.submit i b fun _ => .gone) Array.getElem?_push_size hs'
    refine ⟨?_, ?_, hrests'.running.trans hrests.running, hrests'.watched.trans hrests.watched⟩
    · rw [if_neg hsome, hall]
      exact hsystem
    · rw [hgone]
      exact (hcrews .gone).trans (Array.setIfInBounds_setIfInBounds _)

end HazardFlow.Yard
