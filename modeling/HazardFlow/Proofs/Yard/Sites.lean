import HazardFlow.Proofs.Progress
import HazardFlow.Proofs.Yard.Signal
import HazardFlow.Proofs.Yard.Workers

/-!
# Sites make moves

Whatever builders and workers of a site do in one piece, those of a yard can do in small steps. So
what holds of the graph after every run of a yard holds of it after every run of a site.
-/

namespace HazardFlow

variable {κ ε : Type}

namespace System

variable {s t : System κ ε} {run watch : List (Job κ)}

/-- Two operations answer the same and leave behind a system that mirrors the other one. -/
structure Mirrored {α : Type} (run watch : List (Job κ)) (o o' : Outcome (System κ ε) α) :
    Prop where
  state : o.state.Mirrors o'.state run watch
  result : o.result = o'.result

namespace Mirrored

variable {α β : Type} {o o' : Outcome (System κ ε) α}

/-- Going on after them. -/
theorem bind (h : Mirrored run watch o o') {next next' : System κ ε → α → Outcome (System κ ε) β}
    (hnext : ∀ (s t : System κ ε) (a : α), s.Mirrors t run watch →
      Mirrored run watch (next s a) (next' t a)) :
    Mirrored run watch (o.bind next) (o'.bind next') := by
  cases o with
  | mk s result =>
    cases o' with
    | mk t result' =>
      obtain ⟨hstate, rfl⟩ := h
      cases result with
      | ok a => exact hnext s t a hstate
      | error fault => exact ⟨hstate, rfl⟩

theorem map (h : Mirrored run watch o o') (f : α → β) :
    Mirrored run watch (o.map f) (o'.map f) where
  state := h.state
  result := congrArg (Except.map f) h.result

/-- What follows the second one leaves a system behind that is mirrored all the same. -/
theorem state_bind (h : Mirrored run watch o o') {next : System κ ε → α → Outcome (System κ ε) β}
    (hnext : ∀ (s t : System κ ε) (a : α), s.Mirrors t run watch →
      s.Mirrors (next t a).state run watch) :
    o.state.Mirrors (o'.bind next).state run watch := by
  cases o with
  | mk s result =>
    cases o' with
    | mk t result' =>
      obtain ⟨hstate, rfl⟩ := h
      cases result with
      | ok a => exact hnext s t a hstate
      | error fault => exact hstate

end Mirrored

namespace Mirrors

/-- Messages are not mirrored. -/
theorem report (h : s.Mirrors t run watch) (level : LogLevel) (message : String)
    (fields : List (String × LogValue)) : s.Mirrors (t.report level message fields) run watch :=
  { h with }

/-- The graph changes. -/
theorem setGraph (h : s.Mirrors t run watch) (graph : Graph κ) :
    Mirrors { s with graph } { t with graph } run watch :=
  { h with graph := rfl }

/-- An operation on the graph is made. -/
theorem lift {α : Type} (h : s.Mirrors t run watch) {o o' : Outcome (Graph κ) α} (ho : o = o') :
    Mirrored run watch (o.lift fun graph => { s with graph })
      (o'.lift fun graph => { t with graph }) := by
  subst ho
  exact ⟨h.setGraph _, rfl⟩

/-- A node is dispatched. -/
theorem dispatch (h : s.Mirrors t run watch) (n : NodeId) :
    Mirrored run watch (s.dispatch n) (t.dispatch n) := by
  unfold System.dispatch
  rw [h.graph]
  split
  · split
    · exact ⟨h.setGraph _, rfl⟩
    · next g _ =>
      refine (h.lift (by rw [h.grain])).bind fun s t job h => ?_
      refine ⟨{ h with queued := ?_ }, rfl⟩
      have hlast := (h.queued.append_right [job]).trans (.of_eq (List.append_assoc ..))
      refine hlast.trans ((List.perm_append_comm.append_left _).trans ?_)
      exact .of_eq (List.append_assoc ..).symm
  · exact ⟨h, rfl⟩

/-- Nodes are dispatched in turn. -/
theorem dispatchAll (h : s.Mirrors t run watch) (l : List NodeId) :
    Mirrored run watch (s.dispatchAll l) (t.dispatchAll l) := by
  induction l generalizing s t with
  | nil => exact ⟨h, rfl⟩
  | cons n rest ih => exact (h.dispatch n).bind fun _ _ _ h => (ih h).map _

/-- A builder is started. -/
theorem newBuilder (h : s.Mirrors t run watch) :
    s.newBuilder.1.Mirrors t.newBuilder.1 run watch ∧ s.newBuilder.2 = t.newBuilder.2 := by
  unfold System.newBuilder
  rw [h.graph]
  exact ⟨h.setGraph _, rfl⟩

/-- The nodes of a builder are submitted. -/
theorem submit (h : s.Mirrors t run watch) (b : Builder) :
    Mirrored run watch (s.submit b) (t.submit b) := by
  unfold System.submit
  rw [h.graph]
  refine ((h.setGraph _).dispatchAll b.nodes).bind fun s t roots h => ?_
  rw [h.graph]
  exact ⟨h.setGraph _, rfl⟩

/-- The work of nodes is discarded. -/
theorem discardAll (h : s.Mirrors t run watch) (l : List NodeId) :
    Mirrored run watch (s.discardAll l) (t.discardAll l) := by
  induction l generalizing s t with
  | nil => exact ⟨h, rfl⟩
  | cons n rest ih =>
    exact (h.lift (by rw [h.graph])).bind fun _ _ _ h => ih h

/-- A node is added to a builder. -/
theorem add (h : s.Mirrors t run watch) (b : Builder) (work : Work κ) (access : Access)
    (profile : Option Profile) :
    (s.add b work access profile).state.1.Mirrors (t.add b work access profile).state.1 run watch ∧
      (s.add b work access profile).state.2 = (t.add b work access profile).state.2 := by
  unfold System.add
  rw [h.graph, h.tracker]
  exact ⟨{ h with graph := rfl, tracker := rfl }, rfl⟩

end Mirrors

end System

/-- The crew of a builder, which is gone once it was dropped. -/
def Crew.of : Option Builder → Crew
  | some b => .adding b
  | none => .gone

namespace Yard

variable {s : Yard κ ε} {t t' : Site κ ε}

/-- A yard mirrors the system of a site, and has the same builders. -/
structure Reflects (s : Yard κ ε) (t : Site κ ε) : Prop where
  orderly : s.Orderly
  mirrors : s.Mirrors t.system
  crews : s.crews = t.builders.map Crew.of

/-- Moves lead from a yard to one that reflects a site, and add no range that no cursor covers as long
as the site does not. -/
def Leads (s : Yard κ ε) (t : Site κ ε) (ordered : Prop) : Prop :=
  ∃ moves : List (Move κ), (ordered → ∀ move ∈ moves, move.Ordered) ∧ (s.run moves).Reflects t

namespace Reflects

variable {ordered : Prop}

/-- A builder of the site adds nodes in the yard. -/
theorem crew (h : s.Reflects t) {i : Nat} {b : Builder} (hi : t.builderAt i = some b) :
    s.crews[i]? = some (.adding b) := by
  rw [h.crews, Array.getElem?_map, Option.join_eq_some_iff.mp hi]
  rfl

/-- A builder is replaced. -/
theorem setCrew (h : s.Reflects t) (i : Nat) (builder : Option Builder) :
    s.crews.setIfInBounds i (Crew.of builder) =
      (t.builders.setIfInBounds i builder).map Crew.of := by
  rw [h.crews, Array.map_setIfInBounds]

/-- Moves lead from a yard to one that reflects a site. -/
theorem of_run (h : s.Reflects t) {moves : List (Move κ)}
    (hmirrors : (s.run moves).Mirrors t'.system)
    (hcrews : (s.run moves).crews = t'.builders.map Crew.of) : (s.run moves).Reflects t' where
  orderly := h.orderly.orderly_run moves
  mirrors := hmirrors
  crews := hcrews

/-- What a worker of the site does is made of moves. -/
theorem of_follows (h : s.Reflects t) {system : System κ ε} (hfollows : s.Follows system) :
    s.Leads { t with system } ordered := by
  obtain ⟨moves, hruns, hmirrors, hcrews⟩ := hfollows
  refine ⟨moves, fun _ move hmove => ?_, h.of_run hmirrors (hcrews.trans h.crews)⟩
  have hrun := hruns move hmove
  cases move with
  | add _ _ _ => exact hrun.elim
  | _ => trivial

/-- Nothing happens. -/
theorem stay (h : s.Reflects t) : s.Leads t ordered := ⟨[], by simp, h⟩

/-- A node is added. -/
theorem add (h : s.Reflects t) {i : Nat} {b : Builder} (hi : t.builderAt i = some b)
    (work : Work κ) (access : Access) (profile : Option Profile) :
    s.Leads (t.add i b work access profile) work.Ordered := by
  unfold Site.add
  split
  · next hall =>
    have hgraph : s.graph = t.graph := h.mirrors.graph
    have hdeps : ∀ d : Nat, d ∈ access.deps → d < s.graph.nodes.size := fun d hd => by
      rw [hgraph]
      exact of_decide_eq_true (List.all_eq_true.mp hall d hd)
    have hrun := run_add h.orderly (h.crew hi) hdeps work profile
    obtain ⟨hadded, hbuilder⟩ := System.Mirrors.add h.mirrors b work access profile
    refine ⟨.add i work profile :: access.calls.map (.wire s.graph.nodes.size),
      fun hordered => List.forall_mem_cons.mpr ⟨hordered, fun move hmove => ?_⟩, h.of_run ?_ ?_⟩
    · obtain ⟨_, _, rfl⟩ := List.mem_map.mp hmove
      trivial
    · rw [hrun]
      exact hadded
    · rw [hrun]
      dsimp only
      rw [hbuilder]
      exact h.setCrew i (some _)
  · exact h.stay

/-- The moves of a submission add nothing. -/
theorem ordered_submission (first : Move κ) (b : Builder) (k : Nat) (hfirst : first.Ordered) :
    ∀ move ∈ submission first b k, move.Ordered := by
  refine List.forall_mem_cons.mpr ⟨hfirst, fun move hmove => ?_⟩
  rcases List.mem_append.mp hmove with hdispatch | hclose
  · rw [List.eq_of_mem_replicate hdispatch]
    trivial
  · rw [List.mem_singleton.mp hclose]
    trivial

/-- Builders are submitted. -/
theorem execute (h : s.Reflects t) {i : Nat} {b : Builder} (hi : t.builderAt i = some b) :
    s.Leads (t.execute i b) ordered := by
  obtain ⟨hsystem, hcrews, hrests⟩ := run_execute (h.crew hi) rfl
  obtain ⟨hnew, hfresh⟩ := System.Mirrors.newBuilder h.mirrors
  refine ⟨submission (.execute i) b s.submissions.size, fun _ => ordered_submission _ b _ trivial,
    h.of_run ?_ ?_⟩
  · unfold Mirrors
    rw [hsystem, hrests.running, hrests.watched]
    change System.Mirrors _ ((t.system.newBuilder.1.submit b).bind _).state _ _
    exact (hnew.submit b).state_bind fun _ _ _ h => h.report _ _ _
  · rw [hcrews, hfresh]
    exact h.setCrew i (some _)

/-- Builders are dropped. -/
theorem drop (h : s.Reflects t) {i : Nat} {b : Builder} (hi : t.builderAt i = some b) :
    s.Leads (t.drop i b) ordered := by
  obtain ⟨hsystem, hcrews, hrests⟩ := run_drop h.orderly (h.crew hi) rfl
  refine ⟨departure i b s.submissions.size, fun _ => ?_,
    h.of_run ?_ (hcrews.trans (h.setCrew i none))⟩
  · refine List.forall_mem_cons.mpr ⟨trivial, fun move hmove => ?_⟩
    split at hmove
    · exact absurd hmove List.not_mem_nil
    · rcases List.mem_append.mp hmove with hdiscard | hsubmit
      · rw [List.eq_of_mem_replicate hdiscard]
        trivial
      · exact ordered_submission (.abandon i) b _ trivial move hsubmit
  · unfold Mirrors
    rw [hsystem, hrests.running, hrests.watched]
    unfold Site.drop System.dropBuilder
    dsimp only
    split
    · exact h.mirrors
    · have hwarned := h.mirrors.report .warn
        "task graph dropped with unexecuted nodes; discarding their work"
        [("nodes", .number b.nodes.length)]
      have hsubmitted := (hwarned.discardAll b.nodes).bind
        fun _ _ _ h => h.newBuilder.1.submit b
      rw [← Outcome.bind_assoc]
      exact hsubmitted.state_bind fun _ _ _ h => h.report _ _ _

/-- What an action of a site does is made of moves. -/
theorem act (h : s.Reflects t) (a : Action κ ε) : s.Leads (t.act a) a.Ordered := by
  cases a with
  | newBuilder =>
    obtain ⟨hnew, hfresh⟩ := System.Mirrors.newBuilder h.mirrors
    refine ⟨[.newBuilder], by simp [Move.Ordered], h.of_run hnew ?_⟩
    change s.crews.push (.adding s.system.newBuilder.2) = _
    rw [hfresh, h.crews]
    change _ = (t.builders.push (some t.system.newBuilder.2)).map Crew.of
    rw [Array.map_push]
    rfl
  | add i work access profile =>
    cases hi : t.builderAt i with
    | none => simpa [Site.act, hi, Action.Ordered] using h.stay
    | some b => simpa [Site.act, hi, Action.Ordered] using h.add hi work access profile
  | execute i =>
    cases hi : t.builderAt i with
    | none => simpa [Site.act, hi] using h.stay
    | some b => simpa [Site.act, hi] using h.execute hi
  | drop i =>
    cases hi : t.builderAt i with
    | none => simpa [Site.act, hi] using h.stay
    | some b => simpa [Site.act, hi] using h.drop hi
  | reset =>
    refine ⟨[.reset], by simp [Move.Ordered], h.of_run ?_ h.crews⟩
    exact { h.mirrors with tracker := congrArg Tracker.reset h.mirrors.tracker }
  | take w place position split =>
    simp only [Site.act]
    unfold Site.take
    split
    · next hfree =>
      split
      · next system job hpick =>
        have htakes := System.takes_pick hpick
        obtain ⟨worker, hw, hnone⟩ := htakes.exists_free hfree
        exact h.of_follows (h.mirrors.beginWith htakes hw hnone split)
      · exact h.stay
    · exact h.stay
  | begin w =>
    simp only [Site.act]
    unfold Site.begin
    split
    · next hfree =>
      split
      · next system job htake =>
        obtain ⟨_, hfirst, _⟩ := System.exists_free hfree
        have htakes := System.takes_takeJob hfirst htake
        obtain ⟨worker, hw, hnone⟩ := htakes.exists_free hfree
        rw [System.begin_eq_beginWith]
        exact h.of_follows (h.mirrors.beginWith htakes hw hnone _)
      · exact h.stay
    · exact h.stay
  | conclude w result => exact h.of_follows (h.mirrors.conclude w result)
  | settle w position => exact h.of_follows (h.mirrors.settle w position)
  | poll w query => exact h.of_follows (h.mirrors.poll query w)

/-- So is what a site does in a whole run. -/
theorem run (h : s.Reflects t) (actions : List (Action κ ε)) :
    s.Leads (t.run actions) (∀ a ∈ actions, a.Ordered) := by
  induction actions generalizing s t with
  | nil => exact h.stay
  | cons a rest ih =>
    obtain ⟨moves, hmoves, hact⟩ := h.act a
    obtain ⟨more, hmore, hrun⟩ := ih hact
    refine ⟨moves ++ more, fun hordered => ?_, ?_⟩
    · obtain ⟨hfirst, hlater⟩ := List.forall_mem_cons.mp hordered
      exact List.forall_mem_append.mpr ⟨hmoves hfirst, hmore hlater⟩
    rw [run_append]
    exact hrun

/-- A yard in which nothing has happened reflects a site at which nothing has. -/
theorem start {tracker : Tracker} {count : Nat} (h : Tracker.create count = .ok tracker)
    (workers grain cap : Nat) :
    (Yard.start tracker grain : Yard κ ε).Reflects (Site.start tracker workers grain cap) where
  orderly := .start h grain
  mirrors := by
    refine ⟨rfl, rfl, rfl, ?_, ?_, ?_⟩ <;>
      simp [System.queued, System.underWay, System.watched, System.start, Site.start, Yard.start]
  crews := Array.map_empty.symm

end Reflects

end Yard

namespace Site

/-- Whatever a site does, its graph is one that a yard comes to. -/
theorem exists_graph_eq {tracker : Tracker} {count : Nat}
    (htracker : Tracker.create count = .ok tracker) (workers grain cap : Nat)
    (actions : List (Action κ ε)) :
    ∃ moves : List (Move κ), ((∀ a ∈ actions, a.Ordered) → ∀ move ∈ moves, move.Ordered) ∧
      ((Yard.start tracker grain : Yard κ ε).run moves).graph =
        ((start tracker workers grain cap : Site κ ε).run actions).graph := by
  obtain ⟨moves, hmoves, hreflects⟩ :=
    (Yard.Reflects.start htracker workers grain cap).run actions
  exact ⟨moves, hmoves, hreflects.mirrors.graph⟩

/-- So every batch of a site counts its incomplete nodes and one thing more at most, and is done when
nothing is left to count. -/
theorem exists_tally {tracker : Tracker} {count grain : Nat}
    (htracker : Tracker.create count = .ok tracker) (hgrain : 0 < grain) (workers cap : Nat)
    {actions : List (Action κ ε)} (hordered : ∀ a ∈ actions, a.Ordered) {g : Graph κ}
    (hg : ((start tracker workers grain cap : Site κ ε).run actions).graph = g) {b : Nat}
    (hb : b < g.batches.size) : ∃ held : Nat, held ≤ 1 ∧ g.Tally b held := by
  obtain ⟨moves, hmoves, hgraph⟩ := exists_graph_eq htracker workers grain cap actions
  obtain ⟨_, hexact, _⟩ := Yard.exact_run (ε := ε) htracker hgrain (hmoves hordered)
  have htally := hexact.tally b
  rw [hgraph, hg] at htally
  refine ⟨_, ?_, htally hb⟩
  unfold Yard.held
  split <;> omega

end Site

end HazardFlow
