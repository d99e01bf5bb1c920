import HazardFlow.Proofs.Yard.Handing

/-!
# The size of a batch

The nodes of a batch are those that its builder adds between one submission and the next. They are
counted as they are added, and once its batch is armed nobody adds to it.
-/

namespace HazardFlow

variable {κ ε : Type}

/-- What a builder did to its batch. -/
inductive BuilderNote where
  | added (crew : Nat)
  /-- It began to submit the batch. -/
  | submitted (crew : Nat) (batch : BatchId)
  deriving DecidableEq, Repr

/-- What a builder did, if that is what was noted down. -/
def Note.ofBuilder : Note κ → Option BuilderNote
  | .added crew _ _ => some (.added crew)
  | .submitted crew batch => some (.submitted crew batch)
  | _ => none

/-- The number of nodes that a builder added since it last submitted a batch, in a history that
begins with what happened last. -/
def addedSince (i : Nat) : List BuilderNote → Nat
  | [] => 0
  | .added j :: before => addedSince i before + if j = i then 1 else 0
  | .submitted j _ :: before => if j = i then 0 else addedSince i before

namespace Yard

open Crew (builderAt)

variable {s s' : Yard κ ε} {move : Move κ}

/-- What builders did, newest first. -/
def builderNotes (s : Yard κ ε) : List BuilderNote := s.notes.filterMap Note.ofBuilder

/-- Batches count the nodes added to them. -/
structure Counted (s : Yard κ ε) : Prop where
  builder : ∀ (i : Nat) (b : Builder), builderAt s.crews i = some b →
    (s.graph.batch b.batch).size = addedSince i s.builderNotes
  submitted : ∀ (i : Nat) (b : BatchId) (before : List BuilderNote),
    (.submitted i b :: before) <:+ s.builderNotes →
      (s.graph.batch b).armed = true ∧ (s.graph.batch b).size = addedSince i before
  fresh : ∀ i : Nat, s.crews.size ≤ i → addedSince i s.builderNotes = 0

namespace Counted

/-- A batch that was submitted exists. -/
theorem batch_lt (h : s.Counted) {i : Nat} {b : BatchId} {before : List BuilderNote}
    (hb : (.submitted i b :: before) <:+ s.builderNotes) : b < s.graph.batches.size := by
  by_contra hge
  have harmed := (h.submitted i b before hb).1
  rw [Graph.armed_of_size_le (Nat.le_of_not_lt hge)] at harmed
  cases harmed

/-- Nothing is added or submitted. -/
theorem of_same (h : s.Counted) (hnotes : s'.builderNotes = s.builderNotes)
    (hcrews : ∀ (i : Nat) (b : Builder), builderAt s'.crews i = some b →
      builderAt s.crews i = some b)
    (hsize : s'.crews.size = s.crews.size)
    (hcounted : ∀ b : Nat, (s'.graph.batch b).size = (s.graph.batch b).size)
    (harmed : ∀ b : Nat, (s'.graph.batch b).armed = (s.graph.batch b).armed) : s'.Counted where
  builder i b hi := by rw [hcounted, hnotes, h.builder i b (hcrews i b hi)]
  submitted i b before hb := by
    rw [hcounted, harmed]
    exact h.submitted i b before (by rwa [hnotes] at hb)
  fresh i hi := by rw [hnotes, h.fresh i (by omega)]

/-- Nothing is added or submitted while the graph only runs. -/
theorem of_steady (h : s.Counted) (hnotes : s'.builderNotes = s.builderNotes)
    (hcrews : s'.crews = s.crews) (hsteady : s.graph.Steady s'.graph) : s'.Counted :=
  h.of_same hnotes (fun i b hi => by rwa [hcrews] at hi) (by rw [hcrews]) hsteady.counted
    hsteady.armed

/-- Replacing a crew by one with the same builder, or none, adds no builder. -/
theorem builderAt_of_replaced {crews : Array Crew} {i : Nat} {b : Builder} {crew : Crew}
    (hi : builderAt crews i = some b) (hcrew : crew.builder = some b ∨ crew.builder = none)
    (j : Nat) (c : Builder) (hj : builderAt (crews.setIfInBounds i crew) j = some c) :
    builderAt crews j = some c := by
  by_cases hji : j = i
  · subst hji
    rw [Crew.builderAt_replaced hi] at hj
    rcases hcrew with hsome | hnone
    · rw [hi, ← hsome, hj]
    · rw [hnone] at hj
      cases hj
  · unfold builderAt at hj ⊢
    rwa [Array.getElem?_setIfInBounds_ne (Ne.symm hji)] at hj

/-- A new builder has added nothing. -/
theorem newBuilder (h : s.Counted) (hs : s.Orderly) : (s.act .newBuilder).Counted where
  builder i b hi := by
    by_cases hnew : i = s.crews.size
    · subst hnew
      obtain rfl := Option.some.inj ((Crew.builderAt_push s.crews _).symm.trans hi)
      refine (congrArg Batch.size (Graph.batch_startBatch_self s.graph)).trans ?_
      exact (h.fresh _ (le_refl _)).symm
    · have hold : builderAt s.crews i = some b := by
        unfold builderAt at hi ⊢
        exact (congrArg (·.bind Crew.builder) (Array.getElem?_push.trans (if_neg hnew))).symm.trans hi
      have hlt := (hs.staffed.holds i b hold).batch_lt
      exact (congrArg Batch.size (Graph.batch_startBatch_of_lt hlt)).trans (h.builder i b hold)
  submitted i b before hb := by
    have hbatch : (s.act .newBuilder).graph.batch b = s.graph.batch b :=
      Graph.batch_startBatch_of_lt (h.batch_lt hb)
    rw [hbatch]
    exact h.submitted i b before hb
  fresh i hi := h.fresh i (by
    have hsize : (s.act .newBuilder).crews.size = s.crews.size + 1 := Array.size_push ..
    omega)

/-- A node that is added is counted by the batch of its builder. -/
theorem add (h : s.Counted) (hs : s.Orderly) {i : Nat} {b : Builder}
    (hi : s.crews[i]? = some (.adding b)) (work : Work κ) (profile : Option Profile) :
    (s.add i b work profile).Counted := by
  have hbuilder := Crew.builderAt_of_adding hi
  have hb := hs.staffed.holds i b hbuilder
  have hnotes : (s.add i b work profile).builderNotes = .added i :: s.builderNotes := rfl
  have hself : (s.add i b work profile).graph.batch b.batch =
      { s.graph.batch b.batch with
        remaining := (s.graph.batch b.batch).remaining + 1
        size := (s.graph.batch b.batch).size + 1 } := Graph.batch_updateBatch_self _ hb.batch_lt
  have hother {c : Nat} (hc : c ≠ b.batch) :
      (s.add i b work profile).graph.batch c = s.graph.batch c :=
    Graph.batch_updateBatch_of_ne _ (Ne.symm hc)
  have hreplaced : builderAt (s.add i b work profile).crews i =
      some { b with nodes := b.nodes ++ [s.graph.nodes.size] } :=
    Crew.builderAt_replaced hbuilder _
  refine ⟨fun j c hj => ?_, fun j c before hc => ?_, fun j hj => ?_⟩
  · rw [hnotes, addedSince]
    by_cases hji : j = i
    · subst hji
      obtain rfl := Option.some.inj (hreplaced.symm.trans hj)
      rw [if_pos rfl, hself, h.builder j b hbuilder]
    · have hold : builderAt s.crews j = some c := by
        unfold builderAt at hj ⊢
        rwa [← Array.getElem?_setIfInBounds_ne (Ne.symm hji)]
      rw [if_neg (Ne.symm hji), Nat.add_zero, hother (hs.staffed.apart j i c b hji hold hbuilder),
        h.builder j c hold]
  · rw [hnotes, List.suffix_cons_iff] at hc
    have hold := hc.resolve_left nofun
    have hne : c ≠ b.batch := by
      rintro rfl
      have harmed := (h.submitted j _ before hold).1
      rw [hb.unarmed] at harmed
      cases harmed
    rw [hother hne]
    exact h.submitted j c before hold
  · have hsize : (s.add i b work profile).crews.size = s.crews.size := Array.size_setIfInBounds ..
    have hlt := (Array.getElem?_eq_some_iff.mp hi).1
    rw [hnotes, addedSince, h.fresh j (by omega), if_neg (by omega)]

/-- A submission begins with the nodes added since the last one. -/
theorem submit (h : s.Counted) (hs : s.Orderly) {i : Nat} {b : Builder}
    (hi : builderAt s.crews i = some b) {next : Builder → Crew}
    (hnext : ∀ c : Builder, next c = .adding c ∨ next c = .gone) : (s.submit i b next).Counted := by
  have hb := hs.staffed.holds i b hi
  have hnotes : (s.submit i b next).builderNotes = .submitted i b.batch :: s.builderNotes := rfl
  have hfresh : b.batch < s.graph.startBatch.1.batches.size := by
    rw [Graph.size_batches_startBatch]
    exact Nat.lt_succ_of_lt hb.batch_lt
  have hcounted (c : Nat) :
      ((s.submit i b next).graph.batch c).size = (s.graph.startBatch.1.batch c).size :=
    Graph.field_updateBatch Batch.size c
  have hold {c : Nat} (hc : c < s.graph.batches.size) :
      ((s.submit i b next).graph.batch c).size = (s.graph.batch c).size := by
    rw [hcounted, Graph.batch_startBatch_of_lt hc]
  have hreplaced : builderAt (s.submit i b next).crews i =
      (next { batch := s.graph.batches.size }).builder := Crew.builderAt_replaced hi _
  refine ⟨fun j c hj => ?_, fun j c before hc => ?_, fun j hj => ?_⟩
  · rw [hnotes, addedSince]
    by_cases hji : j = i
    · subst hji
      rw [if_pos rfl]
      rw [hreplaced] at hj
      rcases hnext { batch := s.graph.batches.size } with hadding | hgone
      · rw [hadding] at hj
        obtain rfl := Option.some.inj hj
        rw [hcounted, Graph.batch_startBatch_self]
      · rw [hgone] at hj
        cases hj
    · have hbefore : builderAt s.crews j = some c := by
        unfold builderAt at hj ⊢
        rwa [← Array.getElem?_setIfInBounds_ne (Ne.symm hji)]
      rw [if_neg (Ne.symm hji), hold (hs.staffed.holds j c hbefore).batch_lt,
        h.builder j c hbefore]
  · have harmed := Graph.armed_arm hfresh c
    rw [hnotes, List.suffix_cons_iff] at hc
    rcases hc with hnow | hearlier
    · obtain ⟨hhead, rfl⟩ := List.cons.inj hnow
      cases hhead
      exact ⟨harmed.mpr (Or.inl rfl), (hold hb.batch_lt).trans (h.builder i b hi)⟩
    · obtain ⟨hyes, hsize⟩ := h.submitted j c before hearlier
      refine ⟨harmed.mpr (Or.inr ?_), (hold (h.batch_lt hearlier)).trans hsize⟩
      rw [Graph.armed_startBatch, hyes]
  · have hsize : (s.submit i b next).crews.size = s.crews.size := Array.size_setIfInBounds ..
    rw [hnotes, addedSince]
    split
    · rfl
    · exact h.fresh j (by omega)

/-- Moves that dispatch nodes and run jobs add and submit nothing. -/
theorem of_runs (h : s.Counted) (hs : s.Orderly) (hdoes : Does s move s') (hruns : move.Runs) :
    s'.Counted := by
  have hsteady := ((hdoes.steps hs hruns).coherent_steady hs.coherent).2
  cases hdoes with
  | keep => exact h
  | finish _ =>
    refine h.of_steady ?_ (finishAt_eq ..).2.2.2.1 hsteady
    unfold builderNotes
    rw [filterMap_finishAt, filterMap_noteDrop _ _ _ rfl]
    simp [Note.ofBuilder]
  | skip _ _ => exact h.of_steady rfl rfl hsteady
  | put _ _ _ _ => exact h.of_steady rfl rfl hsteady
  | stall _ _ _ _ => exact h.of_steady rfl rfl hsteady
  | split _ _ => exact h.of_steady rfl rfl hsteady
  | begin _ => exact h.of_steady rfl rfl hsteady
  | watch _ => exact h.of_steady rfl rfl hsteady
  | _ => exact hruns.elim

/-- Every move lets batches count their nodes. -/
theorem does (h : s.Counted) (hs : s.Orderly) (hdoes : Does s move s') : s'.Counted := by
  by_cases hruns : move.Runs
  · exact h.of_runs hs hdoes hruns
  · cases hdoes with
    | keep => exact h
    | newBuilder => exact h.newBuilder hs
    | add hi work profile => exact h.add hs hi work profile
    | wire _ _ hwired _ => exact h.of_steady rfl rfl (.wired hwired)
    | reset => exact h.of_steady rfl rfl (.refl _)
    | execute hi => exact h.submit hs (Crew.builderAt_of_adding hi) fun _ => Or.inl rfl
    | drop hi hcrew =>
      refine h.of_same rfl (builderAt_of_replaced (Crew.builderAt_of_adding hi) ?_)
        (Array.size_setIfInBounds ..) (fun _ => rfl) fun _ => rfl
      rcases hcrew with ⟨rfl, _⟩ | rfl
      · exact Or.inr rfl
      · exact Or.inl rfl
    | discard hi _ =>
      exact h.of_same rfl (builderAt_of_replaced (Crew.builderAt_of_leaving hi) (Or.inl rfl))
        (Array.size_setIfInBounds ..) (fun _ => rfl) fun _ => rfl
    | abandon hi => exact h.submit hs (Crew.builderAt_of_leaving hi) fun _ => Or.inr rfl
    | close _ => exact h.of_steady rfl rfl (.finishOne _ _)
    | _ => exact absurd trivial hruns

/-- Nothing has been added at the start. -/
theorem start (tracker : Tracker) (grain : Nat) : (start tracker grain : Yard κ ε).Counted where
  builder i b hi := by simp [Yard.start, builderAt] at hi
  submitted i b before hb := by
    have hnone : (Yard.start tracker grain : Yard κ ε).builderNotes = [] := rfl
    rw [hnone, List.suffix_nil] at hb
    cases hb
  fresh _ _ := rfl

end Counted

end Yard

end HazardFlow
