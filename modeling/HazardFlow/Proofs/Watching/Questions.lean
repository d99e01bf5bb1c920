import HazardFlow.Graph.Watcher
import HazardFlow.Proofs.Graph.Settling
import HazardFlow.Proofs.Graph.Soundness

/-!
# What a watcher asks

A scan moves entries while it walks through them. Here it also notes the questions that it puts and
what was answered. It puts one question to every entry, in some order, finishes a part for each
entry found complete, and keeps the others. Nothing but a fault keeps it from an entry.
-/

namespace HazardFlow

variable {κ ε β : Type}

namespace Graph

/-- No node with parts left is complete. -/
def PartsOpen (g : Graph κ) : Prop := ∀ n : Nat, 0 < (g.node n).parts → g.isComplete n = false

/-- A coherent graph is of this kind. -/
theorem Coherent.partsOpen {g : Graph κ} {load : NodeId → Nat} (h : g.Coherent load) :
    g.PartsOpen := fun n hpos => by
  rw [← Bool.not_eq_true, h.isComplete_iff]
  omega

/-- Every node has the parts and the list of successors that it had. -/
def SameParts (g g' : Graph κ) : Prop :=
  ∀ n : Nat, (g'.node n).parts = (g.node n).parts ∧ (g'.node n).successors = (g.node n).successors

section Total

variable {hand : Hand κ β} {nodeOf : β → NodeId} {g g' g'' : Graph κ}

theorem SameParts.trans (h : SameParts g g') (h' : SameParts g' g'') : SameParts g g'' :=
  fun n => ⟨(h' n).1.trans (h n).1, (h' n).2.trans (h n).2⟩

theorem sameParts_release (g : Graph κ) (n : NodeId) : SameParts g (g.release n).1 := by
  unfold release claim
  dsimp only
  split
  · exact fun m => ⟨(field_updateNode Node.parts m).trans (field_updateNode Node.parts m),
      (field_updateNode Node.successors m).trans (field_updateNode Node.successors m)⟩
  · exact fun m => ⟨field_updateNode Node.parts m, field_updateNode Node.successors m⟩

/-- A walk that can hand on every node meets no fault and finishes no part. -/
theorem sameParts_releaseAll (hhand : hand.Faithful nodeOf)
    (htotal : ∀ g n, ∃ item, (hand g n).result = .ok item) (g : Graph κ) (l : List NodeId) :
    (releaseAll hand g l).fault = none ∧ SameParts g (releaseAll hand g l).graph := by
  induction l generalizing g with
  | nil => exact ⟨rfl, fun _ => ⟨rfl, rfl⟩⟩
  | cons n rest ih =>
    have hreleased := sameParts_release g n
    unfold releaseAll
    cases hr : g.release n with
    | mk g₁ claimed =>
    rw [hr] at hreleased
    cases claimed with
    | false => exact ⟨(ih g₁).1, hreleased.trans (ih g₁).2⟩
    | true =>
      obtain ⟨item, hitem⟩ := htotal g₁ n
      have hkept : SameParts g₁ (hand g₁ n).state :=
        fun m => ⟨hhand.field g₁ Node.parts n m, hhand.field g₁ Node.successors n m⟩
      dsimp only
      cases hh : hand g₁ n with
      | mk g₂ result =>
      rw [hh] at hitem hkept
      cases hitem
      exact ⟨(ih g₂).1, (hreleased.trans hkept).trans (ih g₂).2⟩

/-- A node may be completed with its last part. -/
theorem PartsOpen.updateNode (h : g.PartsOpen) {n : NodeId} {f : Node κ → Node κ}
    (hf : 0 < (f (g.node n)).parts →
      0 < (g.node n).parts ∧ (f (g.node n)).isComplete = (g.node n).isComplete) :
    (g.updateNode n f).PartsOpen := by
  intro m hm
  unfold isComplete
  rcases node_updateNode_or g n f m with heq | ⟨rfl, heq⟩
  · rw [heq] at hm ⊢
    exact h m hm
  · rw [heq] at hm ⊢
    obtain ⟨hparts, hsame⟩ := hf hm
    exact hsame.trans (h n hparts)

/-- Then finishing a part meets no fault. -/
theorem PartsOpen.finishPart (h : g.PartsOpen) (hhand : hand.Faithful nodeOf)
    (htotal : ∀ g n, ∃ item, (hand g n).result = .ok item) (n : NodeId) :
    (finishPart hand g n).fault = none ∧ (finishPart hand g n).graph.PartsOpen := by
  by_cases hparts : (g.node n).parts = 1
  · have hopen := h n (by omega)
    cases hs : (g.node n).successors with
    | closed => simp [isComplete, Node.isComplete, hs] at hopen
    | growing l =>
      obtain ⟨hnone, hkept⟩ := sameParts_releaseAll hhand htotal (g.retire n) l
      set lowered := g.updateNode n fun m => { m with parts := m.parts - 1 } with hlowered
      have hlist : (lowered.node n).successors = .growing l :=
        (field_updateNode Node.successors n).trans hs
      have hclosed : lowered.updateNode n ({ · with successors := .closed }) = g.retire n := by
        rw [hlowered, updateNode_updateNode]
        rfl
      unfold Graph.finishPart
      simp only [hparts, beq_self_eq_true, if_true, ← hlowered, hlist, SealableList.close,
        Outcome.pure, hclosed, hnone]
      refine ⟨trivial, fun m hm => ?_⟩
      obtain ⟨hm', hsame⟩ := hkept m
      have hretired : (g.retire n).PartsOpen := h.updateNode fun hpos => by
        dsimp only at hpos
        omega
      have hthere := hretired m (hm'.symm ▸ hm)
      unfold isComplete Node.isComplete at hthere ⊢
      rw [← hsame] at hthere
      exact hthere
  · rw [finishPart_of_ne_one hand hparts]
    exact ⟨rfl, h.updateNode fun hpos => ⟨by dsimp only at hpos; omega, rfl⟩⟩

/-- So no call does. -/
theorem PartsOpen.finishEach (h : g.PartsOpen) (hhand : hand.Faithful nodeOf)
    (htotal : ∀ g n, ∃ item, (hand g n).result = .ok item) (calls : List NodeId) :
    (finishEach hand g calls).fault = none := by
  induction calls generalizing g with
  | nil => rfl
  | cons n rest ih =>
    obtain ⟨hfault, hopen⟩ := h.finishPart hhand htotal n
    unfold Graph.finishEach
    simp only [hfault]
    exact ih hopen

end Total

/-- How many of some calls are made, the one that meets a fault included. -/
def callsMade (hand : Hand κ β) (g : Graph κ) : List NodeId → Nat
  | [] => 0
  | n :: rest =>
    let finished := g.finishPart hand n
    match finished.fault with
    | some _ => 1
    | none => callsMade hand finished.graph rest + 1

/-- Without a fault all calls are made. -/
theorem callsMade_eq_length {hand : Hand κ β} {g : Graph κ} {calls : List NodeId}
    (h : (g.finishEach hand calls).fault = none) : callsMade hand g calls = calls.length := by
  induction calls generalizing g with
  | nil => rfl
  | cons n rest ih =>
    unfold finishEach at h
    unfold callsMade
    cases hfault : (g.finishPart hand n).fault with
    | some fault => simp [hfault] at h
    | none =>
      simp only [hfault] at h ⊢
      rw [ih h, List.length_cons]

end Graph

/-- What was looked at, without the counts of polls to skip. -/
def Watch.scan (watch : Watch κ ε β) : Watcher.Scan κ ε β :=
  ⟨watch.handed, watch.watcher.pending, watch.completed⟩

namespace Watcher

/-- An entry that was asked, and what was answered. -/
structure Question (ε : Type) where
  entry : Watched ε
  complete : Bool
  /-- The event after it was asked. -/
  event : ε
  deriving DecidableEq, Repr

/-- How events answer, which may depend on all questions that a scan put before. -/
abbrev Answering (ε : Type) := List (Question ε) → Watched ε → Bool × ε

/-- The entries found complete. -/
def found (questions : List (Question ε)) : List (Watched ε) :=
  (questions.filter (·.complete)).map Question.entry

/-- The entries found incomplete, as they are after they were asked. -/
def left (questions : List (Question ε)) : List (Watched ε) :=
  (questions.filter (!·.complete)).map fun question => ⟨question.event, question.entry.node⟩

section Found

variable (question : Question ε) (questions : List (Question ε))

theorem found_cons_of_complete (h : question.complete = true) :
    found (question :: questions) = question.entry :: found questions := by
  simp [found, h]

theorem found_cons_of_not_complete (h : question.complete = false) :
    found (question :: questions) = found questions := by
  simp [found, h]

theorem left_cons_of_complete (h : question.complete = true) :
    left (question :: questions) = left questions := by
  simp [left, h]

theorem left_cons_of_not_complete (h : question.complete = false) :
    left (question :: questions) =
      ⟨question.event, question.entry.node⟩ :: left questions := by
  simp [left, h]

end Found

/-- A scan that notes its questions, with those that were put before. -/
def inquire (ask : Answering ε) (hand : Hand κ β) (g : Graph κ) (asked : List (Question ε))
    (kept rest : List (Watched ε)) : Scan κ ε β × List (Question ε) :=
  match rest with
  | [] => (⟨⟨g, [], none⟩, kept, 0⟩, [])
  | entry :: rest =>
    match ask asked entry with
    | (false, event) =>
      let question := ⟨entry, false, event⟩
      let later := inquire ask hand g (asked ++ [question]) (kept ++ [⟨event, entry.node⟩]) rest
      (later.1, question :: later.2)
    | (true, event) =>
      let question := ⟨entry, true, event⟩
      let finished := g.finishPart hand entry.node
      match finished.fault with
      | some _ => (⟨finished, kept ++ lastFirst rest, 1⟩, [question])
      | none =>
        let later := inquire ask hand finished.graph (asked ++ [question]) kept (lastFirst rest)
        ({ later.1 with
            handed := { later.1.handed with items := finished.items ++ later.1.handed.items }
            completed := later.1.completed + 1 },
          question :: later.2)
termination_by rest.length
decreasing_by
  all_goals simp [length_lastFirst]

/-- When answers depend on events only, this is a scan. -/
theorem scan_eq_inquire (query : ε → Bool × ε) (hand : Hand κ β) (g : Graph κ)
    (asked : List (Question ε)) (kept rest : List (Watched ε)) :
    scan query hand g kept rest =
      (inquire (fun _ entry => query entry.event) hand g asked kept rest).1 := by
  fun_induction scan query hand g kept rest generalizing asked with
  | case1 => rw [inquire]
  | case2 g kept entry rest event hquery ih =>
    rw [inquire]
    simp only [hquery]
    exact ih _
  | case3 g kept entry rest event hquery finished fault hfault =>
    rw [inquire]
    simp only [finished] at hfault
    simp only [hquery, hfault, finished]
  | case4 g kept entry rest event hquery finished hfault later ih =>
    rw [inquire]
    simp only [finished] at hfault ih
    simp only [hquery, hfault, finished, later]
    rw [ih]

/-- A scan puts one question to every entry, finishes a part for each that is found complete, and
keeps the others. Only a fault leaves entries unasked. -/
structure ScansExactly (ask : Answering ε) (hand : Hand κ β) (g : Graph κ)
    (asked : List (Question ε)) (kept rest : List (Watched ε)) (scanned : Scan κ ε β)
    (questions : List (Question ε)) (unasked : List (Watched ε)) : Prop where
  answers : ∀ before question later, questions = before ++ question :: later →
    ask (asked ++ before) question.entry = (question.complete, question.event)
  once : (questions.map Question.entry ++ unasked).Perm rest
  pending : scanned.pending = kept ++ left questions ++ unasked
  handed : scanned.handed = g.finishEach hand ((found questions).map Watched.node)
  completed : scanned.completed = (found questions).length
  all : scanned.handed.fault = none → unasked = []

/-- What was answered first is answered as events answer first. -/
theorem answers_cons {ask : Answering ε} {asked questions : List (Question ε)}
    {question : Question ε}
    (hfirst : ask asked question.entry = (question.complete, question.event))
    (hrest : ∀ before q later, questions = before ++ q :: later →
      ask (asked ++ [question] ++ before) q.entry = (q.complete, q.event))
    (before : List (Question ε)) (q : Question ε) (later : List (Question ε))
    (heq : question :: questions = before ++ q :: later) :
    ask (asked ++ before) q.entry = (q.complete, q.event) := by
  cases before with
  | nil =>
    obtain ⟨rfl, rfl⟩ := List.cons.inj heq
    rwa [List.append_nil]
  | cons first before =>
    obtain ⟨rfl, htail⟩ := List.cons.inj heq
    rw [← List.singleton_append, ← List.append_assoc]
    exact hrest before q later htail

/-- Scans are exact. -/
theorem scansExactly_inquire (ask : Answering ε) (hand : Hand κ β) (g : Graph κ)
    (asked : List (Question ε)) (kept rest : List (Watched ε)) :
    ∃ unasked, ScansExactly ask hand g asked kept rest (inquire ask hand g asked kept rest).1
      (inquire ask hand g asked kept rest).2 unasked := by
  fun_induction inquire ask hand g asked kept rest with
  | case1 g asked kept =>
    refine ⟨[], fun before question later heq => ?_, .refl _, ?_, rfl, rfl, fun _ => rfl⟩
    · exact absurd heq.symm (by simp)
    · simp [left]
  | case2 g asked kept entry rest event hask question later ih =>
    obtain ⟨unasked, h⟩ := ih
    refine ⟨unasked, answers_cons hask h.answers, h.once.cons entry, ?_, ?_, ?_, h.all⟩
    · rw [left_cons_of_not_complete _ _ rfl, List.append_cons]
      exact h.pending
    · rw [found_cons_of_not_complete _ _ rfl]
      exact h.handed
    · rw [found_cons_of_not_complete _ _ rfl]
      exact h.completed
  | case3 g asked kept entry rest event hask question finished fault hfault =>
    refine ⟨lastFirst rest, answers_cons hask fun before q later heq => ?_,
      (perm_lastFirst rest).cons entry, ?_, ?_, rfl, fun hnone => ?_⟩
    · exact absurd heq.symm (by simp)
    · simp [left, question]
    · rw [found_cons_of_complete _ _ rfl]
      simp only [List.map_cons, Graph.finishEach]
      simp only [finished, question] at hfault ⊢
      simp only [hfault]
    · rw [hfault] at hnone
      exact absurd hnone (Option.some_ne_none fault)
  | case4 g asked kept entry rest event hask question finished hfault later ih =>
    obtain ⟨unasked, h⟩ := ih
    refine ⟨unasked, answers_cons hask h.answers,
      (h.once.trans (perm_lastFirst rest)).cons entry, ?_, ?_, ?_, h.all⟩
    · rw [left_cons_of_complete _ _ rfl]
      exact h.pending
    · rw [found_cons_of_complete _ _ rfl]
      simp only [List.map_cons, Graph.finishEach]
      simp only [finished] at hfault
      simp only [question, hfault, later, h.handed, finished]
    · rw [found_cons_of_complete _ _ rfl, List.length_cons]
      exact congrArg (· + 1) h.completed

/-- What a watcher makes of a scan. -/
def settle (w : Watcher ε) (scanned : Scan κ ε β) : Watch κ ε β :=
  match scanned.handed.fault with
  | some _ => ⟨scanned.handed, { w with pending := scanned.pending }, scanned.completed⟩
  | none =>
    let backoff := if 0 < scanned.completed then 0 else w.nextBackoff
    ⟨scanned.handed, { w with pending := scanned.pending, skip := backoff, backoff },
      scanned.completed⟩

@[simp] theorem scan_settle (w : Watcher ε) (scanned : Scan κ ε β) :
    (w.settle scanned).scan = scanned := by
  unfold settle
  split <;> rfl

/-- A poll that notes its questions. -/
def pollAsking (ask : Answering ε) (hand : Hand κ β) (g : Graph κ) (w : Watcher ε) :
    Watch κ ε β × List (Question ε) :=
  if w.pending.isEmpty then (⟨⟨g, [], none⟩, w, 0⟩, [])
  else if 0 < w.skip then (⟨⟨g, [], none⟩, { w with skip := w.skip - 1 }, 0⟩, [])
  else
    let inquired := inquire ask hand g [] [] w.pending
    (w.settle inquired.1, inquired.2)

/-- When answers depend on events only, this is a poll. -/
theorem poll_eq_pollAsking (query : ε → Bool × ε) (hand : Hand κ β) (g : Graph κ)
    (w : Watcher ε) :
    w.poll query hand g = (w.pollAsking (fun _ entry => query entry.event) hand g).1 := by
  unfold poll pollAsking
  rw [scan_eq_inquire query hand g []]
  split
  · rfl
  · split
    · rfl
    · unfold settle
      dsimp only
      cases (inquire (fun _ entry => query entry.event) hand g [] [] w.pending).1.handed.fault <;> rfl

/-- What a poll does: nothing when no event is pending, a skip while there are polls to skip, and
otherwise a scan. -/
inductive Polled (ask : Answering ε) (hand : Hand κ β) (g : Graph κ) (w : Watcher ε) :
    Watch κ ε β × List (Question ε) → Prop where
  | idle (hnone : w.pending = []) : Polled ask hand g w (⟨⟨g, [], none⟩, w, 0⟩, [])
  | skipped (hsome : w.pending ≠ []) (hskip : 0 < w.skip) :
      Polled ask hand g w (⟨⟨g, [], none⟩, { w with skip := w.skip - 1 }, 0⟩, [])
  | scanned {scanned : Scan κ ε β} {questions : List (Question ε)} {unasked : List (Watched ε)}
      (hsome : w.pending ≠ []) (hskip : w.skip = 0)
      (hscan : ScansExactly ask hand g [] [] w.pending scanned questions unasked) :
      Polled ask hand g w (w.settle scanned, questions)

theorem polled_pollAsking (ask : Answering ε) (hand : Hand κ β) (g : Graph κ) (w : Watcher ε) :
    Polled ask hand g w (w.pollAsking ask hand g) := by
  obtain ⟨unasked, hscan⟩ := scansExactly_inquire ask hand g [] [] w.pending
  unfold pollAsking
  split
  · next hnone => exact .idle (List.isEmpty_iff.mp hnone)
  · next hsome =>
    rw [List.isEmpty_iff] at hsome
    split
    · next hskip => exact .skipped hsome hskip
    · next hskip => exact .scanned hsome (Nat.eq_zero_of_not_pos hskip) hscan

/-- A poll with none to skip is a scan of all pending entries. -/
theorem scansExactly_pollAsking (ask : Answering ε) (hand : Hand κ β) (g : Graph κ) {w : Watcher ε}
    (hskip : w.skip = 0) : ∃ unasked, ScansExactly ask hand g [] [] w.pending
      (w.pollAsking ask hand g).1.scan (w.pollAsking ask hand g).2 unasked := by
  have hpolled := polled_pollAsking ask hand g w
  generalize w.pollAsking ask hand g = polled at hpolled
  cases hpolled with
  | idle hnone =>
    obtain ⟨unasked, h⟩ := scansExactly_inquire ask hand g [] [] []
    rw [hnone]
    rw [inquire] at h
    refine ⟨unasked, ?_⟩
    unfold Watch.scan
    rw [hnone]
    exact h
  | skipped _ hpos => omega
  | @scanned scanned questions unasked _ _ hscan =>
    refine ⟨unasked, ?_⟩
    rwa [scan_settle]

/-- A drain finishes the parts of all entries in turn. -/
theorem handed_drain (hand : Hand κ β) (g : Graph κ) (w : Watcher ε) :
    (w.drain hand g).handed = g.finishEach hand (w.pending.map Watched.node) := by
  have hall (entries : List (Watched ε)) (g : Graph κ) :
      finishAll hand g entries = g.finishEach hand (entries.map Watched.node) := by
    induction entries generalizing g with
    | nil => rfl
    | cons entry rest ih =>
      cases hfault : (g.finishPart hand entry.node).fault <;>
        simp only [finishAll, List.map_cons, Graph.finishEach, hfault, ih]
  unfold drain
  rw [hall]
  dsimp only
  cases (g.finishEach hand (w.pending.map Watched.node)).fault <;> rfl

end Watcher

end HazardFlow
