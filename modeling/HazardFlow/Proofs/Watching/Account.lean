import HazardFlow.Proofs.Watching.Questions
import Mathlib.Data.List.Range

/-!
# Accounts of watchers

Entries are numbered as they are tracked. An account follows the calls on a watcher, each on the
graph that it finds, and notes which entries a part was finished for. In every run each entry is
pending, was retired once, or was dropped by a drain that a fault stopped.
-/

namespace HazardFlow.Watcher

variable {κ ε β : Type}

/-- A call on a watcher. Others change the graph between calls, and events answer as they like. -/
inductive Call (κ ε : Type) where
  | track (event : ε) (n : NodeId)
  | poll (g : Graph κ) (ask : List (Question (Nat × ε)) → Watched (Nat × ε) → Bool × ε)
  | drain (g : Graph κ)

/-- Whether a call is a poll. -/
def Call.isPoll : Call κ ε → Bool
  | .poll _ _ => true
  | _ => false

/-- No call finds a complete node with parts left. -/
def Call.PartsOpen : Call κ ε → Prop
  | .track _ _ => True
  | .poll g _ => g.PartsOpen
  | .drain g => g.PartsOpen

/-- The answers of events that carry numbers, which they keep. -/
def numbered (ask : List (Question (Nat × ε)) → Watched (Nat × ε) → Bool × ε) :
    Answering (Nat × ε) :=
  fun asked entry => ((ask asked entry).1, (entry.event.1, (ask asked entry).2))

/-- The numbers of entries. -/
def numbers (entries : List (Watched (Nat × ε))) : List Nat := entries.map (·.event.1)

@[simp] theorem numbers_append (entries more : List (Watched (Nat × ε))) :
    numbers (entries ++ more) = numbers entries ++ numbers more := List.map_append

/-- A watcher, and what has become of the entries that it was given. -/
structure Account (ε : Type) where
  watcher : Watcher (Nat × ε)
  /-- The number of entries tracked. -/
  tracked : Nat := 0
  /-- The entries that a part was finished for, in order. -/
  retired : List Nat := []
  /-- The entries that were left when a fault stopped a drain. -/
  dropped : List Nat := []
  /-- The number of polls and drains that a fault stopped. -/
  faults : Nat := 0
  /-- The number of scans without progress since the last progress, new entry or drain. -/
  idle : Nat := 0

namespace Account

/-- The account of a new watcher. -/
def new (cap : Nat) : Account ε := { watcher := { cap } }

/-- Gives the watcher an entry with the next number. -/
def track (a : Account ε) (event : ε) (n : NodeId) : Account ε :=
  { a with
    watcher := a.watcher.track (a.tracked, event) n
    tracked := a.tracked + 1
    idle := 0 }

/-- Polls the watcher. -/
def poll (hand : Hand κ β) (a : Account ε) (g : Graph κ)
    (ask : List (Question (Nat × ε)) → Watched (Nat × ε) → Bool × ε) : Account ε :=
  let polled := a.watcher.pollAsking (numbered ask) hand g
  { a with
    watcher := polled.1.watcher
    retired := a.retired ++ numbers (found polled.2)
    faults := a.faults + polled.1.handed.fault.isSome.toNat
    idle :=
      if polled.2.isEmpty || polled.1.handed.fault.isSome then a.idle
      else if 0 < polled.1.completed then 0 else a.idle + 1 }

/-- Drains the watcher. -/
def drain (hand : Hand κ β) (a : Account ε) (g : Graph κ) : Account ε :=
  let drained := a.watcher.drain hand g
  let made := g.callsMade hand (a.watcher.pending.map Watched.node)
  { a with
    watcher := drained.watcher
    retired := a.retired ++ numbers (a.watcher.pending.take made)
    dropped := a.dropped ++ numbers (a.watcher.pending.drop made)
    faults := a.faults + drained.handed.fault.isSome.toNat
    idle := if drained.handed.fault.isSome then a.idle else 0 }

/-- Makes a call. -/
def call (hand : Hand κ β) (a : Account ε) : Call κ ε → Account ε
  | .track event n => a.track event n
  | .poll g ask => a.poll hand g ask
  | .drain g => a.drain hand g

/-- Makes calls in turn. -/
def run (hand : Hand κ β) (a : Account ε) (calls : List (Call κ ε)) : Account ε :=
  calls.foldl (call hand) a

/-- What a poll does to an account. -/
inductive Polls (hand : Hand κ β) (a : Account ε) (g : Graph κ)
    (ask : List (Question (Nat × ε)) → Watched (Nat × ε) → Bool × ε) : Account ε → Prop where
  | idle (hnone : a.watcher.pending = []) : Polls hand a g ask a
  | skipped (hsome : a.watcher.pending ≠ []) (hskip : 0 < a.watcher.skip) :
      Polls hand a g ask { a with watcher := { a.watcher with skip := a.watcher.skip - 1 } }
  /-- A fault stops the scan. -/
  | stopped {scanned : Scan κ (Nat × ε) β} {questions : List (Question (Nat × ε))}
      {unasked : List (Watched (Nat × ε))} (hskip : a.watcher.skip = 0)
      (hscan : ScansExactly (numbered ask) hand g [] [] a.watcher.pending scanned questions unasked)
      (hfault : scanned.handed.fault ≠ none) :
      Polls hand a g ask
        { a with
          watcher := { a.watcher with pending := scanned.pending }
          retired := a.retired ++ numbers (found questions)
          faults := a.faults + 1 }
  /-- The scan makes progress. -/
  | progress {scanned : Scan κ (Nat × ε) β} {questions : List (Question (Nat × ε))}
      (hskip : a.watcher.skip = 0)
      (hscan : ScansExactly (numbered ask) hand g [] [] a.watcher.pending scanned questions [])
      (hfault : scanned.handed.fault = none) (hpos : 0 < scanned.completed) :
      Polls hand a g ask
        { a with
          watcher := { a.watcher with pending := scanned.pending, skip := 0, backoff := 0 }
          retired := a.retired ++ numbers (found questions)
          idle := 0 }
  /-- The scan makes no progress. -/
  | stuck {scanned : Scan κ (Nat × ε) β} {questions : List (Question (Nat × ε))}
      (hsome : a.watcher.pending ≠ []) (hskip : a.watcher.skip = 0)
      (hscan : ScansExactly (numbered ask) hand g [] [] a.watcher.pending scanned questions [])
      (hzero : scanned.completed = 0) :
      Polls hand a g ask
        { a with
          watcher :=
            { a.watcher with
              pending := scanned.pending
              skip := a.watcher.nextBackoff
              backoff := a.watcher.nextBackoff }
          retired := a.retired ++ numbers (found questions)
          idle := a.idle + 1 }

theorem polls_poll (hand : Hand κ β) (a : Account ε) (g : Graph κ)
    (ask : List (Question (Nat × ε)) → Watched (Nat × ε) → Bool × ε) :
    Polls hand a g ask (a.poll hand g ask) := by
  have hpolled := polled_pollAsking (numbered ask) hand g a.watcher
  unfold poll
  generalize a.watcher.pollAsking (numbered ask) hand g = polled at hpolled
  cases hpolled with
  | idle hnone => simpa [found, numbers] using Polls.idle hnone
  | skipped hsome hskip => simpa [found, numbers] using Polls.skipped hsome hskip
  | @scanned scanned questions unasked hsome hskip hscan =>
    cases hfault : scanned.handed.fault with
    | some fault =>
      have hstopped : Polls hand a g ask _ := .stopped hskip hscan (by simp [hfault])
      simpa [settle, hfault] using hstopped
    | none =>
      obtain rfl := hscan.all hfault
      have hasked : questions ≠ [] := by
        rintro rfl
        exact hsome hscan.once.symm.eq_nil
      have hempty : questions.isEmpty = false := by simpa using hasked
      by_cases hpos : 0 < scanned.completed
      · simpa [settle, hfault, hempty, hpos] using Polls.progress hskip hscan hfault hpos
      · simpa [settle, hfault, hempty, hpos] using
          Polls.stuck hsome hskip hscan (Nat.eq_zero_of_not_pos hpos)

/-- What a drain does to an account. -/
inductive Drains (hand : Hand κ β) (a : Account ε) (g : Graph κ) : Account ε → Prop where
  /-- A fault stops the drain. -/
  | stopped (made : Nat)
      (hfault : (g.finishEach hand (a.watcher.pending.map Watched.node)).fault ≠ none) :
      Drains hand a g
        { a with
          watcher := { a.watcher with pending := [] }
          retired := a.retired ++ numbers (a.watcher.pending.take made)
          dropped := a.dropped ++ numbers (a.watcher.pending.drop made)
          faults := a.faults + 1 }
  | all (hfault : (g.finishEach hand (a.watcher.pending.map Watched.node)).fault = none) :
      Drains hand a g
        { a with
          watcher := { a.watcher with pending := [], skip := 0, backoff := 0 }
          retired := a.retired ++ numbers a.watcher.pending
          idle := 0 }

theorem drains_drain (hand : Hand κ β) (a : Account ε) (g : Graph κ) :
    Drains hand a g (a.drain hand g) := by
  have hhanded := handed_drain hand g a.watcher
  unfold drain
  unfold Watcher.drain at hhanded ⊢
  cases hfault : (finishAll hand g a.watcher.pending).fault with
  | some fault =>
    simp only [hfault] at hhanded ⊢
    exact .stopped _ (by rw [← hhanded, hfault]; exact Option.some_ne_none fault)
  | none =>
    simp only [hfault] at hhanded ⊢
    have hnone := hhanded ▸ hfault
    have hmade := Graph.callsMade_eq_length hnone
    rw [List.length_map] at hmade
    simpa [hmade, numbers] using Drains.all hnone

/-- Every entry is pending, retired or dropped, and entries are dropped after faults only. -/
structure Balanced (a : Account ε) : Prop where
  entries : (a.retired ++ a.dropped ++ numbers a.watcher.pending).Perm (List.range a.tracked)
  dropped : a.faults = 0 → a.dropped = []

/-- A scan finds every entry complete or keeps it. -/
theorem perm_numbers {ask : List (Question (Nat × ε)) → Watched (Nat × ε) → Bool × ε}
    {hand : Hand κ β} {g : Graph κ} {rest : List (Watched (Nat × ε))}
    {scanned : Scan κ (Nat × ε) β} {questions : List (Question (Nat × ε))}
    {unasked : List (Watched (Nat × ε))}
    (h : ScansExactly (numbered ask) hand g [] [] rest scanned questions unasked) :
    (numbers (found questions) ++ numbers scanned.pending).Perm (numbers rest) := by
  have hkept (question : Question (Nat × ε)) (hmem : question ∈ questions) :
      question.event.1 = question.entry.event.1 := by
    obtain ⟨before, later, heq⟩ := List.append_of_mem hmem
    exact congrArg (·.2.1) (h.answers before question later heq).symm
  have hleft : numbers (left questions) =
      (questions.filter (!·.complete)).map (·.entry.event.1) := by
    unfold numbers left
    rw [List.map_map]
    exact List.map_congr_left fun question hmem => hkept question (List.mem_of_mem_filter hmem)
  have hfound : numbers (found questions) =
      (questions.filter (·.complete)).map (·.entry.event.1) := by
    unfold numbers found
    rw [List.map_map]
    rfl
  have hsplit := (List.filter_append_perm (·.complete) questions).map (·.entry.event.1)
  rw [List.map_append] at hsplit
  have hall := h.once.map (·.event.1)
  rw [List.map_append, List.map_map] at hall
  rw [h.pending, List.nil_append, numbers_append, hleft, hfound, ← List.append_assoc]
  exact (hsplit.append_right _).trans hall

namespace Balanced

variable {hand : Hand κ β} {a : Account ε}

theorem new (cap : Nat) : (new cap : Account ε).Balanced := ⟨.refl _, fun _ => rfl⟩

theorem track (h : a.Balanced) (event : ε) (n : NodeId) : (a.track event n).Balanced := by
  have hentries := h.entries.append_right [a.tracked]
  rw [← List.range_succ, List.append_assoc] at hentries
  have hnumbers : numbers (a.track event n).watcher.pending =
      numbers a.watcher.pending ++ [a.tracked] := numbers_append _ _
  refine ⟨?_, h.dropped⟩
  rw [hnumbers]
  exact hentries

theorem poll (h : a.Balanced) (g : Graph κ)
    (ask : List (Question (Nat × ε)) → Watched (Nat × ε) → Bool × ε) :
    (a.poll hand g ask).Balanced := by
  have hpolls := polls_poll hand a g ask
  -- What a scan finds goes from what is pending to what is retired.
  have hscanned {pending : List (Watched (Nat × ε))} {retired : List Nat}
      (hperm : (retired ++ numbers pending).Perm (numbers a.watcher.pending)) :
      (a.retired ++ retired ++ a.dropped ++ numbers pending).Perm (List.range a.tracked) := by
    refine List.Perm.trans ?_ h.entries
    rw [List.perm_iff_count] at hperm ⊢
    intro number
    have hcount := hperm number
    simp only [List.count_append] at hcount ⊢
    omega
  generalize a.poll hand g ask = polled at hpolls
  cases hpolls with
  | idle _ => exact h
  | skipped _ _ => exact ⟨h.entries, h.dropped⟩
  | stopped _ hscan _ => exact ⟨hscanned (perm_numbers hscan), fun hzero => nomatch hzero⟩
  | progress _ hscan _ _ => exact ⟨hscanned (perm_numbers hscan), h.dropped⟩
  | stuck _ _ hscan _ => exact ⟨hscanned (perm_numbers hscan), h.dropped⟩

theorem drain (h : a.Balanced) (g : Graph κ) : (a.drain hand g).Balanced := by
  have hdrains := drains_drain hand a g
  generalize a.drain hand g = drained at hdrains
  cases hdrains with
  | stopped made _ =>
    refine ⟨List.Perm.trans ?_ h.entries, fun hzero => nomatch hzero⟩
    have hsplit := congrArg numbers (List.take_append_drop made a.watcher.pending)
    rw [numbers_append] at hsplit
    rw [List.perm_iff_count]
    intro number
    have hcount := congrArg (List.count number) hsplit
    simp only [List.count_append, numbers, List.map_nil, List.count_nil] at hcount ⊢
    omega
  | all _ =>
    refine ⟨List.Perm.trans ?_ h.entries, h.dropped⟩
    rw [List.perm_iff_count]
    intro number
    simp only [List.count_append, numbers, List.map_nil, List.count_nil]
    omega

theorem call (h : a.Balanced) (next : Call κ ε) : (a.call hand next).Balanced := by
  cases next with
  | track event n => exact h.track event n
  | poll g ask => exact h.poll g ask
  | drain g => exact h.drain g

theorem run (h : a.Balanced) (calls : List (Call κ ε)) : (a.run hand calls).Balanced :=
  List.foldlRecOn calls (Account.call hand) h fun _ hnow next _ => hnow.call next

/-- No entry is retired twice. -/
theorem nodup_retired (h : a.Balanced) : a.retired.Nodup :=
  (h.entries.nodup_iff.mpr List.nodup_range).of_append_left.of_append_left

/-- What is pending has not been retired. -/
theorem not_mem_retired (h : a.Balanced) {k : Nat} (hk : k ∈ numbers a.watcher.pending) :
    k ∉ a.retired := fun hretired =>
  (List.nodup_append.mp (h.entries.nodup_iff.mpr List.nodup_range)).2.2 k
    (List.mem_append_left _ hretired) k hk rfl

end Balanced

/-- What becomes of the entries of a watcher: each is retired once at most, and a drain finishes the
parts of those that are pending in turn. -/
structure RetiresExactly (hand : Hand κ β) (a : Account ε) : Prop extends a.Balanced where
  once : a.retired.Nodup
  drained : ∀ g : Graph κ, (a.drain hand g).watcher.pending = []
  handed : ∀ g : Graph κ, (a.watcher.drain hand g).handed =
    g.finishEach hand (a.watcher.pending.map Watched.node)
  all : ∀ g : Graph κ, (a.watcher.drain hand g).handed.fault = none →
    (a.drain hand g).retired = a.retired ++ numbers a.watcher.pending

theorem Balanced.retiresExactly (hand : Hand κ β) {a : Account ε} (h : a.Balanced) :
    a.RetiresExactly hand := by
  refine ⟨h, h.nodup_retired, fun g => ?_, fun g => handed_drain hand g a.watcher,
    fun g hfault => ?_⟩
  · have hdrains := drains_drain hand a g
    generalize a.drain hand g = drained at hdrains
    cases hdrains <;> rfl
  · rw [handed_drain] at hfault
    have hdrains := drains_drain hand a g
    generalize a.drain hand g = drained at hdrains
    cases hdrains with
    | stopped _ hstopped => exact absurd hfault hstopped
    | all _ => rfl

section Faultless

variable {hand : Hand κ β} {nodeOf : β → NodeId} {a : Account ε}

/-- A call meets no fault when every node can be handed on and none that has parts left is
complete. -/
theorem faults_call (hhand : hand.Faithful nodeOf)
    (htotal : ∀ g n, ∃ item, (hand g n).result = .ok item) {next : Call κ ε}
    (hopen : next.PartsOpen) : (a.call hand next).faults = a.faults := by
  cases next with
  | track event n => rfl
  | poll g ask =>
    have hpolls := polls_poll hand a g ask
    change (a.poll hand g ask).faults = a.faults
    generalize a.poll hand g ask = polled at hpolls
    cases hpolls with
    | stopped _ hscan hfault =>
      rw [hscan.handed] at hfault
      exact absurd (hopen.finishEach hhand htotal _) hfault
    | _ => rfl
  | drain g =>
    have hdrains := drains_drain hand a g
    change (a.drain hand g).faults = a.faults
    generalize a.drain hand g = drained at hdrains
    cases hdrains with
    | stopped _ hfault => exact absurd (hopen.finishEach hhand htotal _) hfault
    | all _ => rfl

theorem faults_run (hhand : hand.Faithful nodeOf)
    (htotal : ∀ g n, ∃ item, (hand g n).result = .ok item) {calls : List (Call κ ε)}
    (hopen : ∀ next ∈ calls, next.PartsOpen) : (a.run hand calls).faults = a.faults :=
  List.foldlRecOn (motive := fun a' => a'.faults = a.faults) calls (call hand) rfl
    fun _ hnow next hnext => (faults_call hhand htotal (hopen next hnext)).trans hnow

end Faultless

end Account

/-- Scans are exact, and so is what a run of calls makes of the entries. -/
theorem exact_calls (hand : Hand κ β) :
    (∀ (query : ε → Bool × ε) (g : Graph κ) (w : Watcher ε),
      w.poll query hand g = (w.pollAsking (fun _ entry => query entry.event) hand g).1) ∧
    (∀ (ask : Answering ε) (g : Graph κ) (w : Watcher ε), w.skip = 0 → ∃ unasked,
      ScansExactly ask hand g [] [] w.pending (w.pollAsking ask hand g).1.scan
        (w.pollAsking ask hand g).2 unasked) ∧
    (∀ (cap : Nat) (calls : List (Call κ ε)),
      ((Account.new cap).run hand calls).RetiresExactly hand) ∧
    ∀ nodeOf, hand.Faithful nodeOf → (∀ g n, ∃ item, (hand g n).result = .ok item) →
      (∀ (ask : Answering ε) (g : Graph κ) (w : Watcher ε), w.skip = 0 → g.PartsOpen →
        (w.pollAsking ask hand g).1.handed.fault = none) ∧
      ∀ (cap : Nat) (calls : List (Call κ ε)), (∀ next ∈ calls, next.PartsOpen) →
        ((Account.new cap).run hand calls).faults = 0 := by
  refine ⟨fun query g w => poll_eq_pollAsking query hand g w,
    fun ask g w hskip => scansExactly_pollAsking ask hand g hskip,
    fun cap calls => ((Account.Balanced.new cap).run calls).retiresExactly hand,
    fun nodeOf hhand htotal => ⟨fun ask g w hskip hopen => ?_, fun cap calls hopen =>
      Account.faults_run hhand htotal hopen⟩⟩
  obtain ⟨unasked, hscan⟩ := scansExactly_pollAsking ask hand g hskip
  have hhanded : (w.pollAsking ask hand g).1.handed = _ := hscan.handed
  rw [hhanded]
  exact hopen.finishEach hhand htotal _

/-- Three parts of node 0 are outstanding, and one of node 1. -/
def twoDispatched : Graph Unit :=
  { nodes := #[{ work := none, claimed := true, parts := 3, batch := 0 },
      { work := none, claimed := true, batch := 0 }]
    batches := #[{}] }

theorem partsOpen_twoDispatched : twoDispatched.PartsOpen := by
  intro n _
  match n with
  | 0 => rfl
  | 1 => rfl
  | _ + 2 => rfl

/-- Three entries, of which the first and the last are complete. -/
def threeEntries : Watcher Bool := { pending := [⟨true, 0⟩, ⟨false, 0⟩, ⟨true, 1⟩], cap := 4 }

/-- Two of three entries are found complete, and a drain retires the other and a later one. -/
def pollThenDrain : List (Call Unit Bool) :=
  [.track true 0, .track false 0, .track true 1,
    .poll twoDispatched fun _ entry => (entry.event.2, true), .track true 0, .drain twoDispatched]

/-- The last entry is asked in the place of the first. -/
theorem exact_calls_threeEntries :
    (∃ unasked, ScansExactly (fun _ entry => (entry.event, true)) Graph.handNode twoDispatched [] []
      threeEntries.pending
      (threeEntries.pollAsking (fun _ entry => (entry.event, true)) Graph.handNode
        twoDispatched).1.scan
      (threeEntries.pollAsking (fun _ entry => (entry.event, true)) Graph.handNode
        twoDispatched).2 unasked) ∧
    (threeEntries.pollAsking (fun _ entry => (entry.event, true)) Graph.handNode
      twoDispatched).2.map Question.entry = [⟨true, 0⟩, ⟨true, 1⟩, ⟨false, 0⟩] ∧
    (threeEntries.pollAsking (fun _ entry => (entry.event, true)) Graph.handNode
      twoDispatched).1.handed.fault = none ∧
    ((Account.new 4).run Graph.handNode pollThenDrain).RetiresExactly
      (Graph.handNode (κ := Unit)) ∧
    ((Account.new 4).run Graph.handNode pollThenDrain).faults = 0 ∧
    ((Account.new 4).run Graph.handNode pollThenDrain).retired = [0, 2, 1, 3] := by
  obtain ⟨-, hscans, hruns, hfaultless⟩ := exact_calls (ε := Bool) (Graph.handNode (κ := Unit))
  obtain ⟨hpolls, hcalls⟩ := hfaultless id Graph.local_handNode.toFaithful fun g n => ⟨n, rfl⟩
  exact ⟨hscans _ twoDispatched threeEntries rfl, by decide +kernel,
    hpolls _ twoDispatched threeEntries rfl partsOpen_twoDispatched, hruns 4 pollThenDrain,
    hcalls 4 pollThenDrain (by simp [pollThenDrain, Call.PartsOpen, partsOpen_twoDispatched]),
    by decide +kernel⟩

end HazardFlow.Watcher
