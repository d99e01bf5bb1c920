import HazardFlow.Proofs.Watching.Account
import HazardFlow.Word

/-!
# Backing off

A scan without progress doubles the number of polls that are skipped, and one more, up to a cap. So
after `k` such scans it is `2 ^ k - 1` or the cap, and the word that holds it never overflows. An
event that is complete from some time on is found so after as many polls as are still to be skipped
and one more.
-/

namespace HazardFlow.Watcher

variable {κ ε β : Type}

/-- When the cap fits in a word, it is reached before the number of polls to skip overflows. -/
theorem nextBackoff_eq {w : Watcher ε} (hcap : w.cap ≤ maxHalfWord) :
    w.nextBackoff = min (2 * w.backoff + 1) w.cap := by
  unfold nextBackoff addHalfWord
  omega

/-- Doubling from nothing gives powers of two, less one. -/
theorem min_double_pow (k cap : Nat) :
    min (2 * min (2 ^ k - 1) cap + 1) cap = min (2 ^ (k + 1) - 1) cap := by
  have hpos := Nat.two_pow_pos k
  rw [pow_succ]
  omega

/-- A call finds an entry complete whenever it asks for it. -/
def Call.Finds (k : Nat) : Call κ ε → Prop
  | .poll _ ask => ∀ asked entry, entry.event.1 = k → (ask asked entry).1 = true
  | _ => True

namespace Account

/-- The polls to skip are bounded by the cap and given by the number of scans without progress. -/
structure Paced (cap : Nat) (a : Account ε) : Prop where
  cap_eq : a.watcher.cap = cap
  skip_le : a.watcher.skip ≤ a.watcher.backoff
  backoff : a.watcher.backoff = min (2 ^ a.idle - 1) cap
  /-- Polls are skipped only while something is pending. -/
  pending : a.faults = 0 → 0 < a.watcher.skip → a.watcher.pending ≠ []

namespace Paced

variable {hand : Hand κ β} {a : Account ε} {cap : Nat}

theorem new (cap : Nat) : (new cap : Account ε).Paced cap :=
  ⟨rfl, Nat.le_refl 0, by simp [Account.new], fun _ hskip => absurd hskip (Nat.lt_irrefl 0)⟩

theorem backoff_le (h : a.Paced cap) : a.watcher.backoff ≤ cap := by
  rw [h.backoff]
  exact Nat.min_le_right ..

theorem nextBackoff (h : a.Paced cap) (hcap : cap ≤ maxHalfWord) :
    a.watcher.nextBackoff = min (2 * a.watcher.backoff + 1) cap := by
  rw [← h.cap_eq] at hcap ⊢
  exact nextBackoff_eq hcap

/-- A watcher that is not to skip any polls keeps its pace. -/
theorem of_zero {a' : Account ε} (h : a.Paced cap) (hcap : a'.watcher.cap = a.watcher.cap)
    (hskip : a'.watcher.skip = 0) (hbackoff : a'.watcher.backoff = 0) (hidle : a'.idle = 0) :
    a'.Paced cap := by
  refine ⟨hcap.trans h.cap_eq, by omega, ?_, fun _ hpos => by omega⟩
  rw [hbackoff, hidle]
  simp

theorem poll (h : a.Paced cap) (hcap : cap ≤ maxHalfWord) (g : Graph κ)
    (ask : List (Question (Nat × ε)) → Watched (Nat × ε) → Bool × ε) :
    (a.poll hand g ask).Paced cap := by
  have hpolls := polls_poll hand a g ask
  have hnext := h.nextBackoff hcap
  generalize a.poll hand g ask = polled at hpolls
  cases hpolls with
  | idle _ => exact h
  | skipped hsome _ =>
    exact ⟨h.cap_eq, Nat.le_trans (Nat.sub_le ..) h.skip_le, h.backoff, fun _ _ => hsome⟩
  | stopped _ _ _ => exact ⟨h.cap_eq, h.skip_le, h.backoff, fun hzero => nomatch hzero⟩
  | progress _ _ _ _ => exact h.of_zero rfl rfl rfl rfl
  | @stuck scanned questions hsome _ hscan hzero =>
    refine ⟨h.cap_eq, Nat.le_refl _, ?_, fun _ _ hnone => hsome ?_⟩
    · rw [← min_double_pow, ← h.backoff]
      exact hnext
    · -- Nothing was found complete, so that everything is pending still.
      rw [hscan.completed] at hzero
      have hperm := perm_numbers hscan
      rw [List.length_eq_zero_iff.mp hzero] at hperm
      dsimp only at hnone
      rw [hnone] at hperm
      exact List.map_eq_nil_iff.mp hperm.symm.eq_nil

theorem drain (h : a.Paced cap) (g : Graph κ) : (a.drain hand g).Paced cap := by
  have hdrains := drains_drain hand a g
  generalize a.drain hand g = drained at hdrains
  cases hdrains with
  | stopped _ _ => exact ⟨h.cap_eq, h.skip_le, h.backoff, fun hzero => nomatch hzero⟩
  | all _ => exact h.of_zero rfl rfl rfl rfl

theorem call (h : a.Paced cap) (hcap : cap ≤ maxHalfWord) (next : Call κ ε) :
    (a.call hand next).Paced cap := by
  cases next with
  | track event n => exact h.of_zero rfl rfl rfl rfl
  | poll g ask => exact h.poll hcap g ask
  | drain g => exact h.drain g

theorem run (h : a.Paced cap) (hcap : cap ≤ maxHalfWord) (calls : List (Call κ ε)) :
    (a.run hand calls).Paced cap :=
  List.foldlRecOn calls (Account.call hand) h fun _ hnow next _ => hnow.call hcap next

end Paced

section Delay

variable {hand : Hand κ β} {a : Account ε} {k : Nat}

/-- A fault is noted for good. -/
theorem faults_le_run (hand : Hand κ β) (a : Account ε) (calls : List (Call κ ε)) :
    a.faults ≤ (a.run hand calls).faults := by
  refine List.foldlRecOn (motive := fun a' => a.faults ≤ a'.faults) calls (call hand)
    (Nat.le_refl _) fun a' hnow next _ => Nat.le_trans hnow ?_
  cases next with
  | track event n => exact Nat.le_refl _
  | poll g ask => exact Nat.le_add_right ..
  | drain g => exact Nat.le_add_right ..

/-- A scan that meets no fault retires an entry that is complete when it is asked. -/
theorem mem_found {ask : List (Question (Nat × ε)) → Watched (Nat × ε) → Bool × ε} {g : Graph κ}
    {rest : List (Watched (Nat × ε))} {scanned : Scan κ (Nat × ε) β}
    {questions : List (Question (Nat × ε))}
    (h : ScansExactly (numbered ask) hand g [] [] rest scanned questions [])
    (hk : k ∈ numbers rest)
    (hfinds : ∀ asked entry, entry.event.1 = k → (ask asked entry).1 = true) :
    k ∈ numbers (found questions) := by
  obtain ⟨entry, hentry, rfl⟩ := List.mem_map.mp hk
  have hasked : entry ∈ questions.map Question.entry := by
    have hmem := h.once.mem_iff.mpr hentry
    rwa [List.append_nil] at hmem
  obtain ⟨question, hquestion, rfl⟩ := List.mem_map.mp hasked
  obtain ⟨before, later, heq⟩ := List.append_of_mem hquestion
  have hcomplete : question.complete = true :=
    (congrArg Prod.fst (h.answers before question later heq)).symm.trans (hfinds _ _ rfl)
  refine List.mem_map_of_mem (List.mem_map_of_mem (List.mem_filter.mpr ⟨hquestion, ?_⟩))
  exact hcomplete

/-- A poll or drain retires an entry, and no more polls are made before than are to be skipped. -/
def RetiresSoon (hand : Hand κ β) (a : Account ε) (k : Nat) (more : List (Call κ ε)) : Prop :=
  ∃ before next after, more = before ++ next :: after ∧
    (next.isPoll = true ∨ ∃ g, next = .drain g) ∧
    before.countP Call.isPoll ≤ a.watcher.skip ∧
    k ∉ (a.run hand before).retired ∧ k ∈ (a.run hand (before ++ [next])).retired

/-- So it is when the calls after the first one retire the entry soon. -/
theorem RetiresSoon.cons {a' : Account ε} {next : Call κ ε} {rest : List (Call κ ε)}
    (h : a'.RetiresSoon hand k rest) (hcall : a.call hand next = a')
    (hskip : a'.watcher.skip + next.isPoll.toNat ≤ a.watcher.skip) :
    a.RetiresSoon hand k (next :: rest) := by
  subst hcall
  obtain ⟨before, last, after, rfl, hlast, hpolls, hnew, hmem⟩ := h
  refine ⟨next :: before, last, after, rfl, hlast, Nat.le_trans ?_ hskip, hnew, hmem⟩
  rw [List.countP_cons]
  refine Nat.add_le_add hpolls ?_
  cases next.isPoll <;> decide

/-- An entry that is complete from now on is retired by the first poll that is not skipped, unless a
drain comes first. -/
theorem retiresSoon (hk : k ∈ numbers a.watcher.pending) (hnew : k ∉ a.retired)
    {more : List (Call κ ε)} (hfinds : ∀ next ∈ more, next.Finds k)
    (hfaults : (a.run hand more).faults = a.faults)
    (hpolls : a.watcher.skip < more.countP Call.isPoll) : a.RetiresSoon hand k more := by
  induction more generalizing a with
  | nil => exact absurd hpolls (Nat.not_lt_zero _)
  | cons next rest ih =>
    have hfirst := hfinds next List.mem_cons_self
    have hrest := fun later hlater => hfinds later (List.mem_cons_of_mem next hlater)
    have hfaults' : ((a.call hand next).run hand rest).faults = a.faults := hfaults
    have hle := faults_le_run hand (a.call hand next) rest
    rw [hfaults'] at hle
    have hnow (hcall : next.isPoll = true ∨ ∃ g, next = .drain g)
        (hmem : k ∈ (a.call hand next).retired) : a.RetiresSoon hand k (next :: rest) :=
      ⟨[], next, rest, rfl, hcall, Nat.zero_le _, hnew, hmem⟩
    cases next with
    | track event n =>
      refine (ih (a := a.track event n) ?_ hnew hrest hfaults' ?_).cons rfl (Nat.zero_le _)
      · exact List.mem_map.mpr <| (List.mem_map.mp hk).imp fun entry h =>
          ⟨List.mem_append_left _ h.1, h.2⟩
      · exact Nat.lt_of_le_of_lt (Nat.zero_le _) hpolls
    | poll g ask =>
      have hcall : Polls hand a g ask (a.call hand (.poll g ask)) := polls_poll hand a g ask
      generalize hnext : a.call hand (.poll g ask) = polled at *
      cases hcall with
      | idle hnone => simp [hnone, numbers] at hk
      | skipped hsome hskip =>
        refine (ih (a := { a with watcher := { a.watcher with skip := a.watcher.skip - 1 } }) hk hnew
          hrest hfaults' ?_).cons hnext (Nat.sub_add_cancel hskip).le
        have hcount := List.countP_cons_of_pos (p := Call.isPoll) (a := Call.poll g ask)
          (l := rest) rfl
        dsimp only
        omega
      | stopped _ _ _ => exact absurd hle (Nat.not_succ_le_self _)
      | progress _ hscan _ _ =>
        exact hnow (Or.inl rfl) (List.mem_append_right _ (mem_found hscan hk hfirst))
      | stuck _ _ hscan _ =>
        exact hnow (Or.inl rfl) (List.mem_append_right _ (mem_found hscan hk hfirst))
    | drain g =>
      have hcall : Drains hand a g (a.call hand (.drain g)) := drains_drain hand a g
      generalize a.call hand (.drain g) = drained at *
      cases hcall with
      | stopped _ _ => exact absurd hle (Nat.not_succ_le_self _)
      | all _ => exact hnow (Or.inr ⟨g, rfl⟩) (List.mem_append_right _ hk)

end Delay

/-- How a watcher backs off: what its counts are, and how long a completion may wait. -/
structure BacksOff (hand : Hand κ β) (cap : Nat) (a : Account ε) : Prop extends a.Paced cap where
  backoff_le : a.watcher.backoff ≤ cap
  /-- The word does not overflow. -/
  next : a.watcher.nextBackoff = min (2 * a.watcher.backoff + 1) cap
  /-- A poll that is skipped asks nothing and changes nothing but the polls still to be skipped. -/
  skips : 0 < a.watcher.skip → a.watcher.pending ≠ [] → ∀ (ask : Answering (Nat × ε)) (g : Graph κ),
    a.watcher.pollAsking ask hand g =
      (⟨⟨g, [], none⟩, { a.watcher with skip := a.watcher.skip - 1 }, 0⟩, [])
  /-- What is pending and complete from now on waits for that many polls and one more. -/
  retires : ∀ k ∈ numbers a.watcher.pending, ∀ more : List (Call κ ε),
    (∀ next ∈ more, next.Finds k) → (a.run hand more).faults = a.faults →
      a.watcher.skip < more.countP Call.isPoll → a.RetiresSoon hand k more

end Account

/-- A watcher backs off like this in every run. -/
theorem backsOff_run (hand : Hand κ β) {cap : Nat} (hcap : cap ≤ maxHalfWord)
    (calls : List (Call κ ε)) :
    ((Account.new cap).run hand calls).BacksOff hand cap := by
  have hpaced : ((Account.new cap).run hand calls).Paced cap :=
    (Account.Paced.new cap).run hcap calls
  have hbalanced : ((Account.new cap).run hand calls).Balanced :=
    (Account.Balanced.new cap).run calls
  refine ⟨hpaced, hpaced.backoff_le, hpaced.nextBackoff hcap, fun hskip hsome ask g => ?_,
    fun k hk more hfinds hfaults hpolls =>
      Account.retiresSoon hk (hbalanced.not_mem_retired hk) hfinds hfaults hpolls⟩
  unfold pollAsking
  rw [if_neg (by simpa using hsome), if_pos hskip]

/-- An event is polled three times in vain, the second time without being asked. -/
def polledInVain : List (Call Unit Bool) :=
  .track false 0 :: List.replicate 3 (.poll twoDispatched fun _ entry => (entry.event.2, false))

/-- Three polls are to be skipped then, and the fourth may find the event complete. -/
theorem backsOff_polledInVain :
    ((Account.new 4).run Graph.handNode polledInVain).BacksOff (Graph.handNode (κ := Unit)) 4 ∧
      ((Account.new 4).run Graph.handNode polledInVain).idle = 2 ∧
      ((Account.new 4).run Graph.handNode polledInVain).watcher.skip = 3 ∧
      ((Account.new 4).run Graph.handNode polledInVain).RetiresSoon Graph.handNode 0
        (List.replicate 4 (.poll twoDispatched fun _ _ => (true, true))) := by
  have hcap : 4 ≤ maxHalfWord := by decide
  have hbacksOff := backsOff_run (Graph.handNode (κ := Unit)) hcap polledInVain
  refine ⟨hbacksOff, by decide +kernel, by decide +kernel, hbacksOff.retires 0 (by decide +kernel)
    _ (fun next hnext => ?_) (by decide +kernel) (by decide +kernel)⟩
  rw [List.eq_of_mem_replicate hnext]
  exact fun _ _ _ => rfl

end HazardFlow.Watcher
