import HazardFlow.Ownership.OwnerCount
import Mathlib.Data.List.Induction

/-!
# The last owner

A count moves with every call, also with one that stops. A call stops exactly when the count does
not allow it, and a count of zero allows an acquire, whether the object is new or its last owner has
been told so. So the last owner is told once, and whatever follows stops, exactly as long as no
acquire comes after that when as many owners were added as removed.
-/

namespace HazardFlow.OwnerCount

variable {c : OwnerCount} {commands : List Command}

/-- The count that commands leave behind. -/
def after (c : OwnerCount) (commands : List Command) : OwnerCount :=
  commands.foldl (fun c command => (c.perform command).state) c

/-- Whether an outcome tells that the last owner has left. -/
def tellsLast (o : Outcome OwnerCount Answer) : Bool :=
  match o.result with
  | .ok (.last yes) => yes
  | _ => false

/-- How often commands are told that the last owner has left. -/
def reports (c : OwnerCount) (commands : List Command) : Nat :=
  (c.performAll commands).countP tellsLast

/-- How often an acquire finds the count at zero. -/
def starts (c : OwnerCount) : List Command → Nat
  | [] => 0
  | command :: rest =>
    (if command = .acquire ∧ c.owners = 0 then 1 else 0) + (c.perform command).state.starts rest

theorem state_perform_acquire (c : OwnerCount) : (c.perform .acquire).state = ⟨c.owners + 1⟩ :=
  state_acquire c

theorem state_perform_release (c : OwnerCount) : (c.perform .release).state = ⟨c.owners - 1⟩ :=
  state_release c

theorem state_perform_describe (c : OwnerCount) : (c.perform .describe).state = c := rfl

/-- An acquire stops exactly when the count is negative. -/
theorem acquire_stops_iff (c : OwnerCount) :
    (∃ fault, (c.perform .acquire).result = .error fault) ↔ c.owners < 0 := by
  unfold perform acquire
  by_cases h : 0 ≤ c.owners
  · simp [h, Outcome.pure, Outcome.map, Except.map]
  · simp [h, Outcome.fail, Outcome.map, Except.map, Int.not_le.mp h]

/-- A release stops exactly when the count is not positive. -/
theorem release_stops_iff (c : OwnerCount) :
    (∃ fault, (c.perform .release).result = .error fault) ↔ c.owners ≤ 0 := by
  unfold perform release
  by_cases h : 0 < c.owners
  · simp [h, Outcome.pure, Outcome.map, Except.map]
  · simp [h, Outcome.fail, Outcome.map, Except.map, Int.not_lt.mp h]

/-- The last owner is told so by a release that finds one owner, and by nothing else. -/
theorem tellsLast_perform (c : OwnerCount) (command : Command) :
    tellsLast (c.perform command) = (command == .release && c.owners == 1) := by
  cases command with
  | acquire =>
    unfold perform acquire tellsLast
    by_cases h : 0 ≤ c.owners <;> simp [h, Outcome.pure, Outcome.fail, Outcome.map, Except.map]
  | release =>
    unfold perform release tellsLast
    by_cases h : 0 < c.owners
    · simp [h, Outcome.pure, Outcome.map, Except.map]
    · have hne : c.owners ≠ 1 := by omega
      simp [h, hne, Outcome.fail, Outcome.map, Except.map]
  | describe => rfl

theorem after_concat (c : OwnerCount) (commands : List Command) (command : Command) :
    c.after (commands ++ [command]) = ((c.after commands).perform command).state := by
  unfold after
  rw [List.foldl_append]
  rfl

/-- Commands are done on what the commands before them left behind. -/
theorem performAll_append (c : OwnerCount) (commands later : List Command) :
    c.performAll (commands ++ later) =
      c.performAll commands ++ (c.after commands).performAll later := by
  induction commands generalizing c with
  | nil => rfl
  | cons command rest ih =>
    simp only [List.cons_append, performAll, ih]
    rfl

theorem reports_concat (c : OwnerCount) (commands : List Command) (command : Command) :
    c.reports (commands ++ [command]) = c.reports commands +
      if command = .release ∧ (c.after commands).owners = 1 then 1 else 0 := by
  unfold reports
  rw [performAll_append, List.countP_append]
  simp only [performAll, List.countP_singleton, tellsLast_perform, Bool.and_eq_true, beq_iff_eq]

/-- The count is the number of owners added less the number of owners removed, whether or not a call
stopped. -/
theorem owners_after (c : OwnerCount) (commands : List Command) : (c.after commands).owners =
    c.owners + commands.count .acquire - commands.count .release := by
  induction commands using List.reverseRecOn with
  | nil => simp [after]
  | append_singleton before command ih =>
    rw [after_concat]
    cases command with
    | acquire =>
      rw [state_perform_acquire]
      simp
      omega
    | release =>
      rw [state_perform_release]
      simp
      omega
    | describe =>
      rw [state_perform_describe]
      simp [ih]

/-- The last owner is told so as often as the count has left zero and come back. -/
theorem reports_add_eq_starts (c : OwnerCount) (commands : List Command) :
    c.reports commands + (if 0 < (c.after commands).owners then 1 else 0) =
      c.starts commands + if 0 < c.owners then 1 else 0 := by
  induction commands generalizing c with
  | nil => rfl
  | cons command rest ih =>
    have hrest := ih (c.perform command).state
    have hfirst : c.reports (command :: rest) = (c.perform command).state.reports rest +
        if command = .release ∧ c.owners = 1 then 1 else 0 := by
      unfold reports
      simp only [performAll, List.countP_cons, tellsLast_perform, Bool.and_eq_true, beq_iff_eq]
    have hafter : c.after (command :: rest) = (c.perform command).state.after rest := rfl
    rw [hfirst, hafter, starts]
    cases command with
    | acquire =>
      rw [state_perform_acquire] at hrest ⊢
      simp only [reduceCtorEq, false_and, true_and, if_false] at hrest ⊢
      split_ifs at hrest ⊢ <;> omega
    | release =>
      rw [state_perform_release] at hrest ⊢
      simp only [reduceCtorEq, false_and, true_and, if_false] at hrest ⊢
      split_ifs at hrest ⊢ <;> omega
    | describe =>
      rw [state_perform_describe] at hrest ⊢
      simpa using hrest

/-- The last owner is told so once, and every call that comes later stops. -/
structure TellsOnce (c : OwnerCount) (commands : List Command) : Prop where
  once : c.reports commands ≤ 1
  stops : ∀ (before : List Command) (command : Command), before ++ [command] <+: commands →
    0 < c.reports before → command ≠ .describe →
      ∃ fault, ((c.after before).perform command).result = .error fault

/-- A new count. -/
def new : OwnerCount := {}

/-- Whether an acquire comes after the last owner was told so, when as many owners have been added
as removed. -/
def Revives (commands : List Command) : Prop :=
  ∃ before : List Command, before ++ [.acquire] <+: commands ∧ 0 < new.reports before ∧
    before.count .acquire = before.count .release

section Revives

variable {before : List Command}

theorem owners_after_new (commands : List Command) : (new.after commands).owners =
    commands.count .acquire - commands.count .release := by
  rw [owners_after]
  exact congrArg (· - _) (Int.zero_add _)

theorem Revives.of_isPrefix (h : Revives before) (hinit : before <+: commands) :
    Revives commands := by
  obtain ⟨first, hfirst, hrest⟩ := h
  exact ⟨first, hfirst.trans hinit, hrest⟩

/-- Unless an acquire revives a count, none finds it at zero after its last owner. -/
theorem owners_ne_zero (h : ¬ Revives commands) (hinit : before ++ [.acquire] <+: commands)
    (hpos : 0 < new.reports before) : (new.after before).owners ≠ 0 := by
  intro hzero
  rw [owners_after_new] at hzero
  exact h ⟨before, hinit, hpos, by omega⟩

/-- A count that is not revived has no owners after its last one, which is told so once. -/
theorem owners_le_of_reports (h : ¬ Revives commands) :
    new.reports commands ≤ 1 ∧
      (0 < new.reports commands → (new.after commands).owners ≤ 0) := by
  induction commands using List.reverseRecOn with
  | nil => exact ⟨Nat.zero_le 1, fun hpos => absurd hpos (Nat.lt_irrefl 0)⟩
  | append_singleton before command ih =>
    obtain ⟨honce, howners⟩ := ih fun hbefore => h (hbefore.of_isPrefix (List.prefix_append ..))
    rw [reports_concat, after_concat]
    cases command with
    | acquire =>
      have hne := owners_ne_zero h List.prefix_rfl
      rw [state_perform_acquire]
      simp only [reduceCtorEq, false_and, if_false, Nat.add_zero]
      refine ⟨honce, fun hpos => ?_⟩
      specialize howners hpos
      specialize hne hpos
      omega
    | release =>
      rw [state_perform_release]
      simp only [true_and]
      split
      · next hone =>
        have hnone : new.reports before = 0 := by
          by_contra hsome
          specialize howners (Nat.pos_of_ne_zero hsome)
          omega
        exact ⟨by omega, fun _ => by omega⟩
      · refine ⟨honce, fun hpos => ?_⟩
        specialize howners hpos
        omega
    | describe =>
      rw [state_perform_describe]
      simp only [reduceCtorEq, false_and, if_false, Nat.add_zero]
      exact ⟨honce, howners⟩

/-- After its last owner, a count that is not revived stops every call. -/
theorem tellsOnce_of_not_revives (h : ¬ Revives commands) : new.TellsOnce commands := by
  refine ⟨(owners_le_of_reports h).1, fun before command hinit hpos hne => ?_⟩
  have hbefore : ¬ Revives before := fun hyes =>
    h ((hyes.of_isPrefix (List.prefix_append ..)).of_isPrefix hinit)
  have hle := (owners_le_of_reports hbefore).2 hpos
  cases command with
  | acquire =>
    have hzero := owners_ne_zero h hinit hpos
    rw [acquire_stops_iff]
    omega
  | release => exact (release_stops_iff _).mpr hle
  | describe => exact absurd rfl hne

end Revives

/-- A new count tells its last owner once, and stops every later call, exactly when no acquire comes
after that while as many owners were added as removed. In any case it tells a last owner as often as
it has left zero, less once while there are owners. -/
theorem tellsOnce_iff (commands : List Command) :
    (new.TellsOnce commands ↔ ¬ Revives commands) ∧
      new.reports commands +
        (if commands.count .release < commands.count .acquire then 1 else 0) =
          new.starts commands := by
  refine ⟨⟨?_, tellsOnce_of_not_revives⟩, ?_⟩
  · rintro h ⟨before, hinit, hpos, heq⟩
    have hnegative := (acquire_stops_iff _).mp (h.stops before .acquire hinit hpos nofun)
    rw [owners_after_new, heq] at hnegative
    omega
  · have hcount := reports_add_eq_starts new commands
    have hpos : 0 < (new.after commands).owners ↔
        commands.count .release < commands.count .acquire := by
      rw [owners_after_new]
      omega
    simp only [hpos] at hcount
    exact hcount

/-- A last owner, one more owner afterwards, and a second last owner. -/
def ownedAgain : List Command := [.acquire, .release, .acquire, .release]

/-- The count tells a last owner twice, and no call stops. -/
theorem not_tellsOnce_ownedAgain : ¬ new.TellsOnce ownedAgain ∧
    (new.performAll ownedAgain).map Outcome.result =
      [.ok .done, .ok (.last true), .ok .done, .ok (.last true)] :=
  ⟨fun h => absurd h.once (by decide), rfl⟩

end HazardFlow.OwnerCount
