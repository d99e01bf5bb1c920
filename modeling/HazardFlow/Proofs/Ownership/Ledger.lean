import HazardFlow.Proofs.Ownership.Custody
import Mathlib.Logic.Function.Basic

/-!
# What lists were pushed and runs handed over

A ledger notes what was pushed on each list, which run was made of it, and what the run has handed
over or given up since. The entries of an open list are those pushed on it; once it is sealed, what
its run has handed over, what is left in it and what was dropped with it are those same entries, in
the order in which the list had them.
-/

namespace HazardFlow.Ownership

namespace Chains

/-- What is noted of a move. -/
inductive Note where
  | pushed (list : Nat) (id : ObjectId)
  | closed (list run : Nat)
  | yielded (run : Nat) (ids : List ObjectId)
  | dropped (run : Nat) (ids : List ObjectId)
  deriving DecidableEq, Repr

/-- What is noted of a move that came to its end. -/
def note (c : Chains) : Move → Answer → Option Note
  | .command (.push n item), .pushed => c.held[item]?.join.map (.pushed n)
  | .pass n item, .pushed => c.held[item]?.join.map (.pushed n)
  | .command (.close n), .number run => some (.closed n run.toNat)
  | .command (.next n), .number _ => (c.runs[n]?.bind List.head?).map fun id => .yielded n [id]
  | .keep n, .number _ => (c.runs[n]?.bind List.head?).map fun id => .yielded n [id]
  | .command (.rest n), .numbers _ => c.runs[n]?.map (.yielded n)
  | .command (.dropRun n), .done => c.runs[n]?.map (.dropped n)
  | _, _ => none

/-- A session, and what was noted of the moves made so far. -/
structure Ledger where
  chains : Chains := {}
  /-- What was pushed on each list, newest first. -/
  pushed : Nat → List ObjectId := fun _ => []
  /-- The list that each run was made of. -/
  origin : Nat → Option Nat := fun _ => none
  /-- What each run has handed over, in order. -/
  yielded : Nat → List ObjectId := fun _ => []
  /-- What each run was dropped with. -/
  dropped : Nat → List ObjectId := fun _ => []

namespace Ledger

/-- Enters what is noted of a move that has led to `c`. -/
def enter (l : Ledger) (c : Chains) : Option Note → Ledger
  | none => { l with chains := c }
  | some (.pushed n id) =>
    { l with chains := c, pushed := Function.update l.pushed n (id :: l.pushed n) }
  | some (.closed n run) =>
    { l with chains := c, origin := Function.update l.origin run (some n) }
  | some (.yielded run ids) =>
    { l with chains := c, yielded := Function.update l.yielded run (l.yielded run ++ ids) }
  | some (.dropped run ids) =>
    { l with chains := c, dropped := Function.update l.dropped run (ids ++ l.dropped run) }

/-- Makes a move. One that names what there is not does nothing, and one that stops is not noted. -/
def step (l : Ledger) (m : Move) : Ledger :=
  match l.chains.move m with
  | .error _ => l
  | .ok o =>
    match o.result with
    | .error _ => { l with chains := o.state }
    | .ok answer => l.enter o.state (l.chains.note m answer)

/-- Makes moves in turn. -/
def run (l : Ledger) (moves : List Move) : Ledger := moves.foldl step l

end Ledger

/-- What a move may do to lists and runs, and what is noted of it. -/
inductive Effect (c : Chains) (lists : Array (Option (SealableList ObjectId)))
    (runs : Array (List ObjectId)) : Option Note → Prop
  | same (hlists : lists = c.lists) (hruns : runs = c.runs) : Effect c lists runs none
  | opened (hlists : lists = c.lists.push (some (.growing []))) (hruns : runs = c.runs) :
    Effect c lists runs none
  | pushed {n : Nat} {id : ObjectId} {entries : List ObjectId}
    (hn : c.lists[n]? = some (some (.growing entries)))
    (hlists : lists = c.lists.setIfInBounds n (some (.growing (id :: entries))))
    (hruns : runs = c.runs) : Effect c lists runs (some (.pushed n id))
  | closed {n : Nat} {entries : List ObjectId}
    (hn : c.lists[n]? = some (some (.growing entries)))
    (hlists : lists = c.lists.setIfInBounds n (some .closed))
    (hruns : runs = c.runs.push entries) : Effect c lists runs (some (.closed n c.runs.size))
  | discarded {n : Nat} {list : SealableList ObjectId} (hn : c.lists[n]? = some (some list))
    (hlists : lists = c.lists.setIfInBounds n none) (hruns : runs = c.runs) :
    Effect c lists runs none
  | yielded {n : Nat} {ids rest : List ObjectId} (hn : c.runs[n]? = some (ids ++ rest))
    (hlists : lists = c.lists) (hruns : runs = c.runs.setIfInBounds n rest) :
    Effect c lists runs (some (.yielded n ids))
  | dropped {n : Nat} {ids : List ObjectId} (hn : c.runs[n]? = some ids)
    (hlists : lists = c.lists) (hruns : runs = c.runs.setIfInBounds n []) :
    Effect c lists runs (some (.dropped n ids))

variable {c d : Chains} {m : Move} {o : Outcome Chains Answer} {n item : Nat} {id : ObjectId}

/-- What becomes of a move that can be made: it comes to its end, or a list was to be sealed a
second time and nothing has changed. -/
inductive Ends (c : Chains) (m : Move) (o : Outcome Chains Answer) : Prop
  | done (answer : Answer) (hresult : o.result = .ok answer) (hkept : o.state.Kept)
    (heffect : Effect c o.state.lists o.state.runs (c.note m answer))
  | stopped (n : Nat) (hm : m = .command (.close n)) (hn : c.lists[n]? = some (some .closed))
    (ho : o = .fail c .sealedTwice)

theorem Reaches.ends {answer : Answer} (hreaches : c.Reaches (c.move m) d answer)
    (hm : c.move m = .ok o) (heffect : Effect c d.lists d.runs (c.note m answer)) : Ends c m o := by
  obtain ⟨store, hmove, hkept, -⟩ := hreaches
  rw [hmove] at hm
  cases hm
  exact .done answer rfl hkept heffect

/-- A move that needs a list, a run or a held handle finds it. -/
theorem exists_of_bind_ok {α β : Type} {found : Except UnknownNumber α}
    {next : α → Except UnknownNumber β} {b : β} (hok : (found >>= next) = .ok b) :
    ∃ a, found = .ok a ∧ next a = .ok b := by
  cases found with
  | ok a => exact ⟨a, rfl, hok⟩
  | error unknown => cases hok

/-- A move that hands a handle to a list finds both. -/
theorem exists_of_pushed {β : Type} {b : β}
    {next : SealableList ObjectId → ObjectId → Except UnknownNumber β} (hok : (do
      let l ← c.listAt n
      match ← c.heldAt item with
      | none => throw (UnknownNumber.mk item)
      | some id => next l id) = .ok b) :
    ∃ l id, c.lists[n]? = some (some l) ∧ c.held[item]? = some (some id) ∧ next l id = .ok b := by
  obtain ⟨l, hl, hok⟩ := exists_of_bind_ok hok
  obtain ⟨h, hi, hok⟩ := exists_of_bind_ok hok
  cases h with
  | none => cases hok
  | some id => exact ⟨l, id, listAt_eq.mp hl, heldAt_eq.mp hi, hok⟩

namespace Kept

/-- A command comes to its end, or it is the second seal of a list. -/
theorem ends_command (hc : c.Kept) {command : Command} (hm : c.move (.command command) = .ok o) :
    Ends c (.command command) o := by
  cases command with
  | list =>
    refine hc.reaches_list.ends hm ?_
    exact .opened rfl rfl
  | object value =>
    refine (hc.reaches_object value).ends hm ?_
    exact .same rfl rfl
  | push n item =>
    obtain ⟨l, id, hn, hi, -⟩ := exists_of_pushed hm
    cases l with
    | growing entries =>
      refine (hc.reaches_push hn hi).ends hm ?_
      simp only [note, hi, Option.join_some, Option.map_some]
      exact .pushed hn rfl rfl
    | closed => exact (hc.reaches (.refl _) (hc.perform_push_closed hn hi)).ends hm (.same rfl rfl)
  | close n =>
    obtain ⟨l, hl, -⟩ := exists_of_bind_ok hm
    have hn := listAt_eq.mp hl
    cases l with
    | growing entries => exact (hc.reaches_close hn).ends hm (.closed hn rfl rfl)
    | closed =>
      have hstop : c.move (.command (.close n)) = .ok (.fail c .sealedTwice) :=
        perform_close_closed hn
      rw [hstop] at hm
      cases hm
      exact .stopped n rfl hn rfl
  | next n =>
    obtain ⟨entries, hr, -⟩ := exists_of_bind_ok hm
    have hn := runAt_eq.mp hr
    cases entries with
    | nil => exact (hc.reaches (.refl _) (perform_next_nil hn)).ends hm (.same rfl rfl)
    | cons id rest =>
      refine (hc.reaches_next hn).ends hm ?_
      have hsplit : c.runs[n]? = some ([id] ++ rest) := hn
      simp only [note, hn, Option.bind_some, List.head?_cons, Option.map_some]
      exact .yielded hsplit rfl rfl
  | rest n =>
    obtain ⟨entries, hr, -⟩ := exists_of_bind_ok hm
    have hn := runAt_eq.mp hr
    refine (hc.reaches_rest hn).ends hm ?_
    simp only [note, hn, Option.map_some]
    exact .yielded (by rwa [List.append_nil]) rfl rfl
  | isClosed n =>
    obtain ⟨l, hl, -⟩ := exists_of_bind_ok hm
    have hflag : c.move (.command (.isClosed n)) = .ok (.pure c (.flag l.isClosed)) := by
      simp only [move, perform, hl, Bind.bind, Except.bind]
      rfl
    exact (hc.reaches (.refl _) hflag).ends hm (.same rfl rfl)
  | dropList n =>
    obtain ⟨l, hl, -⟩ := exists_of_bind_ok hm
    have hn := listAt_eq.mp hl
    refine (hc.reaches_dropList hn).ends hm ?_
    exact .discarded hn rfl rfl
  | dropRun n =>
    obtain ⟨entries, hr, -⟩ := exists_of_bind_ok hm
    have hn := runAt_eq.mp hr
    refine (hc.reaches_dropRun hn).ends hm ?_
    simp only [note, hn, Option.map_some]
    exact .dropped hn rfl rfl
  | dropObject n =>
    obtain ⟨h, hh, -⟩ := exists_of_bind_ok hm
    refine (hc.reaches_dropObject (heldAt_eq.mp hh)).ends hm ?_
    exact .same rfl rfl
  | owners n =>
    obtain ⟨h, hh, -⟩ := exists_of_bind_ok hm
    have hcount : ∃ answer, c.move (.command (.owners n)) = .ok (.pure c answer) ∧
        c.note (.command (.owners n)) answer = none := by
      simp only [move, perform, hh, Bind.bind, Except.bind]
      cases c.store.ownersOf h with
      | none => exact ⟨.nothing, rfl, rfl⟩
      | some count => exact ⟨.number count, rfl, rfl⟩
    obtain ⟨answer, hanswer, hnote⟩ := hcount
    refine (hc.reaches (.refl _) hanswer).ends hm ?_
    rw [hnote]
    exact .same rfl rfl

/-- A move that can be made comes to its end, or it is the second seal of a list. -/
theorem ends (hc : c.Kept) (hm : c.move m = .ok o) : Ends c m o := by
  cases m with
  | command command => exact hc.ends_command hm
  | make value item =>
    obtain ⟨h, hh, -⟩ := exists_of_bind_ok hm
    exact (hc.reaches_make (heldAt_eq.mp hh) value).ends hm (.same rfl rfl)
  | copy item =>
    obtain ⟨h, hh, -⟩ := exists_of_bind_ok hm
    exact (hc.reaches_copy (heldAt_eq.mp hh)).ends hm (.same rfl rfl)
  | pass n item =>
    obtain ⟨l, id, hn, hi, -⟩ := exists_of_pushed hm
    cases l with
    | growing entries =>
      refine (hc.reaches_pass hn hi).ends hm ?_
      simp only [note, hi, Option.join_some, Option.map_some]
      exact .pushed hn rfl rfl
    | closed => exact (hc.reaches (.refl _) (move_pass_closed hn hi)).ends hm (.same rfl rfl)
  | keep n =>
    obtain ⟨entries, hr, -⟩ := exists_of_bind_ok hm
    have hn := runAt_eq.mp hr
    cases entries with
    | nil => exact (hc.reaches (.refl _) (move_keep_nil hn)).ends hm (.same rfl rfl)
    | cons id rest =>
      refine (hc.reaches_keep hn).ends hm ?_
      have hsplit : c.runs[n]? = some ([id] ++ rest) := hn
      simp only [note, hn, Option.bind_some, List.head?_cons, Option.map_some]
      exact .yielded hsplit rfl rfl

end Kept

section Agreement

variable {α : Type} {xs : Array α} {a b : α} {x : Option α} {k n r : Nat}
  {lists : Array (Option (SealableList ObjectId))} {runs : Array (List ObjectId)}
  {pushed yielded dropped : Nat → List ObjectId} {origin : Nat → Option Nat}
  {entries ids rest : List ObjectId}

/-- One entry takes the place of another. -/
theorem getElem?_set (hn : xs[n]? = some a) (b : α) (k : Nat) :
    (xs.setIfInBounds n b)[k]? = if k = n then some b else xs[k]? := by
  obtain ⟨hlt, -⟩ := Array.getElem?_eq_some_iff.mp hn
  rw [Array.getElem?_setIfInBounds, if_pos hlt]
  exact if_congr eq_comm rfl rfl

/-- What is not the entry that was put in was there before. -/
theorem getElem?_of_set (hn : xs[n]? = some a) (hk : (xs.setIfInBounds n b)[k]? = x)
    (hx : x ≠ some b) : k ≠ n ∧ xs[k]? = x := by
  rw [getElem?_set hn] at hk
  split at hk
  · exact absurd hk.symm hx
  · next hne => exact ⟨hne, hk⟩

/-- What is not the entry that was added was there before. -/
theorem getElem?_of_push (hk : (xs.push b)[k]? = x) (hx : x ≠ some b) :
    k ≠ xs.size ∧ xs[k]? = x := by
  rw [Array.getElem?_push] at hk
  split at hk
  · exact absurd hk.symm hx
  · next hne => exact ⟨hne, hk⟩

/-- What is noted of lists is what they are. -/
structure ListsAgree (lists : Array (Option (SealableList ObjectId)))
    (pushed : Nat → List ObjectId) (origin : Nat → Option Nat) : Prop where
  /-- An open list has what was pushed on it, and no run was made of it. -/
  growing : ∀ n entries, lists[n]? = some (some (.growing entries)) →
    pushed n = entries ∧ ∀ r, origin r ≠ some n
  /-- A run was made of a sealed list. -/
  closed : ∀ n, lists[n]? = some (some .closed) → ∃ r, origin r = some n
  unmade : ∀ n, lists[n]? = none → pushed n = [] ∧ ∀ r, origin r ≠ some n

/-- What is noted of runs is what they have. -/
structure RunsAgree (runs : Array (List ObjectId)) (pushed : Nat → List ObjectId)
    (origin : Nat → Option Nat) (yielded dropped : Nat → List ObjectId) : Prop where
  /-- A run has what was pushed on its list, but for what it has handed over or was dropped with. -/
  shares : ∀ r rest, runs[r]? = some rest →
    ∃ n, origin r = some n ∧ pushed n = yielded r ++ rest ++ dropped r
  unmade : ∀ r, runs[r]? = none → origin r = none ∧ yielded r = [] ∧ dropped r = []
  /-- No two runs were made of one list. -/
  once : ∀ r r' n, origin r = some n → origin r' = some n → r = r'

namespace ListsAgree

/-- A new list has nothing on it yet. -/
theorem add (h : ListsAgree lists pushed origin) :
    ListsAgree (lists.push (some (.growing []))) pushed origin where
  growing k entries hk := by
    rw [Array.getElem?_push] at hk
    split at hk
    · next heq =>
      cases hk
      exact h.unmade k (Array.getElem?_eq_none (Nat.le_of_eq heq.symm))
    · exact h.growing k entries hk
  closed k hk := h.closed k (getElem?_of_push hk nofun).2
  unmade k hk := h.unmade k (getElem?_of_push hk nofun).2

/-- An entry is added to an open list. -/
theorem push (h : ListsAgree lists pushed origin)
    (hn : lists[n]? = some (some (.growing entries))) (id : ObjectId) :
    ListsAgree (lists.setIfInBounds n (some (.growing (id :: entries))))
      (Function.update pushed n (id :: pushed n)) origin where
  growing k entries' hk := by
    rw [getElem?_set hn] at hk
    split at hk
    · next heq =>
      cases hk
      rw [heq, Function.update_self, (h.growing n entries hn).1]
      exact ⟨rfl, (h.growing n entries hn).2⟩
    · next hne =>
      rw [Function.update_of_ne hne]
      exact h.growing k entries' hk
  closed k hk := h.closed k (getElem?_of_set hn hk nofun).2
  unmade k hk := by
    obtain ⟨hne, hk⟩ := getElem?_of_set hn hk nofun
    rw [Function.update_of_ne hne]
    exact h.unmade k hk

/-- An open list is sealed, and a run is made of it. -/
theorem close (h : ListsAgree lists pushed origin)
    (hn : lists[n]? = some (some (.growing entries))) (hr : origin r = none) :
    ListsAgree (lists.setIfInBounds n (some .closed)) pushed
      (Function.update origin r (some n)) := by
  have hother {k : Nat} (hne : k ≠ n) (hk : ∀ r', origin r' ≠ some k) (r' : Nat) :
      Function.update origin r (some n) r' ≠ some k := by
    rw [Function.update_apply]
    split
    · exact fun heq => hne (Option.some.inj heq).symm
    · exact hk r'
  refine ⟨fun k entries' hk => ?_, fun k hk => ?_, fun k hk => ?_⟩
  · obtain ⟨hne, hk⟩ := getElem?_of_set hn hk nofun
    exact (h.growing k entries' hk).imp_right (hother hne)
  · rw [getElem?_set hn] at hk
    split at hk
    · next heq => exact ⟨r, by rw [Function.update_self, heq]⟩
    · obtain ⟨r', hr'⟩ := h.closed k hk
      have hne : r' ≠ r := fun heq => Option.some_ne_none k (hr'.symm.trans (heq ▸ hr))
      exact ⟨r', by rwa [Function.update_of_ne hne]⟩
  · obtain ⟨hne, hk⟩ := getElem?_of_set hn hk nofun
    exact (h.unmade k hk).imp_right (hother hne)

/-- A list is dropped. -/
theorem drop (h : ListsAgree lists pushed origin) {list : Option (SealableList ObjectId)}
    (hn : lists[n]? = some list) : ListsAgree (lists.setIfInBounds n none) pushed origin where
  growing k entries hk := h.growing k entries (getElem?_of_set hn hk nofun).2
  closed k hk := h.closed k (getElem?_of_set hn hk nofun).2
  unmade k hk := h.unmade k (getElem?_of_set hn hk nofun).2

end ListsAgree

namespace RunsAgree

/-- A list of which no run was made may take entries. -/
theorem push (h : RunsAgree runs pushed origin yielded dropped) (hn : ∀ r, origin r ≠ some n)
    (entries : List ObjectId) :
    RunsAgree runs (Function.update pushed n entries) origin yielded dropped where
  shares r rest hr := by
    obtain ⟨k, horigin, hshares⟩ := h.shares r rest hr
    have hne : k ≠ n := fun heq => hn r (heq ▸ horigin)
    exact ⟨k, horigin, by rw [Function.update_of_ne hne, hshares]⟩
  unmade := h.unmade
  once := h.once

/-- A run is made of a list that was open. -/
theorem start (h : RunsAgree runs pushed origin yielded dropped) (hn : ∀ r, origin r ≠ some n) :
    RunsAgree (runs.push (pushed n)) pushed (Function.update origin runs.size (some n)) yielded
      dropped where
  shares r rest hr := by
    rw [Array.getElem?_push] at hr
    split at hr
    · next heq =>
      obtain ⟨-, hyielded, hdropped⟩ :=
        h.unmade runs.size (Array.getElem?_eq_none (Nat.le_refl _))
      cases hr
      refine ⟨n, by rw [heq, Function.update_self], ?_⟩
      rw [heq, hyielded, hdropped, List.nil_append, List.append_nil]
    · next hne =>
      rw [Function.update_of_ne hne]
      exact h.shares r rest hr
  unmade r hr := by
    obtain ⟨hne, hr⟩ := getElem?_of_push hr nofun
    rw [Function.update_of_ne hne]
    exact h.unmade r hr
  once r r' k hr hr' := by
    rw [Function.update_apply] at hr hr'
    split at hr <;> split at hr'
    · next heq heq' => rw [heq, heq']
    · exact absurd (hr'.trans hr.symm) (hn r')
    · exact absurd (hr.trans hr'.symm) (hn r)
    · exact h.once r r' k hr hr'

/-- A run hands over some of its entries. -/
theorem yield (h : RunsAgree runs pushed origin yielded dropped)
    (hr : runs[r]? = some (ids ++ rest)) : RunsAgree (runs.setIfInBounds r rest) pushed origin
      (Function.update yielded r (yielded r ++ ids)) dropped where
  shares r' rest' hr' := by
    rw [getElem?_set hr] at hr'
    split at hr'
    · next heq =>
      obtain ⟨n, horigin, hshares⟩ := h.shares r _ hr
      cases hr'
      refine ⟨n, heq ▸ horigin, ?_⟩
      rw [heq, Function.update_self, hshares, ← List.append_assoc (yielded r)]
    · next hne =>
      rw [Function.update_of_ne hne]
      exact h.shares r' rest' hr'
  unmade r' hr' := by
    obtain ⟨hne, hr'⟩ := getElem?_of_set hr hr' nofun
    rw [Function.update_of_ne hne]
    exact h.unmade r' hr'
  once := h.once

/-- A run is dropped with what is left of it. -/
theorem drop (h : RunsAgree runs pushed origin yielded dropped) (hr : runs[r]? = some rest) :
    RunsAgree (runs.setIfInBounds r []) pushed origin yielded
      (Function.update dropped r (rest ++ dropped r)) where
  shares r' rest' hr' := by
    rw [getElem?_set hr] at hr'
    split at hr'
    · next heq =>
      obtain ⟨n, horigin, hshares⟩ := h.shares r _ hr
      cases hr'
      refine ⟨n, heq ▸ horigin, ?_⟩
      rw [heq, Function.update_self, hshares, List.append_nil, List.append_assoc]
    · next hne =>
      rw [Function.update_of_ne hne]
      exact h.shares r' rest' hr'
  unmade r' hr' := by
    obtain ⟨hne, hr'⟩ := getElem?_of_set hr hr' nofun
    rw [Function.update_of_ne hne]
    exact h.unmade r' hr'
  once := h.once

end RunsAgree

end Agreement

namespace Ledger

variable {l : Ledger}

/-- Owner counts say what references there are, and what is noted of lists and runs is what they
have. -/
structure Balanced (l : Ledger) : Prop where
  kept : l.chains.Kept
  lists : ListsAgree l.chains.lists l.pushed l.origin
  runs : RunsAgree l.chains.runs l.pushed l.origin l.yielded l.dropped

theorem balanced_empty : Balanced {} where
  kept := kept_empty
  lists := ⟨nofun, nofun, fun _ _ => ⟨rfl, nofun⟩⟩
  runs := ⟨nofun, fun _ _ => ⟨rfl, rfl, rfl⟩, nofun⟩

namespace Balanced

theorem enter (hl : l.Balanced) {note : Option Note} (hkept : d.Kept)
    (heffect : Effect l.chains d.lists d.runs note) : (l.enter d note).Balanced := by
  cases heffect with
  | same hlists hruns => exact ⟨hkept, hlists ▸ hl.lists, hruns ▸ hl.runs⟩
  | opened hlists hruns => exact ⟨hkept, hlists ▸ hl.lists.add, hruns ▸ hl.runs⟩
  | pushed hn hlists hruns =>
    exact ⟨hkept, hlists ▸ hl.lists.push hn _, hruns ▸ hl.runs.push (hl.lists.growing _ _ hn).2 _⟩
  | closed hn hlists hruns =>
    obtain ⟨hpushed, hopen⟩ := hl.lists.growing _ _ hn
    obtain ⟨hunmade, -⟩ := hl.runs.unmade _ (Array.getElem?_eq_none (Nat.le_refl _))
    exact ⟨hkept, hlists ▸ hl.lists.close hn hunmade, hruns ▸ hpushed ▸ hl.runs.start hopen⟩
  | discarded hn hlists hruns => exact ⟨hkept, hlists ▸ hl.lists.drop hn, hruns ▸ hl.runs⟩
  | yielded hn hlists hruns => exact ⟨hkept, hlists ▸ hl.lists, hruns ▸ hl.runs.yield hn⟩
  | dropped hn hlists hruns => exact ⟨hkept, hlists ▸ hl.lists, hruns ▸ hl.runs.drop hn⟩

/-- Every move keeps the balance. -/
theorem step (hl : l.Balanced) (m : Move) : (l.step m).Balanced := by
  unfold Ledger.step
  split
  · exact hl
  · next o hm =>
    cases hl.kept.ends hm with
    | done answer hresult hkept heffect =>
      rw [hresult]
      exact hl.enter hkept heffect
    | stopped n _ hn ho =>
      rw [ho]
      exact ⟨hl.kept, hl.lists, hl.runs⟩

theorem run (hl : l.Balanced) (moves : List Move) : (l.run moves).Balanced := by
  induction moves generalizing l with
  | nil => exact hl
  | cons m moves ih => exact ih (hl.step m)

end Balanced

end Ledger

/-- A move gives up a reference for each of `ids`, and what the objects that it destroys own. What
it leaves besides is what `d` says. -/
def Releases (c : Chains) (result : Except UnknownNumber (Outcome Chains Answer)) (d : Chains)
    (answer : Answer) (ids : List ObjectId) : Prop :=
  ∃ store, result = .ok (.pure { d with store } answer) ∧ ({ d with store } : Chains).Kept ∧
    c.store.Grows store ∧ ∀ id,
      (store.object id).owners.owners + ids.count id + c.store.children.count (some id) =
        (c.store.object id).owners.owners + store.children.count (some id)

/-- The handles that are gone after a move were given up. -/
theorem Reaches.releases {result : Except UnknownNumber (Outcome Chains Answer)} {answer : Answer}
    {ids : List ObjectId} (hreaches : c.Reaches result d answer) (hc : c.Kept)
    (hperm : c.handles.Perm (ids.map some ++ d.handles)) : c.Releases result d answer ids := by
  obtain ⟨store, hresult, hkept, hgrows⟩ := hreaches
  refine ⟨store, hresult, hkept, hgrows, fun id => ?_⟩
  have hbefore := hc.owners id
  have hafter : (store.object id).owners.owners = ((d.handles ++ store.children).count (some id) :
    Nat) := hkept.owners id
  have hids : (ids.map some).count (some id) = ids.count id :=
    List.count_map_of_injective ids some (fun _ _ h => Option.some.inj h) id
  rw [List.count_append, hperm.count_eq, List.count_append, hids] at hbefore
  rw [List.count_append] at hafter
  omega

/-- Lists and runs lose nothing and have nothing twice. -/
structure Ledger.KeepsCustody (l : Ledger) : Prop where
  /-- Owner counts say how many references there are. -/
  owners : ∀ id, (l.chains.store.object id).owners.owners = l.chains.references id
  live : ∀ id, id < l.chains.store.objects.size →
    ((l.chains.store.object id).live = true ↔ 0 < l.chains.references id)
  /-- An object is destroyed when nothing refers to it any more, and only once. -/
  destroyed : ∀ id, id ∈ l.chains.store.journal.toList ↔
    id < l.chains.store.objects.size ∧ l.chains.references id = 0
  once : l.chains.store.journal.toList.Nodup
  /-- An open list has what was pushed on it, and a list is sealed when a run was made of it. -/
  lists : ListsAgree l.chains.lists l.pushed l.origin
  /-- What a run has handed over, what is left of it and what it was dropped with is what its list
  was pushed, newest first. A list has one run. -/
  runs : RunsAgree l.chains.runs l.pushed l.origin l.yielded l.dropped
  /-- An open list takes what is pushed on it. -/
  push : ∀ n item id entries, l.chains.lists[n]? = some (some (.growing entries)) →
    l.chains.held[item]? = some (some id) →
    l.chains.Reaches (l.chains.move (.command (.push n item)))
      { l.chains with
        lists := l.chains.lists.setIfInBounds n (some (.growing (id :: entries))) } .pushed ∧
    l.chains.Reaches (l.chains.move (.pass n item))
      { l.chains with
        lists := l.chains.lists.setIfInBounds n (some (.growing (id :: entries)))
        held := l.chains.held.setIfInBounds item none } .pushed
  /-- A sealed list hands it back, and nothing has changed. -/
  refuse : ∀ n item id, l.chains.lists[n]? = some (some .closed) →
    l.chains.held[item]? = some (some id) → ∀ m ∈ [.command (.push n item), .pass n item],
      l.chains.move m = .ok (.pure l.chains (.refused (l.chains.store.object id).value))
  /-- The first seal makes a run of all that was pushed. -/
  close : ∀ n entries, l.chains.lists[n]? = some (some (.growing entries)) →
    l.chains.move (.command (.close n)) = .ok (.pure { l.chains with
      lists := l.chains.lists.setIfInBounds n (some .closed)
      runs := l.chains.runs.push (l.pushed n) } (.number l.chains.runs.size))
  /-- The second one stops, and leaves all lists and runs as they are. -/
  closeAgain : ∀ n, l.chains.lists[n]? = some (some .closed) →
    l.chains.move (.command (.close n)) = .ok (.fail l.chains .sealedTwice)
  /-- A run hands over its entries in order. -/
  next : ∀ r id rest, l.chains.runs[r]? = some (id :: rest) →
    l.chains.Releases (l.chains.move (.command (.next r)))
      { l.chains with runs := l.chains.runs.setIfInBounds r rest }
      (.number (l.chains.store.object id).value) [id] ∧
    l.chains.Reaches (l.chains.move (.keep r))
      { l.chains with
        runs := l.chains.runs.setIfInBounds r rest
        held := l.chains.held.push (some id) } (.number l.chains.held.size)
  /-- A run of which nothing is left hands over nothing. -/
  nothing : ∀ r, l.chains.runs[r]? = some [] → ∀ m ∈ [.command (.next r), .keep r],
    l.chains.move m = .ok (.pure l.chains .nothing)
  /-- What is handed over in one go is all that is left, and so is what a run is dropped with. -/
  rest : ∀ r entries, l.chains.runs[r]? = some entries →
    l.chains.Releases (l.chains.move (.command (.rest r)))
      { l.chains with runs := l.chains.runs.setIfInBounds r [] }
      (.numbers (entries.map fun id => (l.chains.store.object id).value)) entries ∧
    l.chains.Releases (l.chains.move (.command (.dropRun r)))
      { l.chains with runs := l.chains.runs.setIfInBounds r [] } .done entries
  /-- A list is dropped with what is on it. -/
  dropList : ∀ n list, l.chains.lists[n]? = some (some list) →
    l.chains.Releases (l.chains.move (.command (.dropList n)))
      { l.chains with lists := l.chains.lists.setIfInBounds n none } .done list.entries
  /-- Nothing but a second seal stops. -/
  stops : ∀ m o fault, l.chains.move m = .ok o → o.result = .error fault →
    (∃ n, m = .command (.close n) ∧ l.chains.lists[n]? = some (some .closed)) ∧
      fault = .sealedTwice ∧ o.state = l.chains

theorem Ledger.Balanced.keepsCustody {l : Ledger} (hl : l.Balanced) : l.KeepsCustody := by
  have hc := hl.kept
  have hlive (id : ObjectId) (hid : id < l.chains.store.objects.size) :
      (l.chains.store.object id).live = true ↔ 0 < l.chains.references id := by
    rw [hc.live id hid, references_eq, List.count_pos_iff]
  constructor
  case owners => exact fun id => by rw [hc.owners id, references_eq]
  case live => exact hlive
  case destroyed =>
    intro id
    rw [hc.destroyed id]
    refine and_congr_right fun hid => ?_
    rw [← Bool.not_eq_true, hlive id hid, Nat.pos_iff_ne_zero, not_not]
  case once => exact hc.once
  case lists => exact hl.lists
  case runs => exact hl.runs
  case push => exact fun n item id entries hn hi => ⟨hc.reaches_push hn hi, hc.reaches_pass hn hi⟩
  case refuse =>
    intro n item id hn hi m hm
    obtain rfl | rfl := List.mem_pair.mp hm
    · exact hc.perform_push_closed hn hi
    · exact move_pass_closed hn hi
  case close =>
    intro n entries hn
    rw [(hl.lists.growing n entries hn).1]
    exact perform_close_growing hn
  case closeAgain => exact fun n hn => perform_close_closed hn
  case next =>
    exact fun r id rest hr => ⟨(hc.reaches_next hr).releases hc (perm_next hr), hc.reaches_keep hr⟩
  case nothing =>
    intro r hr m hm
    obtain rfl | rfl := List.mem_pair.mp hm
    · exact perform_next_nil hr
    · exact move_keep_nil hr
  case rest =>
    exact fun r entries hr => ⟨(hc.reaches_rest hr).releases hc (perm_run hr []),
      (hc.reaches_dropRun hr).releases hc (perm_run hr [])⟩
  case dropList => exact fun n list hn => (hc.reaches_dropList hn).releases hc (perm_list hn none)
  case stops =>
    intro m o fault hm hfault
    cases hc.ends hm with
    | done answer hresult _ _ =>
      rw [hresult] at hfault
      cases hfault
    | stopped n hm hn ho =>
      rw [ho] at hfault ⊢
      cases hfault
      exact ⟨⟨n, hm, hn⟩, rfl, rfl⟩

/-- Whatever is done with any number of lists, runs and objects, in any order: lists and runs lose
nothing and have nothing twice. -/
theorem Ledger.keepsCustody_run (moves : List Move) : (({} : Ledger).run moves).KeepsCustody :=
  (balanced_empty.run moves).keepsCustody

/-- A push and a seal that come after the seal of a list are in vain, and the run that was made of
the list is dropped halfway. -/
theorem Ledger.keepsCustody_run_droppedHalfway :
    let l := ({} : Ledger).run [.command .list, .command (.object 7), .command (.object 8),
      .command (.push 0 0), .pass 0 1, .command (.push 0 0), .command (.close 0), .keep 0,
      .command (.push 0 0), .command (.close 0), .command (.dropRun 0)]
    l.KeepsCustody ∧ l.pushed 0 = [0, 1, 0] ∧ l.chains.lists = #[some .closed] ∧
      l.chains.runs = #[[]] ∧ l.yielded 0 = [0] ∧ l.dropped 0 = [1, 0] ∧
      l.chains.references 0 = 2 ∧ l.chains.store.journal = #[1] :=
  ⟨Ledger.keepsCustody_run _, by decide +kernel⟩

end Chains

end HazardFlow.Ownership
