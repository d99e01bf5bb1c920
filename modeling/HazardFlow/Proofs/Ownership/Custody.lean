import HazardFlow.Ownership.Chains
import HazardFlow.Proofs.Ownership.References
import Mathlib.Data.List.Count

/-!
# Custody of handles

With lists that can be sealed and the runs made of them, every reference is in one place: it is
held, owned by an object, an entry of a list that is open, or not yet handed over by a run. Every
move takes it from one place to another, adds one, or gives it up, so that owner counts stay right.
-/

namespace HazardFlow

/-- An entry of a list is replaced, and what all entries have changes by the difference. -/
theorem perm_flatMap_set {α β : Type} {l : List α} {k : Nat} {a : α} (f : α → List β)
    (hk : l[k]? = some a) (b : α) : (f b ++ l.flatMap f).Perm (f a ++ (l.set k b).flatMap f) := by
  obtain ⟨others, hbefore, hafter⟩ := exists_flatMap_set f hk
  have hswap : (f b ++ l.flatMap f).Perm (f a ++ (f b ++ others)) :=
    (hbefore.append_left _).trans (List.perm_append_comm_assoc ..)
  exact hswap.trans ((hafter b).symm.append_left _)

namespace Store

variable {s : Store} {id : ObjectId}

theorem setOwners_setOwners (count count' : OwnerCount) :
    (s.setOwners id count).setOwners id count' = s.setOwners id count' := by
  unfold setOwners
  congr 1
  refine Array.ext_getElem? fun j => ?_
  simp only [Array.getElem?_modify]
  split
  · rw [Option.map_map]
    rfl
  · rfl

theorem setOwners_self (hid : id < s.objects.size) :
    s.setOwners id (s.object id).owners = s := by
  unfold setOwners object
  congr 1
  refine Array.ext_getElem? fun j => ?_
  rw [Array.getElem?_modify]
  split
  · next heq =>
    subst heq
    rw [Array.getElem?_eq_getElem hid]
    rfl
  · rfl

/-- A reference that is added to an object that has one already can be given up again, and nothing
has changed. -/
theorem acquire_releaseObject (hpos : 0 < (s.object id).owners.owners) :
    s.acquire (some id) = .pure (s.setOwners id ⟨(s.object id).owners.owners + 1⟩) () ∧
      (s.setOwners id ⟨(s.object id).owners.owners + 1⟩).releaseObject id = .pure s () := by
  have hid : id < s.objects.size := by
    by_contra hge
    unfold object at hpos
    rw [Array.getD_eq_getD_getElem?, Array.getElem?_eq_none (Nat.le_of_not_lt hge)] at hpos
    exact Int.lt_irrefl 0 hpos
  have howners : ((s.setOwners id ⟨(s.object id).owners.owners + 1⟩).object id).owners =
      ⟨(s.object id).owners.owners + 1⟩ := by
    rw [object_setOwners hid, if_pos rfl]
  -- The reference given up is not the last one, so the object is not destroyed.
  have hnot : ((s.object id).owners.owners + 1 == 1) = false :=
    beq_eq_false_iff_ne.mpr (by omega)
  constructor
  · unfold acquire OwnerCount.acquire
    dsimp only
    rw [if_pos (by omega)]
    rfl
  · rw [releaseObject, howners]
    unfold OwnerCount.release
    dsimp only
    rw [if_pos (by omega), hnot, Int.add_sub_cancel]
    dsimp only [Outcome.pure, Outcome.lift]
    rw [setOwners_setOwners, setOwners_self hid]

end Store

namespace Ownership.Chains

/-- What may be done with held handles, lists and runs. A held handle may be pushed as it is, and
what a run hands over may be held on to. -/
inductive Move where
  | command (command : Command)
  /-- A new object, which takes over a held handle. -/
  | make (value child : Nat)
  /-- Copies a held handle. -/
  | copy (item : Nat)
  /-- Pushes a held handle itself; a sealed list hands it back. -/
  | pass (list item : Nat)
  /-- Takes the next entry of a run and holds it. -/
  | keep (run : Nat)
  deriving DecidableEq, Repr

/-- Makes a move. -/
def move (c : Chains) : Move → Except UnknownNumber (Outcome Chains Answer)
  | .command command => c.perform command
  | .make value child => do
    let h ← c.heldAt child
    let c := { c with held := c.held.setIfInBounds child none }
    pure <| ((c.store.create value (some h)).lift fun store => { c with store }).bind fun c id =>
      .pure { c with held := c.held.push (some id) } (.number c.held.size)
  | .copy item => do
    let h ← c.heldAt item
    pure <| ((c.store.acquire h).lift fun store => { c with store }).bind fun c _ =>
      .pure { c with held := c.held.push h } (.number c.held.size)
  | .pass n item => do
    let l ← c.listAt n
    match ← c.heldAt item with
    | none => throw ⟨item⟩
    | some id =>
      match l.push id with
      | some l => pure <| .pure { c with
          lists := c.lists.setIfInBounds n (some l)
          held := c.held.setIfInBounds item none } .pushed
      | none => pure (.pure c (.refused (c.store.object id).value))
  | .keep n => do
    match ← c.runAt n with
    | [] => pure (.pure c .nothing)
    | id :: rest => pure <| .pure { c with
        runs := c.runs.setIfInBounds n rest
        held := c.held.push (some id) } (.number c.held.size)

/-- The entries of open lists. -/
def listed (c : Chains) : List ObjectId :=
  c.lists.toList.flatMap fun l => (l.map SealableList.entries).getD []

/-- What runs have not yet handed over. -/
def unyielded (c : Chains) : List ObjectId := c.runs.toList.flatten

/-- All handles but those that objects own. -/
def handles (c : Chains) : List Handle :=
  c.held.toList ++ (c.listed.map some ++ c.unyielded.map some)

/-- The references that there are to an object: those held, by anyone or by objects, the entries of
open lists, and what runs have not yet handed over. -/
def references (c : Chains) (id : ObjectId) : Nat :=
  (c.held.toList ++ c.store.children).count (some id) + c.listed.count id + c.unyielded.count id

theorem references_eq (c : Chains) (id : ObjectId) :
    c.references id = (c.handles ++ c.store.children).count (some id) := by
  unfold references handles
  have hcount (l : List ObjectId) : (l.map some).count (some id) = l.count id :=
    List.count_map_of_injective l some (fun _ _ h => Option.some.inj h) id
  simp only [List.count_append, hcount]
  omega

variable {c d : Chains} {n item : Nat} {id : ObjectId}

theorem heldAt_eq {h : Handle} : c.heldAt item = .ok h ↔ c.held[item]? = some h := by
  unfold heldAt
  cases c.held[item]? <;> simp

theorem listAt_eq {l : SealableList ObjectId} :
    c.listAt n = .ok l ↔ c.lists[n]? = some (some l) := by
  unfold listAt
  split
  · next heq => rw [heq]; simp
  · next hnot =>
    constructor
    · exact nofun
    · exact fun heq => absurd heq (hnot l)

theorem runAt_eq {entries : List ObjectId} :
    c.runAt n = .ok entries ↔ c.runs[n]? = some entries := by
  unfold runAt
  cases c.runs[n]? <;> simp

/-- A handle is held besides the others. -/
theorem perm_hold (c : Chains) (h : Handle) :
    ({ c with held := c.held.push h } : Chains).handles.Perm (h :: c.handles) := by
  unfold handles
  rw [Array.toList_push, List.append_assoc]
  exact List.perm_middle

/-- A run is made besides the others. -/
theorem perm_start (c : Chains) (entries : List ObjectId) :
    ({ c with runs := c.runs.push entries } : Chains).handles.Perm
      (entries.map some ++ c.handles) := by
  refine List.perm_iff_count.mpr fun h => ?_
  unfold handles unyielded listed
  rw [Array.toList_push, List.flatten_append, List.flatten_singleton, List.map_append]
  simp only [List.count_append]
  omega

/-- A new list has no entry. -/
theorem handles_open (c : Chains) :
    ({ c with lists := c.lists.push (some (.growing [])) } : Chains).handles = c.handles := by
  unfold handles listed unyielded
  rw [Array.toList_push, List.flatMap_append, List.flatMap_singleton]
  simp

/-- Another handle takes the place of one that is held. -/
theorem perm_held {h : Handle} (hn : c.held[item]? = some h) (h' : Handle) :
    (h' :: c.handles).Perm
      (h :: ({ c with held := c.held.setIfInBounds item h' } : Chains).handles) := by
  rw [← Array.getElem?_toList] at hn
  have hheld := perm_flatMap_set (fun h : Handle => [h]) hn h'
  rw [List.flatMap_singleton', List.flatMap_singleton', ← Array.toList_setIfInBounds] at hheld
  exact hheld.append_right (c.listed.map some ++ c.unyielded.map some)

/-- Another list takes the place of one that was not dropped. -/
theorem perm_list {l : SealableList ObjectId} (hn : c.lists[n]? = some (some l))
    (l' : Option (SealableList ObjectId)) :
    (((l'.map SealableList.entries).getD []).map some ++ c.handles).Perm
      (l.entries.map some ++
        ({ c with lists := c.lists.setIfInBounds n l' } : Chains).handles) := by
  rw [← Array.getElem?_toList] at hn
  have hlists := (perm_flatMap_set
    (fun l : Option (SealableList ObjectId) => (l.map SealableList.entries).getD []) hn l').map some
  rw [List.map_append, List.map_append, ← Array.toList_setIfInBounds] at hlists
  refine List.perm_iff_count.mpr fun h => ?_
  have hcount := hlists.count_eq h
  unfold handles listed unyielded
  simp only [Option.map_some, Option.getD_some, List.count_append] at hcount ⊢
  omega

/-- An entry is added to a list that is open. -/
theorem perm_push {entries : List ObjectId} (hn : c.lists[n]? = some (some (.growing entries)))
    (id : ObjectId) : (some id :: c.handles).Perm ({ c with
      lists := c.lists.setIfInBounds n (some (.growing (id :: entries))) } : Chains).handles :=
  (List.perm_append_left_iff (entries.map some)).mp
    (List.perm_middle.trans (perm_list hn (some (.growing (id :: entries)))))

/-- Other entries take the place of what a run has not handed over. -/
theorem perm_run {entries : List ObjectId} (hn : c.runs[n]? = some entries)
    (entries' : List ObjectId) :
    (entries'.map some ++ c.handles).Perm (entries.map some ++
      ({ c with runs := c.runs.setIfInBounds n entries' } : Chains).handles) := by
  rw [← Array.getElem?_toList] at hn
  have hruns := (perm_flatMap_set (fun l : List ObjectId => l) hn entries').map some
  rw [List.flatMap_id', List.flatMap_id', List.map_append, List.map_append,
    ← Array.toList_setIfInBounds] at hruns
  refine List.perm_iff_count.mpr fun h => ?_
  have hcount := hruns.count_eq h
  unfold handles listed unyielded
  simp only [List.count_append] at hcount ⊢
  omega

/-- An entry is taken from a run. -/
theorem perm_next {rest : List ObjectId} (hn : c.runs[n]? = some (id :: rest)) : c.handles.Perm
    (some id :: ({ c with runs := c.runs.setIfInBounds n rest } : Chains).handles) :=
  (List.perm_append_left_iff (rest.map some)).mp
    ((perm_run hn rest).trans List.perm_middle.symm)

/-- A list that was sealed leaves a held handle where it is. -/
theorem move_pass_closed (hn : c.lists[n]? = some (some .closed))
    (hi : c.held[item]? = some (some id)) :
    c.move (.pass n item) = .ok (.pure c (.refused (c.store.object id).value)) := by
  simp only [move, listAt_eq.mpr hn, heldAt_eq.mpr hi, Bind.bind, Except.bind]
  rfl

/-- What was pushed becomes a run. -/
theorem perform_close_growing {entries : List ObjectId}
    (hn : c.lists[n]? = some (some (.growing entries))) :
    c.perform (.close n) = .ok (.pure { c with
      lists := c.lists.setIfInBounds n (some .closed)
      runs := c.runs.push entries } (.number c.runs.size)) := by
  simp only [perform, listAt_eq.mpr hn, Bind.bind, Except.bind]
  rfl

/-- A list that was sealed stays so, and so do all runs. -/
theorem perform_close_closed (hn : c.lists[n]? = some (some .closed)) :
    c.perform (.close n) = .ok (.fail c .sealedTwice) := by
  have hsame : c.lists.setIfInBounds n (some .closed) = c.lists := by
    obtain ⟨hlt, heq⟩ := Array.getElem?_eq_some_iff.mp hn
    rw [Array.setIfInBounds, dif_pos hlt, ← heq, Array.set_getElem_self]
  have hclose : c.perform (.close n) =
      .ok (.fail { c with lists := c.lists.setIfInBounds n (some .closed) } .sealedTwice) := by
    simp only [perform, listAt_eq.mpr hn, Bind.bind, Except.bind]
    rfl
  rw [hclose, hsame]

/-- Nothing is left of a run. -/
theorem perform_next_nil (hn : c.runs[n]? = some []) :
    c.perform (.next n) = .ok (.pure c .nothing) := by
  simp only [perform, runAt_eq.mpr hn, Bind.bind, Except.bind]
  rfl

theorem move_keep_nil (hn : c.runs[n]? = some []) : c.move (.keep n) = .ok (.pure c .nothing) := by
  simp only [move, runAt_eq.mpr hn, Bind.bind, Except.bind]
  rfl

/-- Owner counts say what references there are. -/
def Kept (c : Chains) : Prop := c.store.Owned c.handles

/-- A move comes to its end. It leaves what `d` says, and a store in which owner counts say what
references there are then. -/
def Reaches (c : Chains) (result : Except UnknownNumber (Outcome Chains Answer)) (d : Chains)
    (answer : Answer) : Prop :=
  ∃ store, result = .ok (.pure { d with store } answer) ∧ ({ d with store } : Chains).Kept ∧
    c.store.Grows store

/-- A session in which nothing was done yet. -/
theorem kept_empty : Kept {} where
  owners _ := rfl
  live _ hid := absurd hid (Nat.not_lt_zero _)
  destroyed _ := iff_of_false List.not_mem_nil fun hid => Nat.not_lt_zero _ hid.1
  once := List.nodup_nil
  older _ _ hchild := by cases hchild
  parentsFirst := List.Pairwise.nil

namespace Kept

/-- Handles that move from one place to another are still the same. -/
theorem of_perm (hc : c.Kept) (hperm : c.handles.Perm d.handles) :
    ({ d with store := c.store } : Chains).Kept := Store.Owned.of_perm hc hperm

/-- What a move comes to that needs no store. -/
theorem reaches (hc : c.Kept) (hperm : c.handles.Perm d.handles)
    {result : Except UnknownNumber (Outcome Chains Answer)} {answer : Answer}
    (hresult : result = .ok (.pure { d with store := c.store } answer)) :
    c.Reaches result d answer := ⟨c.store, hresult, hc.of_perm hperm, .refl _⟩

/-- References are given up in turn. -/
theorem exists_giveUp {ids : List ObjectId} (hc : c.Kept)
    (hperm : c.handles.Perm (ids.map some ++ d.handles)) (hstore : d.store = c.store) :
    ∃ store, d.giveUp ids = .pure { d with store } () ∧
      ({ d with store } : Chains).Kept ∧ c.store.Grows store := by
  have hall (s : Store) (held : List Handle) (ids : List ObjectId)
      (h : s.Owned (ids.map some ++ held)) :
      ∃ t, s.releaseAll (ids.map some) = .pure t () ∧ t.Owned held ∧ s.Grows t := by
    induction ids generalizing s with
    | nil => exact ⟨s, rfl, h, .refl s⟩
    | cons id rest ih =>
      obtain ⟨t, hrelease, howned, hgrows⟩ := Store.Owned.release h
      obtain ⟨u, hrest, howned', hgrows'⟩ := ih t howned
      refine ⟨u, ?_, howned', hgrows.trans hgrows'⟩
      rw [List.map_cons, Store.releaseAll, hrelease, Outcome.bind_pure, hrest]
  obtain ⟨store, hrelease, howned, hgrows⟩ :=
    hall c.store d.handles ids (Store.Owned.of_perm hc hperm)
  exact ⟨store, by rw [giveUp, hstore, hrelease, Outcome.lift_pure], howned, hgrows⟩

/-- A held handle is one of those that there are. -/
theorem mem_held {h : Handle} (hi : c.held[item]? = some h) :
    h ∈ c.handles ++ c.store.children := by
  rw [← Array.getElem?_toList] at hi
  exact List.mem_append_left _ (List.mem_append_left _ (List.mem_of_getElem? hi))

theorem reaches_list (hc : c.Kept) : c.Reaches (c.perform .list)
    { c with lists := c.lists.push (some (.growing [])) } (.number c.lists.size) :=
  hc.reaches (.of_eq (handles_open c).symm) rfl

/-- The handle of a new object is held. -/
theorem reaches_object (hc : c.Kept) (value : Nat) : c.Reaches (c.perform (.object value))
    { c with held := c.held.push (some c.store.objects.size) } (.number c.held.size) := by
  have hnone : c.store.Owned (Option.join (none : Option Handle) :: c.handles) := hc.none_cons
  obtain ⟨store, hcreate, howned, hgrows⟩ := Store.Owned.create hnone value
  refine ⟨store, ?_, howned.of_perm (perm_hold c _).symm, hgrows⟩
  simp only [perform, hcreate]
  rfl

/-- A new object takes over a handle that was held. -/
theorem reaches_make (hc : c.Kept) {h : Handle} (hi : c.held[item]? = some h) (value : Nat) :
    c.Reaches (c.move (.make value item))
      { c with held := (c.held.setIfInBounds item none).push (some c.store.objects.size) }
      (.number c.held.size) := by
  have howned : c.store.Owned (Option.join (some h) ::
      ({ c with held := c.held.setIfInBounds item none } : Chains).handles) :=
    hc.none_cons.of_perm (perm_held hi none)
  obtain ⟨store, hcreate, howned, hgrows⟩ := Store.Owned.create howned value
  refine ⟨store, ?_, howned.of_perm (perm_hold _ _).symm, hgrows⟩
  simp only [move, heldAt_eq.mpr hi, Bind.bind, Except.bind, hcreate, Outcome.lift_pure,
    Outcome.bind_pure, Array.size_setIfInBounds]
  rfl

theorem reaches_copy (hc : c.Kept) {h : Handle} (hi : c.held[item]? = some h) :
    c.Reaches (c.move (.copy item)) { c with held := c.held.push h } (.number c.held.size) := by
  obtain ⟨store, hacquire, howned, hgrows⟩ := hc.acquireHandle (mem_held hi)
  refine ⟨store, ?_, howned.of_perm (perm_hold c h).symm, hgrows⟩
  simp only [move, heldAt_eq.mpr hi, Bind.bind, Except.bind, hacquire]
  rfl

/-- A held handle is given up, if it was not yet. -/
theorem reaches_dropObject (hc : c.Kept) {h : Handle} (hi : c.held[item]? = some h) :
    c.Reaches (c.perform (.dropObject item)) { c with held := c.held.setIfInBounds item none }
      .done := by
  have howned : c.store.Owned
      (h :: ({ c with held := c.held.setIfInBounds item none } : Chains).handles) :=
    hc.none_cons.of_perm (perm_held hi none)
  obtain ⟨store, hrelease, howned, hgrows⟩ := howned.release
  refine ⟨store, ?_, howned, hgrows⟩
  simp only [perform, heldAt_eq.mpr hi, Bind.bind, Except.bind, hrelease]
  rfl

/-- A list that is open takes a copy of a held handle. -/
theorem reaches_push (hc : c.Kept) {entries : List ObjectId}
    (hn : c.lists[n]? = some (some (.growing entries))) (hi : c.held[item]? = some (some id)) :
    c.Reaches (c.perform (.push n item))
      { c with lists := c.lists.setIfInBounds n (some (.growing (id :: entries))) } .pushed := by
  obtain ⟨store, hacquire, howned, hgrows⟩ := hc.acquire (mem_held hi)
  refine ⟨store, ?_, howned.of_perm (perm_push hn id), hgrows⟩
  simp only [perform, listAt_eq.mpr hn, heldAt_eq.mpr hi, Bind.bind, Except.bind, push, hacquire]
  rfl

/-- A list that was sealed hands the copy back, and it is given up again: nothing has changed. -/
theorem perform_push_closed (hc : c.Kept) (hn : c.lists[n]? = some (some .closed))
    (hi : c.held[item]? = some (some id)) :
    c.perform (.push n item) = .ok (.pure c (.refused (c.store.object id).value)) := by
  have hpos : 0 < (c.store.object id).owners.owners := by
    have hcount := List.count_pos_iff.mpr (mem_held hi)
    rw [hc.owners]
    omega
  obtain ⟨hacquire, hrelease⟩ := Store.acquire_releaseObject hpos
  have hvalue : ((c.store.setOwners id ⟨(c.store.object id).owners.owners + 1⟩).object id).value =
      (c.store.object id).value := by
    rw [Store.object_setOwners (hc.lt_size (mem_held hi)), if_pos rfl]
  simp only [perform, listAt_eq.mpr hn, heldAt_eq.mpr hi, Bind.bind, Except.bind, push, hacquire,
    Outcome.lift_pure, Outcome.bind_pure, SealableList.push_closed, giveUp, List.map_cons,
    List.map_nil, Store.releaseAll, Store.release, hrelease, Outcome.map_pure, hvalue]
  rfl

/-- A list that is open takes over a held handle. -/
theorem reaches_pass (hc : c.Kept) {entries : List ObjectId}
    (hn : c.lists[n]? = some (some (.growing entries))) (hi : c.held[item]? = some (some id)) :
    c.Reaches (c.move (.pass n item))
      { c with
        lists := c.lists.setIfInBounds n (some (.growing (id :: entries)))
        held := c.held.setIfInBounds item none } .pushed := by
  -- The handle leaves an empty one behind where it was held.
  have hpushed := (perm_push hn id).cons none
  have hmoved := hpushed.trans (perm_held (c := { c with
    lists := c.lists.setIfInBounds n (some (.growing (id :: entries))) }) hi none)
  refine ⟨c.store, ?_, ?_, .refl _⟩
  · simp only [move, listAt_eq.mpr hn, heldAt_eq.mpr hi, Bind.bind, Except.bind]
    rfl
  · exact hc.none_cons.of_perm ((List.perm_cons _).mp ((List.Perm.swap ..).trans hmoved))

theorem reaches_close (hc : c.Kept) {entries : List ObjectId}
    (hn : c.lists[n]? = some (some (.growing entries))) : c.Reaches (c.perform (.close n))
      { c with
        lists := c.lists.setIfInBounds n (some .closed)
        runs := c.runs.push entries } (.number c.runs.size) :=
  hc.reaches ((perm_list hn (some .closed)).trans (perm_start _ entries).symm)
    (perform_close_growing hn)

/-- The next entry of a run is handed over and given up. -/
theorem reaches_next (hc : c.Kept) {rest : List ObjectId} (hn : c.runs[n]? = some (id :: rest)) :
    c.Reaches (c.perform (.next n)) { c with runs := c.runs.setIfInBounds n rest }
      (.number (c.store.object id).value) := by
  have hperm : c.handles.Perm ([id].map some ++
      ({ c with runs := c.runs.setIfInBounds n rest } : Chains).handles) := perm_next hn
  obtain ⟨store, hgiveUp, hkept, hgrows⟩ := hc.exists_giveUp hperm rfl
  refine ⟨store, ?_, hkept, hgrows⟩
  simp only [perform, runAt_eq.mpr hn, Bind.bind, Except.bind, hgiveUp]
  rfl

/-- The next entry of a run is handed over and held. -/
theorem reaches_keep (hc : c.Kept) {rest : List ObjectId} (hn : c.runs[n]? = some (id :: rest)) :
    c.Reaches (c.move (.keep n))
      { c with runs := c.runs.setIfInBounds n rest, held := c.held.push (some id) }
      (.number c.held.size) := by
  refine hc.reaches ((perm_next hn).trans (perm_hold _ _).symm) ?_
  simp only [move, runAt_eq.mpr hn, Bind.bind, Except.bind]
  rfl

/-- All that is left of a run is handed over and given up. -/
theorem reaches_rest (hc : c.Kept) {entries : List ObjectId} (hn : c.runs[n]? = some entries) :
    c.Reaches (c.perform (.rest n)) { c with runs := c.runs.setIfInBounds n [] }
      (.numbers (entries.map fun id => (c.store.object id).value)) := by
  obtain ⟨store, hgiveUp, hkept, hgrows⟩ := hc.exists_giveUp (perm_run hn []) rfl
  refine ⟨store, ?_, hkept, hgrows⟩
  simp only [perform, runAt_eq.mpr hn, Bind.bind, Except.bind, hgiveUp]
  rfl

/-- A run that is dropped gives up what it has not handed over. -/
theorem reaches_dropRun (hc : c.Kept) {entries : List ObjectId} (hn : c.runs[n]? = some entries) :
    c.Reaches (c.perform (.dropRun n)) { c with runs := c.runs.setIfInBounds n [] } .done := by
  obtain ⟨store, hgiveUp, hkept, hgrows⟩ := hc.exists_giveUp (perm_run hn []) rfl
  refine ⟨store, ?_, hkept, hgrows⟩
  simp only [perform, runAt_eq.mpr hn, Bind.bind, Except.bind, hgiveUp]
  rfl

/-- A list that is dropped gives up its entries. -/
theorem reaches_dropList (hc : c.Kept) {l : SealableList ObjectId}
    (hn : c.lists[n]? = some (some l)) :
    c.Reaches (c.perform (.dropList n)) { c with lists := c.lists.setIfInBounds n none } .done := by
  obtain ⟨store, hgiveUp, hkept, hgrows⟩ := hc.exists_giveUp (perm_list hn none) rfl
  refine ⟨store, ?_, hkept, hgrows⟩
  simp only [perform, listAt_eq.mpr hn, Bind.bind, Except.bind, hgiveUp]
  rfl

end Kept

end Ownership.Chains

end HazardFlow
