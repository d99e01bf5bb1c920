import HazardFlow.Ownership.Session
import HazardFlow.Proofs.Ownership.References

/-!
# Counting handles

What refers to an object in a session: handles under names, references in raw form, and objects not
destroyed that have it as their child. A raw reference whose name was taken over by another one is
still a reference, though the session has lost it. Every command adds, moves or gives up just the
references that it is about, so that counts are exact after each of them, and an object is destroyed
when nothing refers to it any more.
-/

namespace HazardFlow.Ownership.Session

variable {s : Session} {lost : List Handle} {name : String} {h : Handle}

/-- The raw references whose name a command takes over. -/
def overwritten (s : Session) : Command → List Handle
  | .toRaw _ raw => (s.raws.lookup raw).toList
  | _ => []

/-- The raw references whose names are taken over by commands done in turn. -/
def overwrittenIn (s : Session) : List Command → List Handle
  | [] => []
  | command :: rest =>
    match s.perform command with
    | .ok o => o.state.overwrittenIn rest ++ s.overwritten command
    | .error _ => []

/-- The references to an object. -/
def references (s : Session) (lost : List Handle) (id : ObjectId) : Nat :=
  (s.slots.map Prod.snd).count (some id) + (s.raws.map Prod.snd).count (some id) +
    lost.count (some id) + s.store.children.count (some id)

/-- The handles under names, those in raw form, and those held elsewhere, are the references from
outside of the store. -/
structure Kept (s : Session) (held : List Handle) : Prop where
  owned : s.store.Owned (s.slots.map Prod.snd ++ s.raws.map Prod.snd ++ held)
  slotNames : (s.slots.map Prod.fst).Nodup
  rawNames : (s.raws.map Prod.fst).Nodup

/-- A name that is found stands for a handle. -/
theorem lookup_of_find (hfind : s.find name = .ok h) : s.slots.lookup name = some h := by
  unfold find at hfind
  split at hfind
  · next handle hlookup => rw [hlookup, Except.ok.inj hfind]
  · cases hfind

/-- The handle under a name is one of those under names. -/
theorem mem_of_find (hfind : s.find name = .ok h) : h ∈ s.slots.map Prod.snd := by
  obtain ⟨before, after, heq, _⟩ := List.lookup_eq_some_iff.mp (lookup_of_find hfind)
  rw [heq]
  exact List.mem_map.mpr ⟨(name, h), List.mem_append_right _ List.mem_cons_self, rfl⟩

/-- A name that was forgotten is new. -/
theorem notMem_filter {entries : List (String × Handle)} (name : String) :
    name ∉ (entries.filter fun entry => entry.1 != name).map Prod.fst := by
  intro hmem
  obtain ⟨entry, hentry, heq⟩ := List.mem_map.mp hmem
  have hne := (List.mem_filter.mp hentry).2
  rw [heq, bne_self_eq_false] at hne
  cases hne

/-- Forgetting a name does not change what the others stand for. -/
theorem lookup_filter {entries : List (String × Handle)} {other : String} (hne : other ≠ name) :
    (entries.filter fun entry => entry.1 != name).lookup other = entries.lookup other := by
  induction entries with
  | nil => rfl
  | cons entry entries ih =>
    by_cases heq : entry.1 = name
    · have hother : (other == entry.1) = false := by
        rw [heq]
        exact beq_false_of_ne hne
      rw [List.filter_cons_of_neg (by simp [heq]), ih, List.lookup_cons, hother]
    · rw [List.filter_cons_of_pos (by simp [heq]), List.lookup_cons, List.lookup_cons, ih]

/-- Putting a handle under a name makes it stand for that one, and nothing else. -/
theorem lookup_put (s : Session) (name other : String) (h : Handle) :
    (s.put name h).slots.lookup other = if other = name then some h else s.slots.lookup other := by
  unfold put
  rw [List.lookup_cons]
  split
  · next heq => rw [if_pos (beq_iff_eq.mp heq)]
  · next hne =>
    have hne := beq_eq_false_iff_ne.mp hne
    rw [if_neg hne]
    exact lookup_filter hne

/-- A handle put under a name takes the place of the one that was there. -/
theorem perm_put (hnames : (s.slots.map Prod.fst).Nodup) (name : String) (h : Handle) :
    (h :: s.slots.map Prod.snd).Perm
      ((s.slots.lookup name).toList ++ (s.put name h).slots.map Prod.snd) :=
  ((perm_lookup hnames name).cons h).trans List.perm_middle.symm

/-- Names stand for one handle each. -/
theorem nodup_put (hnames : (s.slots.map Prod.fst).Nodup) (name : String) (h : Handle) :
    ((s.put name h).slots.map Prod.fst).Nodup :=
  List.nodup_cons.mpr ⟨notMem_filter name, hnames.sublist (List.filter_sublist.map _)⟩

/-- A command that needs a handle under a name finds one. -/
theorem exists_of_find_bind {β : Type} {next : Handle → Except UnknownName β} {b : β}
    (hok : (s.find name >>= next) = .ok b) : ∃ h, s.find name = .ok h ∧ next h = .ok b := by
  cases hfind : s.find name with
  | ok h =>
    rw [hfind] at hok
    exact ⟨h, rfl, hok⟩
  | error unknown =>
    rw [hfind] at hok
    cases hok

namespace Kept

variable {held held' : List Handle}

/-- Handles held elsewhere may be told in any order. -/
theorem of_perm (hs : s.Kept held) (hperm : held.Perm held') : s.Kept held' :=
  ⟨hs.owned.of_perm (hperm.append_left _), hs.slotNames, hs.rawNames⟩

theorem none_cons (hs : s.Kept held) : s.Kept (none :: held) :=
  ⟨hs.owned.none_cons.of_perm List.perm_middle.symm, hs.slotNames, hs.rawNames⟩

theorem of_none_cons (hs : s.Kept (none :: held)) : s.Kept held :=
  ⟨(hs.owned.of_perm List.perm_middle).of_none_cons, hs.slotNames, hs.rawNames⟩

/-- The store may change as long as what others hold does. -/
theorem of_store (hs : s.Kept held) {store : Store}
    (howned : store.Owned (s.slots.map Prod.snd ++ s.raws.map Prod.snd ++ held')) :
    Kept { s with store } held' := ⟨howned, hs.slotNames, hs.rawNames⟩

/-- A handle whose name is forgotten is held elsewhere. -/
theorem forget (hs : s.Kept held) (hfind : s.find name = .ok h) :
    (s.forget name).Kept (h :: held) where
  owned := by
    have hperm := perm_lookup hs.slotNames name
    rw [lookup_of_find hfind] at hperm
    exact hs.owned.of_perm (((hperm.append_right _).append_right _).trans List.perm_middle.symm)
  slotNames := hs.slotNames.sublist (List.filter_sublist.map _)
  rawNames := hs.rawNames

/-- A reference in raw form whose name is forgotten is held elsewhere. -/
theorem forgetRaw (hs : s.Kept held) (raw : String) :
    Kept { s with raws := s.raws.filter fun entry => entry.1 != raw }
      ((s.raws.lookup raw).toList ++ held) where
  owned := by
    have hperm := perm_lookup hs.rawNames raw
    refine hs.owned.of_perm (((hperm.append_left _).append_right _).trans ?_)
    apply List.perm_iff_count.mpr
    intro handle
    simp only [List.count_append]
    omega
  slotNames := hs.slotNames
  rawNames := hs.rawNames.sublist (List.filter_sublist.map _)

/-- A handle that is held elsewhere becomes a reference in raw form. -/
theorem insertRaw (hs : s.Kept (h :: held)) (hname : name ∉ s.raws.map Prod.fst) :
    Kept { s with raws := (name, h) :: s.raws } held where
  owned := by
    refine hs.owned.of_perm (List.perm_iff_count.mpr fun handle => ?_)
    simp only [List.map_cons, List.count_append, List.count_cons]
    omega
  slotNames := hs.slotNames
  rawNames := List.nodup_cons.mpr ⟨hname, hs.rawNames⟩

/-- A handle that is put under a name is no longer held elsewhere, and the one that was there is. -/
theorem put (hs : s.Kept (h :: held)) (name : String) :
    (s.put name h).Kept ((s.slots.lookup name).join :: held) := by
  have hput : (s.put name h).Kept ((s.slots.lookup name).toList ++ held) := by
    refine ⟨hs.owned.of_perm (List.perm_iff_count.mpr fun handle => ?_),
      nodup_put hs.slotNames name h, hs.rawNames⟩
    have hcount := (perm_put hs.slotNames name h).count_eq handle
    simp only [List.count_append, List.count_cons, Session.put, Session.forget] at hcount ⊢
    omega
  cases hlookup : s.slots.lookup name with
  | none =>
    rw [hlookup] at hput
    exact hput.none_cons
  | some old => rwa [hlookup] at hput

/-- A handle placed under a name is no longer held elsewhere, and the handle that was there is given
up. -/
theorem place (hs : s.Kept (h :: held)) (name : String) : ∃ store : Store,
    s.place name h = .pure { s.put name h with store } .done ∧
      Kept { s.put name h with store } held ∧ s.store.Grows store := by
  have hput := hs.put name
  obtain ⟨store, hrelease, howned, hgrows⟩ := (hput.owned.of_perm List.perm_middle).release
  refine ⟨store, ?_, hput.of_store howned, hgrows⟩
  unfold Session.place
  dsimp only
  rw [hrelease]
  rfl

/-- A copy of a handle is held elsewhere at first. -/
theorem copy (hs : s.Kept held)
    (hmem : h ∈ s.slots.map Prod.snd ++ s.raws.map Prod.snd ++ held ++ s.store.children) :
    ∃ store : Store, s.copy h = .pure { s with store } h ∧ Kept { s with store } (h :: held) ∧
      s.store.Grows store := by
  obtain ⟨store, hacquire, howned, hgrows⟩ := hs.owned.acquireHandle hmem
  refine ⟨store, ?_, hs.of_store (howned.of_perm List.perm_middle.symm), hgrows⟩
  unfold Session.copy
  rw [hacquire]
  rfl

/-- What two names stand for is exchanged. -/
theorem swap (hs : s.Kept held) {slot other : String} {a b : Handle} (ha : s.find slot = .ok a)
    (hb : s.find other = .ok b) : ((s.put slot b).put other a).Kept held := by
  have hnames := nodup_put hs.slotNames slot b
  have hlookup : (s.put slot b).slots.lookup other = some b := by
    rw [lookup_put, lookup_of_find hb, ite_self]
  refine ⟨hs.owned.of_perm (List.perm_iff_count.mpr fun handle => ?_), nodup_put hnames other a,
    hs.rawNames⟩
  have hfirst := (perm_put hs.slotNames slot b).count_eq handle
  have hsecond := (perm_put hnames other a).count_eq handle
  rw [lookup_of_find ha] at hfirst
  rw [hlookup] at hsecond
  have hraws : ((s.put slot b).put other a).raws = s.raws := rfl
  simp only [Option.toList_some, List.count_append, List.count_cons, List.count_nil, hraws]
    at hfirst hsecond ⊢
  omega

end Kept

/-- What a command does keeps to the references that there are, and stops only because a handle is
empty. -/
structure Keeps (s : Session) (held : List Handle) (o : Outcome Session Answer) : Prop where
  kept : o.state.Kept held
  grows : s.store.Grows o.state.store
  faults : ∀ fault, o.result = .error fault → fault = .emptyHandle

section Keeps

variable {held : List Handle} {s' : Session}

/-- Placing a handle that is held elsewhere. -/
theorem Kept.keeps_place (hs : s'.Kept (h :: held)) (hgrows : s.store.Grows s'.store)
    (name : String) : s.Keeps held (s'.place name h) := by
  obtain ⟨store, hplace, hkept, hlater⟩ := hs.place name
  rw [hplace]
  exact ⟨hkept, hgrows.trans hlater, fun fault hfault => nomatch hfault⟩

/-- Placing a handle to a new object, into which a handle was moved. -/
theorem Kept.keeps_create (child : Option Handle) (hs : s'.Kept (child.join :: held))
    (hgrows : s.store.Grows s'.store) (name : String) (value : Nat) :
    s.Keeps held (((s'.store.create value child).lift fun store => { s' with store }).bind
      fun s id => s.place name (some id)) := by
  obtain ⟨store, hcreate, howned, hlater⟩ := (hs.owned.of_perm List.perm_middle).create value
  rw [hcreate]
  exact (hs.of_store (howned.of_perm List.perm_middle.symm)).keeps_place (hgrows.trans hlater) name

/-- Placing a copy of a handle. -/
theorem Kept.keeps_copy (hs : s.Kept held)
    (hmem : h ∈ s.slots.map Prod.snd ++ s.raws.map Prod.snd ++ held ++ s.store.children)
    (name : String) : s.Keeps held ((s.copy h).bind fun s h => s.place name h) := by
  obtain ⟨store, hcopy, hkept, hgrows⟩ := hs.copy hmem
  rw [hcopy]
  exact hkept.keeps_place hgrows name

/-- Looking changes nothing. -/
theorem Kept.keeps_look (hs : s.Kept held) {answer : Except Fault Answer}
    (hanswer : ∀ fault, answer = .error fault → fault = .emptyHandle) :
    s.Keeps held (s.look answer) := ⟨hs, .refl _, hanswer⟩

end Keeps

/-- Every command keeps to the references that there are. -/
theorem Kept.perform (hs : s.Kept lost) {command : Command} {o : Outcome Session Answer}
    (hok : s.perform command = .ok o) : s.Keeps (s.overwritten command ++ lost) o := by
  cases command with
  | create slot value child =>
    cases child with
    | none =>
      obtain rfl := Except.ok.inj hok
      exact hs.none_cons.keeps_create none (.refl s.store) slot value
    | some name =>
      unfold Session.perform at hok
      dsimp only at hok
      cases hfind : s.find name with
      | error unknown =>
        rw [hfind] at hok
        cases hok
      | ok h =>
        rw [hfind] at hok
        obtain rfl := Except.ok.inj hok
        exact Kept.keeps_create (some h) (hs.forget hfind) (.refl s.store) slot value
  | empty slot =>
    obtain rfl := Except.ok.inj hok
    exact hs.none_cons.keeps_place (.refl _) slot
  | clone slot source =>
    obtain ⟨h, hfind, hrest⟩ := exists_of_find_bind hok
    obtain rfl := Except.ok.inj hrest
    exact hs.keeps_copy (by simp [mem_of_find hfind]) slot
  | move slot source =>
    obtain ⟨h, hfind, hrest⟩ := exists_of_find_bind hok
    obtain rfl := Except.ok.inj hrest
    exact (hs.forget hfind).keeps_place (s := s) (.refl s.store) slot
  | cloneFrom slot source =>
    obtain ⟨_, _, hrest⟩ := exists_of_find_bind hok
    obtain ⟨h, hfind, hrest⟩ := exists_of_find_bind hrest
    obtain rfl := Except.ok.inj hrest
    exact hs.keeps_copy (by simp [mem_of_find hfind]) slot
  | swap slot other =>
    obtain ⟨a, ha, hrest⟩ := exists_of_find_bind hok
    obtain ⟨b, hb, hrest⟩ := exists_of_find_bind hrest
    obtain rfl := Except.ok.inj hrest
    exact ⟨hs.swap ha hb, .refl _, fun fault hfault => nomatch hfault⟩
  | reset slot =>
    obtain ⟨_, _, hrest⟩ := exists_of_find_bind hok
    obtain rfl := Except.ok.inj hrest
    exact hs.none_cons.keeps_place (.refl _) slot
  | drop slot =>
    obtain ⟨_, _, hrest⟩ := exists_of_find_bind hok
    obtain rfl := Except.ok.inj hrest
    obtain ⟨store, hplace, hkept, hgrows⟩ := hs.none_cons.place slot
    have hempty : find { s.put slot none with store } slot = .ok none := by
      unfold find
      dsimp only
      rw [lookup_put, if_pos rfl]
    rw [hplace]
    exact ⟨(hkept.forget hempty).of_none_cons, hgrows, fun fault hfault => nomatch hfault⟩
  | toRaw slot raw =>
    obtain ⟨h, hfind, hrest⟩ := exists_of_find_bind hok
    obtain rfl := Except.ok.inj hrest
    have hraw := ((hs.forget hfind).forgetRaw raw).of_perm List.perm_middle
    exact ⟨hraw.insertRaw (notMem_filter raw), .refl _, fun fault hfault => nomatch hfault⟩
  | ofRaw slot raw =>
    cases hlookup : s.raws.lookup raw with
    | none =>
      unfold Session.perform at hok
      dsimp only at hok
      rw [hlookup] at hok
      cases hok
    | some h =>
      have hraw := hs.forgetRaw raw
      unfold Session.perform at hok
      dsimp only at hok
      rw [hlookup] at hok hraw
      obtain rfl := Except.ok.inj hok
      exact hraw.keeps_place (s := s) (.refl s.store) slot
  | follow slot =>
    obtain ⟨h, hfind, hrest⟩ := exists_of_find_bind hok
    obtain rfl := Except.ok.inj hrest
    apply hs.keeps_look
    intro fault hfault
    cases h with
    | none => exact (Except.error.inj hfault).symm
    | some id => cases hfault
  | value slot | owners slot | isEmpty slot | points slot | describe slot =>
    obtain ⟨_, _, hrest⟩ := exists_of_find_bind hok
    obtain rfl := Except.ok.inj hrest
    exact hs.keeps_look fun fault hfault => nomatch hfault
  | childOwners slot =>
    obtain ⟨h, hfind, hrest⟩ := exists_of_find_bind hok
    obtain rfl := Except.ok.inj hrest
    apply hs.keeps_look
    intro fault hfault
    cases h with
    | none => exact (Except.error.inj hfault).symm
    | some id =>
      unfold objectOf Except.bind at hfault
      dsimp only at hfault
      split at hfault
      · cases hfault
      · next child _ =>
        cases child with
        | none => exact (Except.error.inj hfault).symm
        | some _ => cases hfault
  | cloneChild slot target =>
    obtain ⟨h, hfind, hrest⟩ := exists_of_find_bind hok
    cases h with
    | none =>
      obtain rfl := Except.ok.inj hrest
      exact ⟨hs, .refl _, fun fault hfault => (Except.error.inj hfault).symm⟩
    | some id =>
      obtain rfl := Except.ok.inj hrest
      have hmem := hs.owned.ownedHandle_mem (show some id ∈ _ by simp [mem_of_find hfind])
      exact hs.keeps_copy hmem target
  | same slot other =>
    obtain ⟨_, _, hrest⟩ := exists_of_find_bind hok
    obtain ⟨_, _, hrest⟩ := exists_of_find_bind hrest
    obtain rfl := Except.ok.inj hrest
    exact hs.keeps_look fun fault hfault => nomatch hfault

/-- Commands done in turn keep to the references that there are. -/
theorem Kept.performAll (hs : s.Kept lost) {commands : List Command} {final : Session}
    {entries : List Entry} (hok : s.performAll commands = .ok (final, entries)) :
    final.Kept (s.overwrittenIn commands ++ lost) ∧
      ∀ entry ∈ entries, ∀ fault, entry.result = .error fault → fault = .emptyHandle := by
  induction commands generalizing s lost entries with
  | nil =>
    obtain ⟨rfl, rfl⟩ := Prod.mk.inj (Except.ok.inj hok)
    exact ⟨hs, fun entry hentry => nomatch hentry⟩
  | cons command rest ih =>
    unfold Session.performAll at hok
    unfold overwrittenIn
    cases hperform : s.perform command with
    | error unknown =>
      rw [hperform] at hok
      cases hok
    | ok o =>
      rw [hperform] at hok
      obtain ⟨hkept, _, hfaults⟩ := hs.perform hperform
      cases hrest : o.state.performAll rest with
      | error unknown =>
        dsimp only [Bind.bind, Except.bind] at hok
        rw [hrest] at hok
        cases hok
      | ok done =>
        dsimp only [Bind.bind, Except.bind] at hok
        rw [hrest] at hok
        obtain ⟨rfl, rfl⟩ := Prod.mk.inj (Except.ok.inj hok)
        obtain ⟨hfinal, hentries⟩ := ih hkept hrest
        refine ⟨?_, List.forall_mem_cons.mpr ⟨hfaults, hentries⟩⟩
        rwa [← List.append_assoc] at hfinal

/-- A session in which nothing was done yet. -/
theorem kept_empty : Kept {} [] where
  owned := by
    refine ⟨fun id => rfl, fun id hid => absurd hid (Nat.not_lt_zero id), fun id => ?_,
      List.nodup_nil, fun id child hchild => ?_, List.Pairwise.nil⟩
    · exact iff_of_false List.not_mem_nil fun hid => Nat.not_lt_zero id hid.1
    · cases hchild
  slotNames := List.nodup_nil
  rawNames := List.nodup_nil

/-- Every count says how many references there are, and objects are destroyed just when there are
none: each once, and before what it owns is given up. -/
structure Exact (s : Session) (lost : List Handle) : Prop where
  owners : ∀ id, id < s.store.objects.size →
    (s.store.object id).owners.owners = s.references lost id
  live : ∀ id, id < s.store.objects.size →
    ((s.store.object id).live = true ↔ 0 < s.references lost id)
  destroyed : ∀ id, id ∈ s.store.journal.toList ↔
    id < s.store.objects.size ∧ s.references lost id = 0
  once : s.store.journal.toList.Nodup
  /-- Of an object and its child, the child is destroyed later. -/
  parentsFirst : s.store.journal.toList.Pairwise fun a b =>
    (s.store.object b).ownedHandle ≠ some a
  /-- The last reference destroys the object, and only then is what that one owned given up. -/
  release : ∀ id, some id ∈ s.slots.map Prod.snd ++ s.raws.map Prod.snd ++ lost →
    s.store.release (some id) = if s.references lost id = 1
      then ((s.store.setOwners id ⟨0⟩).destroy id).release (s.store.object id).ownedHandle
      else .pure (s.store.setOwners id ⟨(s.references lost id : Int) - 1⟩) ()
  /-- A command destroys the objects that it leaves without a reference. -/
  step : ∀ (command : Command) (o : Outcome Session Answer), s.perform command = .ok o →
    ∃ destroyed : List ObjectId,
      o.state.store.journal.toList = s.store.journal.toList ++ destroyed ∧
      ∀ id, id ∈ destroyed ↔ id < o.state.store.objects.size ∧
        (id < s.store.objects.size → 0 < s.references lost id) ∧
        o.state.references (s.overwritten command ++ lost) id = 0
  /-- When no handle is left, every object has been destroyed once. -/
  left : (∀ id, some id ∉ s.slots.map Prod.snd ++ s.raws.map Prod.snd ++ lost) →
    ∀ id, id < s.store.objects.size → s.store.journal.toList.count id = 1

namespace Kept

theorem references_eq (s : Session) (lost : List Handle) (id : ObjectId) :
    s.references lost id = (s.slots.map Prod.snd ++ s.raws.map Prod.snd ++ lost ++
      s.store.children).count (some id) := by
  unfold references
  simp only [List.count_append]

/-- An object is destroyed when nothing refers to it. -/
theorem mem_journal (hs : s.Kept lost) (id : ObjectId) : id ∈ s.store.journal.toList ↔
    id < s.store.objects.size ∧ s.references lost id = 0 := by
  rw [hs.owned.destroyed, references_eq, List.count_eq_zero]
  apply and_congr_right
  intro hid
  rw [← hs.owned.live id hid, Bool.not_eq_true]

/-- Giving up a reference, as the number of references says. -/
theorem release_eq (hs : s.Kept lost) {id : ObjectId}
    (hmem : some id ∈ s.slots.map Prod.snd ++ s.raws.map Prod.snd ++ lost) :
    s.store.release (some id) = if s.references lost id = 1
      then ((s.store.setOwners id ⟨0⟩).destroy id).release (s.store.object id).ownedHandle
      else .pure (s.store.setOwners id ⟨(s.references lost id : Int) - 1⟩) () := by
  obtain ⟨before, after, hsplit⟩ := List.append_of_mem hmem
  have howned := hs.owned
  have hreferences := references_eq s lost id
  rw [hsplit] at howned hreferences
  have hfirst : s.store.Owned (some id :: (before ++ after)) := howned.of_perm List.perm_middle
  have hcount : s.references lost id =
      (before ++ after ++ s.store.children).count (some id) + 1 := by
    rw [hreferences]
    simp only [List.count_append, List.count_cons_self]
    omega
  change s.store.releaseObject id = _
  rw [hfirst.releaseObject_eq]
  by_cases hmore : some id ∈ before ++ after ++ s.store.children
  · have hpos := List.count_pos_iff.mpr hmore
    have hless : ((s.references lost id : Nat) : Int) - 1 =
        (before ++ after ++ s.store.children).count (some id) := by omega
    rw [if_pos hmore, if_neg (by omega), hless]
  · have hzero := List.count_eq_zero.mpr hmore
    rw [if_neg hmore, if_pos (by omega)]

/-- A command destroys the objects that it leaves without a reference. -/
theorem exists_destroyed (hs : s.Kept lost) {command : Command} {o : Outcome Session Answer}
    (hok : s.perform command = .ok o) : ∃ destroyed : List ObjectId,
      o.state.store.journal.toList = s.store.journal.toList ++ destroyed ∧
      ∀ id, id ∈ destroyed ↔ id < o.state.store.objects.size ∧
        (id < s.store.objects.size → 0 < s.references lost id) ∧
        o.state.references (s.overwritten command ++ lost) id = 0 := by
  obtain ⟨hkept, hgrows, _⟩ := hs.perform hok
  obtain ⟨destroyed, hjournal⟩ := hgrows.journal
  refine ⟨destroyed, hjournal.symm, fun id => ?_⟩
  have honce := hkept.owned.once
  have hnow := hkept.mem_journal id
  have hbefore := hs.mem_journal id
  rw [← hjournal] at honce hnow
  constructor
  · intro hid
    obtain ⟨hsize, hunreferred⟩ := hnow.mp (List.mem_append_right _ hid)
    refine ⟨hsize, fun hold => Nat.pos_of_ne_zero fun hzero => ?_, hunreferred⟩
    exact List.disjoint_of_nodup_append honce (hbefore.mpr ⟨hold, hzero⟩) hid
  · rintro ⟨hsize, hreferred, hunreferred⟩
    refine (List.mem_append.mp (hnow.mpr ⟨hsize, hunreferred⟩)).resolve_left fun hid => ?_
    obtain ⟨hold, hzero⟩ := hbefore.mp hid
    exact Nat.ne_of_gt (hreferred hold) hzero

/-- When no handle is left, every object has been destroyed once. -/
theorem count_journal (hs : s.Kept lost)
    (hleft : ∀ id, some id ∉ s.slots.map Prod.snd ++ s.raws.map Prod.snd ++ lost) {id : ObjectId}
    (hid : id < s.store.objects.size) : s.store.journal.toList.count id = 1 :=
  List.count_eq_one_of_mem hs.owned.once
    ((hs.owned.destroyed id).mpr ⟨hid, hs.owned.live_eq_false hleft hid⟩)

/-- What every command keeps is exact. -/
theorem isExact (hs : s.Kept lost) : s.Exact lost where
  owners id hid := by rw [hs.owned.owners, references_eq]
  live id hid := by rw [hs.owned.live id hid, references_eq, List.count_pos_iff]
  destroyed := hs.mem_journal
  once := hs.owned.once
  parentsFirst := hs.owned.parentsFirst
  release id hmem := hs.release_eq hmem
  step command o hok := hs.exists_destroyed hok
  left hleft id hid := hs.count_journal hleft hid

end Kept

/-- Whatever commands were done, counting is exact, and no command stopped but because a handle was
empty: no object that was destroyed was acquired, and none was given up more often than it was
owned. -/
theorem exact_performAll {commands : List Command} {final : Session} {entries : List Entry}
    (hok : performAll {} commands = .ok (final, entries)) :
    final.Exact (overwrittenIn {} commands) ∧
      ∀ entry ∈ entries, ∀ fault, entry.result = .error fault → fault = .emptyHandle := by
  obtain ⟨hkept, hentries⟩ := kept_empty.performAll hok
  rw [List.append_nil] at hkept
  exact ⟨hkept.isExact, hentries⟩

/-- A chain of three objects that is referred to by name, in raw form and through itself: the last
handle destroys all of them. -/
theorem exact_performAll_chain :
    let commands := [.create "a" 1 none, .create "b" 2 (some "a"), .create "c" 3 (some "b"),
      .clone "d" "c", .cloneFrom "d" "d", .toRaw "c" "r", .cloneChild "d" "e", .ofRaw "f" "r",
      .reset "e", .follow "e", .drop "f", .drop "e", .drop "d"]
    ∃ (final : Session) (entries : List Entry), performAll {} commands = .ok (final, entries) ∧
      final.store.journal = #[2, 1, 0] ∧ final.Exact (overwrittenIn {} commands) := by
  intro commands
  have hjournal : (performAll {} commands).toOption.map (fun done => done.1.store.journal) =
      some #[2, 1, 0] := by decide +kernel
  cases hrun : performAll {} commands with
  | error unknown =>
    rw [hrun] at hjournal
    cases hjournal
  | ok done =>
    rw [hrun] at hjournal
    exact ⟨done.1, done.2, rfl, Option.some.inj hjournal, (exact_performAll hrun).1⟩

end HazardFlow.Ownership.Session
