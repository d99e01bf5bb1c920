import HazardFlow.Ownership.Store
import HazardFlow.Proofs.Shares
import Mathlib.Data.List.Nodup

/-!
# Who refers to an object

A reference to an object is owned by someone outside of the store, or by an object that is not
destroyed and has that one as its child. The owner count of every object is the number of
references to it. Acquiring and giving up a reference keep this, also through a chain of objects
that are destroyed one after another.
-/

namespace HazardFlow

/-- The handle that an object owns while it is not destroyed. -/
def SharedObject.kept (o : SharedObject) : List Handle := if o.live then [o.ownedHandle] else []

namespace Store

variable {s t : Store} {held held' : List Handle} {id : ObjectId} {o : SharedObject}

/-- The handles that objects own. -/
def children (s : Store) : List Handle := s.objects.toList.flatMap SharedObject.kept

/-- What outsiders hold and what objects own is what the counts say, and an object is destroyed when
nothing refers to it. -/
structure Owned (s : Store) (held : List Handle) : Prop where
  owners : ∀ id, (s.object id).owners.owners = (held ++ s.children).count (some id)
  live : ∀ id, id < s.objects.size →
    ((s.object id).live = true ↔ some id ∈ held ++ s.children)
  destroyed : ∀ id, id ∈ s.journal.toList ↔ id < s.objects.size ∧ (s.object id).live = false
  once : s.journal.toList.Nodup
  older : ∀ id child, (s.object id).ownedHandle = some child → child < id
  /-- No object is destroyed after its child. -/
  parentsFirst : s.journal.toList.Pairwise fun a b => (s.object b).ownedHandle ≠ some a

/-- A store that has become another one: objects were added, and objects were destroyed. -/
structure Grows (s t : Store) : Prop where
  size : s.objects.size ≤ t.objects.size
  journal : s.journal.toList <+: t.journal.toList

namespace Grows

theorem refl (s : Store) : s.Grows s := ⟨Nat.le_refl _, List.prefix_rfl⟩

theorem trans {u : Store} (h : s.Grows t) (h' : t.Grows u) : s.Grows u :=
  ⟨Nat.le_trans h.size h'.size, h.journal.trans h'.journal⟩

end Grows

/-- Changing an object does not change the others. -/
theorem object_modify (hid : id < s.objects.size) (change : SharedObject → SharedObject)
    (journal : Array ObjectId) (j : ObjectId) :
    (Store.mk (s.objects.modify id change) journal).object j =
      if id = j then change (s.object id) else s.object j := by
  unfold object
  simp only [Array.getD_eq_getD_getElem?, Array.getElem?_modify]
  split
  · next heq =>
    subst heq
    rw [Array.getElem?_eq_getElem hid]
    rfl
  · rfl

/-- The handles that one object owns, and those that the others own. -/
theorem exists_children (hid : id < s.objects.size) : ∃ others : List Handle,
    s.children.Perm ((s.object id).kept ++ others) ∧
      ∀ (change : SharedObject → SharedObject) (journal : Array ObjectId),
        (Store.mk (s.objects.modify id change) journal).children.Perm
          ((change (s.object id)).kept ++ others) := by
  have hobject : s.objects.toList[id]? = some (s.object id) := by
    unfold object
    rw [Array.getElem?_toList, Array.getD_eq_getD_getElem?, Array.getElem?_eq_getElem hid]
    rfl
  obtain ⟨others, hbefore, hafter⟩ := exists_flatMap_modify SharedObject.kept hobject
  refine ⟨others, hbefore, fun change journal => ?_⟩
  unfold children
  rw [Array.toList_modify]
  exact hafter change

/-- Setting a count changes nothing else. -/
theorem object_setOwners (hid : id < s.objects.size) (count : OwnerCount) (j : ObjectId) :
    (s.setOwners id count).object j =
      if id = j then { s.object id with owners := count } else s.object j :=
  object_modify hid _ s.journal j

theorem size_setOwners (s : Store) (id : ObjectId) (count : OwnerCount) :
    (s.setOwners id count).objects.size = s.objects.size := Array.size_modify ..

theorem perm_children_setOwners (hid : id < s.objects.size) (count : OwnerCount) :
    (s.setOwners id count).children.Perm s.children := by
  obtain ⟨others, hbefore, hafter⟩ := exists_children hid
  exact (hafter _ s.journal).trans hbefore.symm

theorem live_setOwners (hid : id < s.objects.size) (count : OwnerCount) (j : ObjectId) :
    ((s.setOwners id count).object j).live = (s.object j).live := by
  rw [object_setOwners hid]
  split
  · next heq => subst heq; rfl
  · rfl

theorem ownedHandle_setOwners (hid : id < s.objects.size) (count : OwnerCount) (j : ObjectId) :
    ((s.setOwners id count).object j).ownedHandle = (s.object j).ownedHandle := by
  rw [object_setOwners hid]
  split
  · next heq => subst heq; rfl
  · rfl

/-- Destroying an object only says that it is not live. -/
theorem object_destroy (hid : id < s.objects.size) (j : ObjectId) :
    (s.destroy id).object j =
      if id = j then { s.object id with live := false } else s.object j :=
  object_modify hid _ (s.journal.push id) j

theorem size_destroy (s : Store) (id : ObjectId) :
    (s.destroy id).objects.size = s.objects.size := Array.size_modify ..

theorem ownedHandle_destroy (hid : id < s.objects.size) (j : ObjectId) :
    ((s.destroy id).object j).ownedHandle = (s.object j).ownedHandle := by
  rw [object_destroy hid]
  split
  · next heq => subst heq; rfl
  · rfl

/-- An object that is destroyed no longer owns what it owned. -/
theorem perm_children_destroy (hid : id < s.objects.size) (hlive : (s.object id).live = true) :
    s.children.Perm ((s.object id).ownedHandle :: (s.destroy id).children) := by
  obtain ⟨others, hbefore, hafter⟩ := exists_children hid
  have hnow := hafter (fun o => { o with live := false }) (s.journal.push id)
  unfold SharedObject.kept at hbefore hnow
  rw [if_pos hlive] at hbefore
  exact hbefore.trans (hnow.symm.cons (s.object id).ownedHandle)

/-- A new object is the last one. -/
theorem object_push (s : Store) (o : SharedObject) (j : ObjectId) :
    Store.object { s with objects := s.objects.push o } j =
      if j = s.objects.size then o else s.object j := by
  unfold object
  rw [Array.getD_eq_getD_getElem?, Array.getElem?_push]
  split
  · rfl
  · rw [Array.getD_eq_getD_getElem?]

theorem setOwners_push (s : Store) (o : SharedObject) (count : OwnerCount) :
    Store.setOwners { s with objects := s.objects.push o } s.objects.size count =
      { s with objects := s.objects.push { o with owners := count } } := by
  unfold setOwners
  congr 1
  refine Array.ext_getElem? fun j => ?_
  rw [Array.getElem?_modify, Array.getElem?_push, Array.getElem?_push]
  by_cases heq : j = s.objects.size
  · rw [if_pos heq, if_pos heq.symm, if_pos heq]
    rfl
  · rw [if_neg heq, if_neg (Ne.symm heq), if_neg heq]

/-- What objects own is what those of them own that are not destroyed. -/
theorem mem_children {handle : Handle} : handle ∈ s.children ↔ ∃ parent,
    parent < s.objects.size ∧ (s.object parent).live = true ∧
      (s.object parent).ownedHandle = handle := by
  unfold children object SharedObject.kept
  rw [List.mem_flatMap]
  constructor
  · rintro ⟨o, ho, hmem⟩
    obtain ⟨parent, hparent, rfl⟩ := List.mem_iff_getElem.mp ho
    rw [Array.length_toList] at hparent
    refine ⟨parent, hparent, ?_⟩
    rw [Array.getElem_toList] at hmem
    rw [Array.getD_eq_getD_getElem?, Array.getElem?_eq_getElem hparent, Option.getD_some]
    split at hmem
    · next hlive => exact ⟨hlive, (List.mem_singleton.mp hmem).symm⟩
    · cases hmem
  · rintro ⟨parent, hparent, hlive, howned⟩
    rw [Array.getD_eq_getD_getElem?, Array.getElem?_eq_getElem hparent, Option.getD_some] at *
    refine ⟨s.objects[parent], Array.mem_toList_iff.mpr (Array.getElem_mem hparent), ?_⟩
    rw [if_pos hlive, howned]
    exact List.mem_singleton_self _

namespace Owned

/-- Who holds which handle does not matter. -/
theorem of_perm (h : s.Owned held) (hperm : held.Perm held') : s.Owned held' where
  owners id := by rw [h.owners, (hperm.append_right s.children).count_eq]
  live id hid := by rw [h.live id hid, (hperm.append_right s.children).mem_iff]
  destroyed := h.destroyed
  once := h.once
  older := h.older
  parentsFirst := h.parentsFirst

/-- Empty handles do not matter. -/
theorem none_cons (h : s.Owned held) : s.Owned (none :: held) where
  owners id := by rw [h.owners, List.cons_append, List.count_cons_of_ne (by simp)]
  live id hid := by rw [h.live id hid, List.cons_append, List.mem_cons]; simp
  destroyed := h.destroyed
  once := h.once
  older := h.older
  parentsFirst := h.parentsFirst

theorem of_none_cons (h : s.Owned (none :: held)) : s.Owned held where
  owners id := by rw [h.owners, List.cons_append, List.count_cons_of_ne (by simp)]
  live id hid := by rw [h.live id hid, List.cons_append, List.mem_cons]; simp
  destroyed := h.destroyed
  once := h.once
  older := h.older
  parentsFirst := h.parentsFirst

/-- Whatever is referred to is an object of the store. -/
theorem lt_size (h : s.Owned held) (hmem : some id ∈ held ++ s.children) :
    id < s.objects.size := by
  by_contra hge
  have howners := h.owners id
  have hpos := List.count_pos_iff.mpr hmem
  unfold object at howners
  rw [Array.getD_eq_getD_getElem?, Array.getElem?_eq_none (Nat.le_of_not_lt hge)] at howners
  have hzero : (0 : Int) = ((held ++ s.children).count (some id) : Nat) := howners
  omega

/-- An object has not been destroyed when something refers to it. -/
theorem live_of_mem (h : s.Owned held) (hmem : some id ∈ held ++ s.children) :
    (s.object id).live = true := (h.live id (h.lt_size hmem)).mpr hmem

/-- What an object that is referred to owns is one of the handles that there are. -/
theorem ownedHandle_mem (h : s.Owned held) (hmem : some id ∈ held ++ s.children) :
    (s.object id).ownedHandle ∈ held ++ s.children :=
  List.mem_append_right _ (mem_children.mpr ⟨id, h.lt_size hmem, h.live_of_mem hmem, rfl⟩)

/-- A count that is set to the number of references, of which there is one at least. -/
theorem setOwners (h : s.Owned held) (hmem : some id ∈ held ++ s.children) {n : Int}
    (hmem' : some id ∈ held' ++ s.children)
    (hn : n = (held' ++ s.children).count (some id))
    (hother : ∀ j, j ≠ id → held'.count (some j) = held.count (some j)) :
    (s.setOwners id ⟨n⟩).Owned held' := by
  have hid := h.lt_size hmem
  have hperm := (perm_children_setOwners hid ⟨n⟩).append_left held'
  have hcount : ∀ j, j ≠ id →
      (held' ++ s.children).count (some j) = (held ++ s.children).count (some j) := by
    intro j hj
    rw [List.count_append, List.count_append, hother j hj]
  refine ⟨fun j => ?_, fun j hj => ?_, fun j => ?_, h.once, fun j child hchild => ?_, ?_⟩
  · rw [object_setOwners hid, hperm.count_eq]
    split
    · next heq => subst heq; exact hn
    · next hne => rw [h.owners, hcount j (Ne.symm hne)]
  · rw [live_setOwners hid, hperm.mem_iff]
    by_cases heq : j = id
    · rw [heq]
      exact iff_of_true (h.live_of_mem hmem) hmem'
    · rw [h.live j (size_setOwners s id _ ▸ hj), ← List.count_pos_iff, ← List.count_pos_iff,
        hcount j heq]
  · rw [live_setOwners hid, size_setOwners]
    exact h.destroyed j
  · rw [ownedHandle_setOwners hid] at hchild
    exact h.older j child hchild
  · simp only [ownedHandle_setOwners hid]
    exact h.parentsFirst

/-- A reference more to an object that is referred to. -/
theorem acquire (h : s.Owned held) (hmem : some id ∈ held ++ s.children) :
    ∃ t, s.acquire (some id) = .pure t () ∧ t.Owned (some id :: held) ∧ s.Grows t := by
  have howners := h.owners id
  have hpos := List.count_pos_iff.mpr hmem
  refine ⟨s.setOwners id ⟨(s.object id).owners.owners + 1⟩, ?_, h.setOwners hmem ?_ ?_ ?_, ?_⟩
  · unfold Store.acquire OwnerCount.acquire
    dsimp only
    rw [if_pos (by omega)]
    rfl
  · exact List.mem_cons_self
  · rw [howners, List.cons_append, List.count_cons_self]
    rfl
  · intro j hj
    exact List.count_cons_of_ne (by simpa using Ne.symm hj)
  · exact ⟨Nat.le_of_eq (size_setOwners ..).symm, List.prefix_rfl⟩

/-- An object that nothing refers to any more is destroyed, and whoever destroys it holds what it
owned. -/
theorem destroy (h : s.Owned (some id :: held)) (hlast : some id ∉ held ++ s.children) :
    ((s.setOwners id ⟨0⟩).destroy id).Owned ((s.object id).ownedHandle :: held) := by
  have hmem : some id ∈ some id :: held ++ s.children := List.mem_cons_self
  have hid := h.lt_size hmem
  have hlive := h.live_of_mem hmem
  have hid' : id < (s.setOwners id ⟨0⟩).objects.size := by rwa [size_setOwners]
  have hobject : ∀ j, ((s.setOwners id ⟨0⟩).destroy id).object j =
      if id = j then { s.object id with owners := ⟨0⟩, live := false } else s.object j := by
    intro j
    rw [object_destroy hid', object_setOwners hid, object_setOwners hid, if_pos rfl]
    split <;> rfl
  have hsize : ((s.setOwners id ⟨0⟩).destroy id).objects.size = s.objects.size := by
    rw [size_destroy, size_setOwners]
  have howned : ∀ j, (((s.setOwners id ⟨0⟩).destroy id).object j).ownedHandle =
      (s.object j).ownedHandle := by
    intro j
    rw [ownedHandle_destroy hid', ownedHandle_setOwners hid]
  have hperm : ((s.object id).ownedHandle :: held ++
      ((s.setOwners id ⟨0⟩).destroy id).children).Perm (held ++ s.children) := by
    have hchildren := perm_children_destroy hid' (by rw [live_setOwners hid, hlive])
    rw [ownedHandle_setOwners hid] at hchildren
    exact (List.perm_middle.symm.trans (hchildren.symm.append_left held)).trans
      ((perm_children_setOwners hid ⟨0⟩).append_left held)
  have hother : ∀ j, id ≠ j → (held ++ s.children).count (some j) =
      (some id :: held ++ s.children).count (some j) := by
    intro j hj
    exact (List.count_cons_of_ne (by simpa using hj)).symm
  have hjournal : ((s.setOwners id ⟨0⟩).destroy id).journal.toList = s.journal.toList ++ [id] :=
    Array.toList_push
  refine ⟨fun j => ?_, fun j hj => ?_, fun j => ?_, ?_, fun j child hchild => ?_, ?_⟩
  · rw [hobject, hperm.count_eq]
    split
    · next heq =>
      subst heq
      rw [List.count_eq_zero.mpr hlast]
      rfl
    · next hne => rw [h.owners, hother j hne]
  · rw [hobject, hperm.mem_iff]
    split
    · next heq =>
      subst heq
      exact iff_of_false Bool.false_ne_true hlast
    · next hne =>
      rw [h.live j (hsize ▸ hj), ← List.count_pos_iff, ← List.count_pos_iff, hother j hne]
  · rw [hjournal, hobject, hsize, List.mem_append, List.mem_singleton, h.destroyed j]
    split
    · next heq =>
      subst heq
      exact iff_of_true (Or.inr rfl) ⟨hid, rfl⟩
    · next hne => exact or_iff_left (Ne.symm hne)
  · rw [hjournal]
    refine List.nodup_append'.mpr ⟨h.once, List.nodup_singleton id, ?_⟩
    apply List.disjoint_singleton.mpr
    intro hdestroyed
    rw [h.destroyed, hlive] at hdestroyed
    exact Bool.noConfusion hdestroyed.2
  · rw [howned] at hchild
    exact h.older j child hchild
  · rw [hjournal]
    simp only [howned]
    refine List.pairwise_append.mpr ⟨h.parentsFirst, List.pairwise_singleton _ id, ?_⟩
    -- A child destroyed before `id` would still be referred to by it.
    intro child hdestroyed b hb hchild
    obtain rfl := List.mem_singleton.mp hb
    have howns := h.ownedHandle_mem hmem
    rw [hchild] at howns
    rw [h.destroyed, h.live_of_mem howns] at hdestroyed
    exact Bool.noConfusion hdestroyed.2

/-- What giving up a reference comes to: the last one destroys the object, and only then is what it
owned given up. -/
theorem releaseObject_eq (h : s.Owned (some id :: held)) :
    s.releaseObject id = if some id ∈ held ++ s.children
      then .pure (s.setOwners id ⟨(held ++ s.children).count (some id)⟩) ()
      else ((s.setOwners id ⟨0⟩).destroy id).release (s.object id).ownedHandle := by
  have hid : id < s.objects.size := h.lt_size List.mem_cons_self
  have howners : (s.object id).owners.owners =
      ((held ++ s.children).count (some id) : Nat) + 1 := by
    rw [h.owners, List.cons_append, List.count_cons_self]
    rfl
  have hpos : 0 < (s.object id).owners.owners := by omega
  rw [releaseObject]
  unfold OwnerCount.release
  dsimp only
  rw [if_pos hpos, howners, Int.add_sub_cancel]
  by_cases hmem : some id ∈ held ++ s.children
  · have hcount := List.count_pos_iff.mpr hmem
    have hnot : (((held ++ s.children).count (some id) : Int) + 1 == 1) = false := by
      rw [beq_eq_false_iff_ne]
      omega
    rw [if_pos hmem, hnot]
    rfl
  · have hcount := List.count_eq_zero.mpr hmem
    have howned : (((s.setOwners id ⟨0⟩).destroy id).object id).ownedHandle =
        (s.object id).ownedHandle := by
      rw [ownedHandle_destroy (by rwa [size_setOwners]), ownedHandle_setOwners hid]
    have hlast : ((0 : Int) + 1 == 1) = true := rfl
    rw [if_neg hmem, hcount, Int.natCast_zero, hlast]
    dsimp only [Outcome.pure, Outcome.lift]
    rw [howned]
    cases hchild : (s.object id).ownedHandle with
    | none => rfl
    | some child => exact if_pos (h.older id child hchild)

/-- A reference is given up, and with the last one to an object what that one owned. -/
theorem releaseObject (h : s.Owned (some id :: held)) :
    ∃ t, s.releaseObject id = .pure t () ∧ t.Owned held ∧ s.Grows t := by
  induction id using Nat.strongRecOn generalizing s with
  | ind id ih =>
    rw [h.releaseObject_eq]
    split
    · next hmem =>
      refine ⟨_, rfl, h.setOwners List.mem_cons_self hmem rfl fun j hj => ?_, ?_⟩
      · exact (List.count_cons_of_ne (by simpa using Ne.symm hj)).symm
      · exact ⟨Nat.le_of_eq (size_setOwners ..).symm, List.prefix_rfl⟩
    · next hlast =>
      have hdestroy := h.destroy hlast
      have hgrows : s.Grows ((s.setOwners id ⟨0⟩).destroy id) := by
        refine ⟨Nat.le_of_eq ?_, ?_⟩
        · rw [size_destroy, size_setOwners]
        · exact ⟨[id], Array.toList_push.symm⟩
      cases hchild : (s.object id).ownedHandle with
      | none =>
        rw [hchild] at hdestroy
        exact ⟨_, rfl, hdestroy.of_none_cons, hgrows⟩
      | some child =>
        rw [hchild] at hdestroy
        obtain ⟨t, hrelease, howned, hlater⟩ := ih child (h.older id child hchild) hdestroy
        exact ⟨t, hrelease, howned, hgrows.trans hlater⟩

/-- A handle is given up. -/
theorem release {handle : Handle} (h : s.Owned (handle :: held)) :
    ∃ t, s.release handle = .pure t () ∧ t.Owned held ∧ s.Grows t := by
  cases handle with
  | none => exact ⟨s, rfl, h.of_none_cons, .refl s⟩
  | some id => exact h.releaseObject

/-- A handle is copied. -/
theorem acquireHandle (h : s.Owned held) {handle : Handle} (hmem : handle ∈ held ++ s.children) :
    ∃ t, s.acquire handle = .pure t () ∧ t.Owned (handle :: held) ∧ s.Grows t := by
  cases handle with
  | none => exact ⟨s, rfl, h.none_cons, .refl s⟩
  | some id => exact h.acquire hmem

/-- An object that was just made is not yet referred to by any other, and owns what was moved into
it. -/
theorem push (h : s.Owned (o.ownedHandle :: held)) (howners : o.owners = ⟨1⟩)
    (hlive : o.live = true) :
    Owned { s with objects := s.objects.push o } (some s.objects.size :: held) := by
  have hchildren : Store.children { s with objects := s.objects.push o } =
      s.children ++ [o.ownedHandle] := by
    unfold children SharedObject.kept
    rw [Array.toList_push, List.flatMap_append, List.flatMap_singleton, if_pos hlive]
  have hperm : (some s.objects.size :: held ++
      Store.children { s with objects := s.objects.push o }).Perm
      (some s.objects.size :: (o.ownedHandle :: held ++ s.children)) := by
    rw [hchildren, List.cons_append, ← List.append_assoc]
    exact (List.perm_append_singleton ..).cons _
  have hnew : some s.objects.size ∉ o.ownedHandle :: held ++ s.children := fun hmem =>
    Nat.lt_irrefl _ (h.lt_size hmem)
  have hsize : ∀ j : ObjectId, j ≠ s.objects.size →
      (j < (s.objects.push o).size ↔ j < s.objects.size) := by
    intro j hne
    rw [Array.size_push]
    exact Nat.lt_succ_iff_lt_or_eq.trans (or_iff_left hne)
  refine ⟨fun j => ?_, fun j hj => ?_, fun j => ?_, h.once, fun j child hchild => ?_, ?_⟩
  · rw [object_push, hperm.count_eq]
    split
    · next heq =>
      rw [heq, List.count_cons_self, List.count_eq_zero.mpr hnew, howners]
      rfl
    · next hne => rw [h.owners, List.count_cons_of_ne (by simpa using Ne.symm hne)]
  · rw [object_push, hperm.mem_iff, List.mem_cons]
    split
    · next heq => exact iff_of_true hlive (Or.inl (by rw [heq]))
    · next hne =>
      rw [h.live j ((hsize j hne).mp hj), or_iff_right (by simpa using hne)]
  · rw [object_push, h.destroyed]
    split
    · next heq =>
      rw [heq, hlive]
      exact iff_of_false (fun hlt => Nat.lt_irrefl _ hlt.1) (fun hdead => Bool.noConfusion hdead.2)
    · next hne => exact and_congr_left fun _ => (hsize j hne).symm
  · rw [object_push] at hchild
    split at hchild
    · next heq =>
      rw [heq]
      exact h.lt_size (List.mem_cons.mpr (Or.inl hchild.symm))
    · exact h.older j child hchild
  · refine h.parentsFirst.imp_of_mem fun {a b} _ hb hchild => ?_
    have hlt := ((h.destroyed b).mp hb).1
    rwa [object_push, if_neg (Nat.ne_of_lt hlt)]

/-- A new object owns what was moved into it, and is referred to once. -/
theorem create {child : Option Handle} (h : s.Owned (child.join :: held)) (value : Nat) :
    ∃ t, s.create value child = .pure t s.objects.size ∧
      t.Owned (some s.objects.size :: held) ∧ s.Grows t := by
  have hpush := push (o := { owners := ⟨1⟩, value, child }) h rfl rfl
  refine ⟨_, ?_, hpush, ⟨?_, List.prefix_rfl⟩⟩
  · unfold Store.create Store.acquire
    dsimp only
    rw [object_push, if_pos rfl]
    change (Outcome.pure (Store.setOwners _ s.objects.size ⟨0 + 1⟩) ()).map _ = _
    rw [setOwners_push]
    rfl
  · rw [Array.size_push]
    exact Nat.le_succ _

/-- When nobody outside refers to any object, all objects are destroyed: the newest one that is not
could only be referred to by a newer one. -/
theorem live_eq_false (h : s.Owned held) (hheld : ∀ id, some id ∉ held) (hid : id < s.objects.size) :
    (s.object id).live = false := by
  have hnewer : ∀ n id, s.objects.size ≤ id + n → some id ∉ held ++ s.children := by
    intro n
    induction n with
    | zero => exact fun id hsize hmem => Nat.not_lt.mpr hsize (h.lt_size hmem)
    | succ n ih =>
      intro id hsize hmem
      obtain hmem | hmem := List.mem_append.mp hmem
      · exact hheld id hmem
      obtain ⟨parent, hparent, hlive, howned⟩ := mem_children.mp hmem
      have holder : Nat.succ id ≤ parent := h.older parent id howned
      exact ih parent (by omega) ((h.live parent hparent).mp hlive)
  have hunreferred := hnewer s.objects.size id (Nat.le_add_left ..)
  rwa [← h.live id hid, Bool.not_eq_true] at hunreferred

end Owned

end Store

end HazardFlow
