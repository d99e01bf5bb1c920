import HazardFlow.Memory.SlotCache
import HazardFlow.Proofs.Pool.Marks
import HazardFlow.Proofs.Shares

/-!
# What a pool has handed out

A pool backs a list of slots when these are the slots marked in its pages, each once. Every
operation of the pool and of its caches moves slots in or out of that list, and nothing else. This
rests on where the pages lie: they do not overlap, so that an address leads back to the page and
the slot that it was handed out from.
-/

namespace HazardFlow

/-- Blocks of so many bytes do not overlap. -/
def Apart (bytes a b : Nat) : Prop := a + bytes ≤ b ∨ b + bytes ≤ a

theorem Apart.mono {bytes bytes' a b : Nat} (h : Apart bytes a b) (hle : bytes' ≤ bytes) :
    Apart bytes' a b := by
  unfold Apart at *
  omega

/-- The slots marked in pages. -/
def markedIn (pages : List Page) : List Address := pages.flatMap Page.marked

/-- A page may be replaced by one that lies where it does. -/
theorem frames_set {pages : List Page} {k : Nat} {page page' : Page} (hk : pages[k]? = some page)
    (hframe : page'.frame = page.frame) :
    (pages.set k page').map Page.frame = pages.map Page.frame := by
  have hself : (pages.map Page.frame)[k]? = some page.frame := by
    rw [List.getElem?_map, hk]
    rfl
  obtain ⟨hlt, hget⟩ := List.getElem?_eq_some_iff.mp hself
  rw [List.map_set, hframe, ← hget]
  exact List.set_getElem_self hlt

/-- Pages of one stride that lie among the addresses and do not overlap. -/
structure Laid (stride : Nat) (pages : List Page) : Prop where
  stride_pos : 0 < stride
  frames : ∀ f ∈ pages.map Page.frame, f.2 = stride ∧ f.1 + stride * slotsPerPage ≤ maxWord
  apart : (pages.map Page.frame).Pairwise fun f g => Apart (stride * slotsPerPage) f.1 g.1

namespace Laid

variable {stride k : Nat} {pages pages' : List Page} {page page' : Page} {a : Address}
  {i j : Fin slotsPerPage}

/-- Pages may be replaced by others that lie where they do. -/
theorem congr (h : Laid stride pages) (hframes : pages'.map Page.frame = pages.map Page.frame) :
    Laid stride pages' where
  stride_pos := h.stride_pos
  frames := by
    rw [hframes]
    exact h.frames
  apart := by
    rw [hframes]
    exact h.apart

theorem tail (h : Laid stride (page :: pages)) : Laid stride pages where
  stride_pos := h.stride_pos
  frames := (List.forall_mem_cons.mp h.frames).2
  apart := (List.pairwise_cons.mp h.apart).2

theorem stride_eq (h : Laid stride pages) (hpage : page ∈ pages) : page.stride = stride :=
  (h.frames page.frame (List.mem_map_of_mem hpage)).1

theorem page_stride_pos (h : Laid stride pages) (hpage : page ∈ pages) : 0 < page.stride := by
  rw [h.stride_eq hpage]
  exact h.stride_pos

theorem bytes_eq (h : Laid stride pages) (hpage : page ∈ pages) :
    page.bytes = stride * slotsPerPage := by
  unfold Page.bytes
  rw [h.stride_eq hpage]

/-- Every page can be asked for the addresses that it holds. -/
theorem contains_eq (h : Laid stride pages) (hpage : page ∈ pages) (a : Address) :
    page.contains a = .ok (page.base ≤ a && a < page.base + page.bytes) := by
  refine Page.contains_eq ?_ a
  rw [h.bytes_eq hpage]
  exact (h.frames page.frame (List.mem_map_of_mem hpage)).2

/-- The slots of a page start in it. -/
theorem within_slot (h : Laid stride pages) (hpage : page ∈ pages) (i : Fin slotsPerPage) :
    page.base ≤ page.slot i ∧ page.slot i < page.base + page.bytes :=
  ⟨Nat.le_add_right .., Nat.lt_of_lt_of_le (Nat.lt_add_of_pos_right (h.page_stride_pos hpage))
    (page.slot_add_stride_le i)⟩

/-- An address that lies in the first page lies in no other one. -/
theorem not_within_tail (h : Laid stride (page :: pages)) (hpage : page' ∈ pages)
    (hin : page'.base ≤ a ∧ a < page'.base + page'.bytes) :
    ¬(page.base ≤ a ∧ a < page.base + page.bytes) := by
  have hbytes := h.bytes_eq (List.mem_cons_self (a := page) (l := pages))
  have hbytes' := h.tail.bytes_eq hpage
  have hapart := (List.pairwise_cons.mp h.apart).1 _ (List.mem_map_of_mem hpage)
  simp only [Apart, Page.frame, Address] at *
  omega

/-- Slots of different pages do not overlap. -/
theorem apart_slot_of_lt (h : Laid stride pages) {k' : Nat} (hk : pages[k]? = some page)
    (hk' : pages[k']? = some page') (hlt : k < k') (i j : Fin slotsPerPage) :
    Apart stride (page.slot i) (page'.slot j) := by
  have hpage := List.mem_of_getElem? hk
  have hpage' := List.mem_of_getElem? hk'
  have hapart : Apart (stride * slotsPerPage) page.base page'.base := by
    obtain ⟨hlength, heq⟩ := List.getElem?_eq_some_iff.mp hk
    obtain ⟨hlength', heq'⟩ := List.getElem?_eq_some_iff.mp hk'
    have hframes := List.pairwise_iff_getElem.mp (List.pairwise_map.mp h.apart) k k' hlength
      hlength' hlt
    rwa [heq, heq'] at hframes
  have hend := page.slot_add_stride_le i
  have hend' := page'.slot_add_stride_le j
  have hstart := (h.within_slot hpage i).1
  have hstart' := (h.within_slot hpage' j).1
  rw [h.bytes_eq hpage, h.stride_eq hpage] at hend
  rw [h.bytes_eq hpage', h.stride_eq hpage'] at hend'
  unfold Apart at *
  simp only [Address] at *
  omega

/-- Two slots do not overlap. -/
theorem apart_slot (h : Laid stride pages) {k' : Nat} (hk : pages[k]? = some page)
    (hk' : pages[k']? = some page') (hne : (k, i) ≠ (k', j)) :
    Apart stride (page.slot i) (page'.slot j) := by
  obtain hlt | rfl | hgt := Nat.lt_trichotomy k k'
  · exact h.apart_slot_of_lt hk hk' hlt i j
  · obtain rfl : page = page' := Option.some.inj (hk.symm.trans hk')
    rw [← h.stride_eq (List.mem_of_getElem? hk)]
    obtain hij | hij := Fin.lt_or_lt_of_ne fun heq : i = j => hne (by rw [heq])
    · exact Or.inl (page.slot_add_stride_le_slot hij)
    · exact Or.inr (page.slot_add_stride_le_slot hij)
  · exact (h.apart_slot_of_lt hk' hk hgt j i).symm

/-- The page that an address lies in is found. -/
theorem findPage_eq (h : Laid stride pages) (hk : pages[k]? = some page)
    (hin : page.base ≤ a ∧ a < page.base + page.bytes) :
    findPage pages a = .ok (some (k, page)) := by
  induction pages generalizing k with
  | nil => simp at hk
  | cons first rest ih =>
    have hcontains := h.contains_eq List.mem_cons_self a
    unfold findPage
    cases k with
    | zero =>
      rw [List.getElem?_cons_zero, Option.some.injEq] at hk
      subst hk
      rw [hcontains, decide_eq_true hin.1, decide_eq_true hin.2]
      rfl
    | succ k =>
      rw [List.getElem?_cons_succ] at hk
      have hout := h.not_within_tail (List.mem_of_getElem? hk) hin
      rw [← Bool.decide_and, decide_eq_false hout] at hcontains
      rw [hcontains, ih h.tail hk]
      rfl

/-- The slots of all pages are listed once. -/
theorem nodup_markedIn (h : Laid stride pages) : (markedIn pages).Nodup := by
  induction pages with
  | nil => exact List.nodup_nil
  | cons page rest ih =>
    refine List.nodup_append'.mpr
      ⟨Page.nodup_marked (h.page_stride_pos List.mem_cons_self), ih h.tail, ?_⟩
    rintro a ha hrest
    obtain ⟨other, hother, ha'⟩ := List.mem_flatMap.mp hrest
    obtain ⟨i, _, rfl⟩ := Page.mem_marked.mp ha
    obtain ⟨j, _, hj⟩ := Page.mem_marked.mp ha'
    refine h.not_within_tail hother (a := page.slot i) ?_ (h.within_slot List.mem_cons_self i)
    rw [← hj]
    exact h.tail.within_slot hother j

/-- Claiming a slot of one page adds it to what is marked. -/
theorem perm_markedIn_claim (h : Laid stride pages) (hk : pages[k]? = some page)
    (hclaim : page.claim = some (page', a)) :
    (pages.set k page').map Page.frame = pages.map Page.frame ∧
      (markedIn (pages.set k page')).Perm (a :: markedIn pages) := by
  obtain ⟨hframe, hperm⟩ := Page.claim_spec (h.page_stride_pos (List.mem_of_getElem? hk)) hclaim
  obtain ⟨others, hbefore, hafter⟩ := exists_flatMap_set Page.marked hk
  exact ⟨frames_set hk hframe,
    (hafter page').trans ((hperm.append_right others).trans (hbefore.symm.cons a))⟩

/-- Clearing the mark of a slot takes it away from what is marked. -/
theorem perm_markedIn_clear (h : Laid stride pages) (hk : pages[k]? = some page)
    (hi : page.occupied.get i = true) :
    (markedIn pages).Perm (page.slot i :: markedIn (pages.set k (page.mark i false))) := by
  obtain ⟨others, hbefore, hafter⟩ := exists_flatMap_set Page.marked hk
  have hclear := Page.perm_marked_clear (h.page_stride_pos (List.mem_of_getElem? hk)) hi
  exact hbefore.trans ((hclear.append_right others).trans ((hafter _).symm.cons _))

/-- What the first page with a free slot gives is one page's slot, and the pages before it have
none. -/
theorem exists_claim_of_claimFirst (h : claimFirst pages = some (pages', a)) :
    ∃ (k : Nat) (page page' : Page), pages[k]? = some page ∧ page.claim = some (page', a) ∧
      pages' = pages.set k page' ∧ ∀ earlier ∈ pages.take k, earlier.claim = none := by
  induction pages generalizing pages' with
  | nil => cases h
  | cons first rest ih =>
    unfold claimFirst at h
    cases hclaim : first.claim with
    | some claimed =>
      rw [hclaim] at h
      obtain ⟨rfl, rfl⟩ := Prod.mk.inj (Option.some.inj h)
      exact ⟨0, first, claimed.1, rfl, hclaim, rfl, nofun⟩
    | none =>
      rw [hclaim] at h
      obtain ⟨later, hlater, heq⟩ := Option.map_eq_some_iff.mp h
      obtain ⟨rfl, rfl⟩ := Prod.mk.inj heq
      obtain ⟨k, page, page', hk, hpage, hset, hearlier⟩ := ih hlater
      exact ⟨k + 1, page, page', hk, hpage, by rw [hset, List.set_cons_succ],
        List.forall_mem_cons.mpr ⟨hclaim, hearlier⟩⟩

end Laid

namespace Pool

variable {α : Type} {p q : Pool α} {l l' : List Address} {a : Address}

/-- A pool whose marked slots are those of a list. -/
structure Backs (p : Pool α) (l : List Address) : Prop where
  laid : Laid p.stride p.pages
  perm : (markedIn p.pages).Perm l

/-- Only marks have changed in a pool. -/
structure Remarks (p q : Pool α) : Prop where
  allocator : q.allocator = p.allocator
  layout : q.layout = p.layout
  frames : q.pages.map Page.frame = p.pages.map Page.frame

namespace Remarks

variable {r : Pool α}

theorem refl (p : Pool α) : p.Remarks p := ⟨rfl, rfl, rfl⟩

theorem trans (h : p.Remarks q) (h' : q.Remarks r) : p.Remarks r :=
  ⟨h'.allocator.trans h.allocator, h'.layout.trans h.layout, h'.frames.trans h.frames⟩

end Remarks

/-- The pool after its pages were replaced. -/
theorem remarks_of_frames {pages : List Page} (h : pages.map Page.frame = p.pages.map Page.frame) :
    p.Remarks { p with pages } := ⟨rfl, rfl, h⟩

/-- The address of a slot leads back to it. -/
theorem locate_slot (h : Laid p.stride p.pages) {k : Nat} {page : Page}
    (hk : p.pages[k]? = some page) (i : Fin slotsPerPage) :
    p.locate (page.slot i) = .ok (.ok (k, page, i)) := by
  have hpage := List.mem_of_getElem? hk
  unfold locate
  rw [h.findPage_eq hk (h.within_slot hpage i)]
  simp only [Except.map, Page.slotAt_slot (h.page_stride_pos hpage)]

namespace Backs

/-- The order of the list does not matter. -/
theorem of_perm (h : p.Backs l) (hperm : l.Perm l') : p.Backs l' := ⟨h.laid, h.perm.trans hperm⟩

/-- No slot is listed twice. -/
theorem nodup (h : p.Backs l) : l.Nodup := h.perm.nodup_iff.mp h.laid.nodup_markedIn

/-- The list has as many slots as the pool has handed out. -/
theorem occupancy_eq (h : p.Backs l) : p.occupancy = l.length := by
  rw [← h.perm.length_eq]
  unfold occupancy markedIn
  induction p.pages with
  | nil => rfl
  | cons page rest ih =>
    rw [List.foldr_cons, ih, List.flatMap_cons, List.length_append, Page.length_marked]

/-- A slot of the list is one of a page, and marked there. -/
theorem exists_slot (h : p.Backs l) (ha : a ∈ l) : ∃ (k : Nat) (page : Page)
    (i : Fin slotsPerPage), p.pages[k]? = some page ∧ page.occupied.get i = true ∧
      page.slot i = a := by
  obtain ⟨page, hpage, hmarked⟩ := List.mem_flatMap.mp (h.perm.mem_iff.mpr ha)
  obtain ⟨i, hi, heq⟩ := Page.mem_marked.mp hmarked
  obtain ⟨k, hk⟩ := List.getElem?_of_mem hpage
  exact ⟨k, page, i, hk, hi, heq⟩

/-- A slot of the list leads back to its page. -/
theorem exists_locate (h : p.Backs l) (ha : a ∈ l) : ∃ (k : Nat) (page : Page)
    (i : Fin slotsPerPage), p.pages[k]? = some page ∧ page.occupied.get i = true ∧
      page.slot i = a ∧ p.locate a = .ok (.ok (k, page, i)) := by
  obtain ⟨k, page, i, hk, hi, rfl⟩ := h.exists_slot ha
  exact ⟨k, page, i, hk, hi, rfl, locate_slot h.laid hk i⟩

/-- A page's free slot joins the list. -/
theorem claim (h : p.Backs l) {k : Nat} {page page' : Page} (hk : p.pages[k]? = some page)
    (hclaim : page.claim = some (page', a)) :
    p.Remarks { p with pages := p.pages.set k page' } ∧
      Backs { p with pages := p.pages.set k page' } (a :: l) := by
  obtain ⟨hframes, hperm⟩ := h.laid.perm_markedIn_claim hk hclaim
  exact ⟨remarks_of_frames hframes, h.laid.congr hframes, hperm.trans (h.perm.cons a)⟩

/-- The slot that a pool hands out joins the list. -/
theorem take (h : p.Backs l) (htake : p.take = some (q, a)) :
    p.Remarks q ∧ q.Backs (a :: l) := by
  unfold Pool.take at htake
  obtain ⟨⟨pages, b⟩, hfirst, heq⟩ := Option.map_eq_some_iff.mp htake
  obtain ⟨rfl, rfl⟩ := Prod.mk.inj heq
  obtain ⟨k, page, page', hk, hclaim, rfl, -⟩ := Laid.exists_claim_of_claimFirst hfirst
  exact h.claim hk hclaim

/-- The slots of a batch join the list. -/
theorem batch (h : p.Backs l) (n : Nat) : p.Remarks (p.batch n).1 ∧
    (p.batch n).1.Backs ((p.batch n).2 ++ l) ∧ (p.batch n).2.length ≤ n := by
  induction n generalizing p l with
  | zero => exact ⟨.refl p, h, Nat.le_refl 0⟩
  | succ n ih =>
    unfold Pool.batch
    cases htake : p.take with
    | none => exact ⟨.refl p, h, Nat.zero_le _⟩
    | some taken =>
      obtain ⟨hfirst, hbacks⟩ := h.take htake
      obtain ⟨hlater, hall, hlength⟩ := ih hbacks
      exact ⟨hfirst.trans hlater, hall.of_perm List.perm_middle, Nat.succ_le_succ hlength⟩

/-- A slot of the list is taken back, and leaves it. -/
theorem deallocate (h : p.Backs (a :: l)) :
    ∃ q, p.deallocate a = .pure q (.ok ()) ∧ p.Remarks q ∧ q.Backs l := by
  obtain ⟨k, page, i, hk, hi, heq, hlocate⟩ := h.exists_locate List.mem_cons_self
  have hclear := h.laid.perm_markedIn_clear hk hi
  have hframes := frames_set hk (Page.frame_mark page i false)
  rw [heq] at hclear
  refine ⟨_, ?_, remarks_of_frames hframes, h.laid.congr hframes,
    (hclear.symm.trans h.perm).cons_inv⟩
  unfold Pool.deallocate
  rw [hlocate]
  dsimp only
  rw [hi]
  rfl

end Backs

end Pool

namespace SlotCache

variable {α : Type} {p : Pool α} {c : SlotCache} {l : List Address} {a : Address}

/-- Slots given back to their pool leave the list. -/
theorem exists_giveBack {slots : List Address} (h : p.Backs (slots ++ l)) :
    ∃ q, giveBack p slots = .pure q () ∧ p.Remarks q ∧ q.Backs l := by
  induction slots generalizing p with
  | nil => exact ⟨p, rfl, .refl p, h⟩
  | cons a rest ih =>
    obtain ⟨q, hfirst, hremarks, hbacks⟩ := h.deallocate
    obtain ⟨r, hlater, hrest, hleft⟩ := ih hbacks
    refine ⟨r, ?_, hremarks.trans hrest, hleft⟩
    unfold giveBack
    rw [hfirst]
    exact hlater

/-- A flushed cache gives all its slots back, and answers how many they were. -/
theorem exists_flush (h : p.Backs (c.slots ++ l)) : ∃ q, c.flush p =
    .pure (q, { c with slots := [] }) c.slots.length ∧ p.Remarks q ∧ q.Backs l := by
  have hreverse : p.Backs (c.slots.reverse ++ l) :=
    h.of_perm ((List.reverse_perm c.slots).symm.append_right l)
  obtain ⟨q, hgive, hremarks, hbacks⟩ := exists_giveBack hreverse
  refine ⟨q, ?_, hremarks, hbacks⟩
  unfold flush
  rw [hgive]
  rfl

/-- A slot given to a cache is kept there, or leaves the list. -/
theorem exists_free (h : p.Backs (a :: (c.slots ++ l))) (hroom : c.slots.length ≤ c.capacity) :
    ∃ q d, c.free p a = .pure (q, d) (.ok ()) ∧ p.Remarks q ∧ q.Backs (d.slots ++ l) ∧
      d.capacity = c.capacity ∧ d.slots.length ≤ d.capacity := by
  unfold free
  split
  · obtain ⟨q, hfree, hremarks, hbacks⟩ := h.deallocate
    exact ⟨q, c, by rw [hfree]; rfl, hremarks, hbacks, rfl, hroom⟩
  · next hfull =>
    obtain ⟨k, page, i, _, _, _, hlocate⟩ := h.exists_locate List.mem_cons_self
    refine ⟨p, { c with slots := a :: c.slots }, by rw [hlocate], .refl p, h, rfl, ?_⟩
    change c.slots.length + 1 ≤ c.capacity
    omega

/-- An empty cache is refilled from the pages. -/
theorem refill_spec (h : p.Backs (c.slots ++ l)) (hroom : c.slots.length ≤ c.capacity) :
    p.Remarks (c.refill p).1 ∧ (c.refill p).1.Backs ((c.refill p).2.slots ++ l) ∧
      (c.refill p).2.capacity = c.capacity ∧ (c.refill p).2.slots.length ≤ c.capacity := by
  unfold refill
  split
  · next hempty =>
    have hl : c.slots = [] := List.isEmpty_iff.mp hempty
    rw [hl] at h
    obtain ⟨hremarks, hbacks, hlength⟩ := h.batch c.capacity
    refine ⟨hremarks, hbacks.of_perm ?_, rfl, ?_⟩
    · exact (List.reverse_perm _).symm.append_right l
    · rw [List.length_reverse]
      exact hlength
  · exact ⟨.refl p, h, rfl, hroom⟩

end SlotCache

end HazardFlow
