import HazardFlow.Proofs.Pool.Choosing

/-!
# What becomes of a pointer that is given back

The pages of a pool follow no order, and their stride need be no power of two. As long as they do
not overlap and end among the addresses, every address is that of one slot, or of none: the lookup
finds which without a fault. Giving the pointer back then clears one mark, stops because the slot is
not handed out, or is refused, and nothing else is changed.
-/

namespace HazardFlow

namespace Laid

variable {stride k : Nat} {pages : List Page} {page : Page} {a : Address}

/-- No page is found for an address that lies in none. -/
theorem findPage_eq_none (h : Laid stride pages) (hout : ∀ page ∈ pages, ¬page.Holds a) :
    findPage pages a = .ok none := by
  induction pages with
  | nil => rfl
  | cons first rest ih =>
    have hcontains := h.contains_eq List.mem_cons_self a
    have hfirst : ¬(first.base ≤ a ∧ a < first.base + first.bytes) := hout first List.mem_cons_self
    rw [← Bool.decide_and, decide_eq_false hfirst] at hcontains
    unfold findPage
    rw [hcontains, ih h.tail fun page hpage => hout page (List.mem_cons_of_mem first hpage)]
    rfl

/-- The lookup finds the page of an address, or finds that there is none. -/
theorem findPage_cases (h : Laid stride pages) (a : Address) :
    (∃ k page, pages[k]? = some page ∧ page.Holds a ∧ findPage pages a = .ok (some (k, page))) ∨
      ((∀ page ∈ pages, ¬page.Holds a) ∧ findPage pages a = .ok none) := by
  by_cases hin : ∃ page ∈ pages, page.Holds a
  · obtain ⟨page, hpage, hholds⟩ := hin
    obtain ⟨k, hk⟩ := List.getElem?_of_mem hpage
    exact .inl ⟨k, page, hk, hholds, h.findPage_eq hk hholds⟩
  · have hout : ∀ page ∈ pages, ¬page.Holds a := fun page hpage hholds => hin ⟨page, hpage, hholds⟩
    exact .inr ⟨hout, h.findPage_eq_none hout⟩

end Laid

namespace Pool

variable {α : Type} {p q : Pool α} {k k' : Nat} {i j : Fin slotsPerPage} {a : Address}

/-- An address is that of one slot at most. -/
theorem slotOf_inj (h : Laid p.stride p.pages) (hslot : p.slotOf k i = some a)
    (hslot' : p.slotOf k' j = some a) : k = k' ∧ i = j := by
  obtain ⟨page, hk, rfl⟩ := slotOf_eq_some_iff.mp hslot
  obtain ⟨page', hk', heq⟩ := slotOf_eq_some_iff.mp hslot'
  have hlocate := locate_slot h hk' j
  rw [heq, locate_slot h hk i] at hlocate
  cases hlocate
  exact ⟨rfl, rfl⟩

/-- An address that is no slot's leads nowhere, be it in a page or not. -/
theorem locate_of_forall_ne (h : Laid p.stride p.pages) (hnone : ∀ k i, p.slotOf k i ≠ some a) :
    p.locate a = .ok (.error .unknownPointer) := by
  unfold locate
  obtain ⟨k, page, hk, hholds, hfind⟩ | ⟨-, hfind⟩ := h.findPage_cases a
  · cases hslot : page.slotAt a with
    | none =>
      rw [hfind]
      simp only [Except.map, hslot]
    | some i =>
      have heq := Page.slot_of_slotAt hholds.1 hslot
      exact absurd (slotOf_eq_some_iff.mpr ⟨page, hk, heq⟩) (hnone k i)
  · rw [hfind]
    rfl

/-- A slot that is handed out is taken back. -/
theorem deallocate_of_taken (h : Laid p.stride p.pages) (hslot : p.slotOf k i = some a)
    (htaken : p.isTaken k i = true) :
    p.deallocate a = .pure (p.remark k i false) (.ok ()) := by
  obtain ⟨page, hk, rfl⟩ := slotOf_eq_some_iff.mp hslot
  rw [isTaken_eq hk] at htaken
  unfold deallocate
  rw [locate_slot h hk i]
  dsimp only
  rw [htaken, if_pos rfl, remark_eq hk]

/-- A slot that is not handed out is not taken back, and the mark that is cleared all the same was
clear before. -/
theorem deallocate_of_free (h : Laid p.stride p.pages) (hslot : p.slotOf k i = some a)
    (hfree : p.isTaken k i = false) : p.deallocate a = .fail p .slotFreedTwice := by
  have hsame := p.remark_isTaken k i
  obtain ⟨page, hk, rfl⟩ := slotOf_eq_some_iff.mp hslot
  rw [hfree, remark_eq hk] at hsame
  rw [isTaken_eq hk] at hfree
  unfold deallocate
  rw [locate_slot h hk i]
  dsimp only
  rw [hfree, if_neg Bool.false_ne_true, hsame]

/-- Any other pointer is refused. -/
theorem deallocate_of_forall_ne (h : Laid p.stride p.pages)
    (hnone : ∀ k i, p.slotOf k i ≠ some a) : p.deallocate a = .pure p (.error .unknownPointer) := by
  unfold deallocate
  rw [locate_of_forall_ne h hnone]

/-- A slot that was just handed out can be given back, and then the pool is what it was. -/
theorem deallocate_of_take (h : Laid p.stride p.pages) (htake : p.take = some (q, a)) :
    q.deallocate a = .pure p (.ok ()) := by
  have hremarks := remarks_take htake
  have hlaid : Laid q.stride q.pages := by
    unfold stride
    rw [hremarks.layout]
    exact h.congr hremarks.frames
  obtain ⟨k, i, hslot, hfirst, rfl⟩ := exists_firstFree_of_take htake
  obtain ⟨page, hk, -⟩ := slotOf_eq_some_iff.mp hslot
  have htaken : (p.remark k i true).isTaken k i = true := by
    rw [isTaken_remark, if_pos rfl, hk]
    rfl
  have hsame := p.remark_isTaken k i
  rw [hfirst.isFree] at hsame
  rw [deallocate_of_taken hlaid (by rw [slotOf_remark, hslot]) htaken, remark_remark, hsame]

/-- The node of an address is that of the page in which it lies. -/
theorem numaNodeOf_of_holds (h : Laid p.stride p.pages) {page : Page} (hpage : page ∈ p.pages)
    (hholds : page.Holds a) : p.numaNodeOf a = .ok (some page.numaNode) := by
  obtain ⟨k, hk⟩ := List.getElem?_of_mem hpage
  unfold numaNodeOf
  rw [h.findPage_eq hk hholds]
  rfl

theorem numaNodeOf_of_not_holds (h : Laid p.stride p.pages)
    (hout : ∀ page ∈ p.pages, ¬page.Holds a) : p.numaNodeOf a = .ok none := by
  unfold numaNodeOf
  rw [h.findPage_eq_none hout]
  rfl

end Pool

namespace SlotCache

variable {α : Type} {p : Pool α} {k : Nat} {i : Fin slotsPerPage} {a : Address}

/-- A cache with room keeps any slot of its pool. -/
theorem free_of_slotOf (h : Laid p.stride p.pages) (hslot : p.slotOf k i = some a)
    {c : SlotCache} (hroom : c.slots.length ≠ c.capacity) :
    c.free p a = .pure (p, { c with slots := a :: c.slots }) (.ok ()) := by
  obtain ⟨page, hk, rfl⟩ := Pool.slotOf_eq_some_iff.mp hslot
  unfold free
  rw [if_neg hroom, Pool.locate_slot h hk i]

/-- A full cache leaves the pointer to the pool. -/
theorem free_of_full {c : SlotCache} (hfull : c.slots.length = c.capacity) :
    c.free p a = (p.deallocate a).lift fun q => (q, c) := by
  unfold free
  rw [if_pos hfull]

/-- Full or not, a cache refuses what its pool refuses. -/
theorem free_of_forall_ne (h : Laid p.stride p.pages) (hnone : ∀ k i, p.slotOf k i ≠ some a)
    (c : SlotCache) : c.free p a = .pure (p, c) (.error .unknownPointer) := by
  by_cases hfull : c.slots.length = c.capacity
  · rw [free_of_full hfull, Pool.deallocate_of_forall_ne h hnone]
    rfl
  · unfold free
    rw [if_neg hfull, Pool.locate_of_forall_ne h hnone]

/-- Nothing else is refused by a cache. -/
theorem free_unknown_iff (h : Laid p.stride p.pages) (c : SlotCache) :
    (c.free p a).result = .ok (.error .unknownPointer) ↔ ∀ k i, p.slotOf k i ≠ some a := by
  refine ⟨fun hrefused k i hslot => ?_, fun hnone => by rw [free_of_forall_ne h hnone]; rfl⟩
  by_cases hfull : c.slots.length = c.capacity
  · rw [free_of_full hfull] at hrefused
    cases htaken : p.isTaken k i with
    | true =>
      rw [Pool.deallocate_of_taken h hslot htaken] at hrefused
      cases hrefused
    | false =>
      rw [Pool.deallocate_of_free h hslot htaken] at hrefused
      cases hrefused
  · rw [free_of_slotOf h hslot hfull] at hrefused
    cases hrefused

end SlotCache

/-- What becomes of any pointer that is given back to a pool or to one of its caches. -/
structure Pool.ReleasesExactly {α : Type} (p : Pool α) : Prop where
  /-- The pointer is that of one slot, or of none. -/
  unique : ∀ k k' i j a, p.slotOf k i = some a → p.slotOf k' j = some a → k = k' ∧ i = j
  /-- The mark of a slot that is handed out is cleared, and no other one. -/
  taken : ∀ k i a, p.slotOf k i = some a → p.isTaken k i = true →
    p.deallocate a = .pure (p.remark k i false) (.ok ()) ∧
      ∀ k' j, (p.remark k i false).isTaken k' j = (p.isTaken k' j && (k, i) != (k', j))
  /-- For a slot that is not handed out the call stops, with all marks as they were. -/
  free : ∀ k i a, p.slotOf k i = some a → p.isTaken k i = false →
    p.deallocate a = .fail p .slotFreedTwice
  /-- Any other pointer is refused, with all marks as they were. -/
  unknown : ∀ a, (∀ k i, p.slotOf k i ≠ some a) → p.deallocate a = .pure p (.error .unknownPointer)
  /-- The lookup of a page does not stop. -/
  lookup : ∀ a, ∃ found, findPage p.pages a = .ok found
  /-- In the page that it finds, the offset of the pointer leads to one of the marks. -/
  offset : ∀ a k page, findPage p.pages a = .ok (some (k, page)) →
    page.base ≤ a ∧ 0 < page.stride ∧ (a - page.base) / page.stride < slotsPerPage
  /-- Every address of a page has its node, and no other address has one. -/
  inside : ∀ a, ∀ page ∈ p.pages, page.Holds a → p.numaNodeOf a = .ok (some page.numaNode)
  outside : ∀ a, (∀ page ∈ p.pages, ¬page.Holds a) → p.numaNodeOf a = .ok none
  /-- A cache refuses a pointer just when the pool does, be it full or not. -/
  cacheUnknown : ∀ (c : SlotCache) a, (c.free p a).result = .ok (.error .unknownPointer) ↔
    ∀ k i, p.slotOf k i ≠ some a
  cacheRefuses : ∀ (c : SlotCache) a, (∀ k i, p.slotOf k i ≠ some a) →
    c.free p a = .pure (p, c) (.error .unknownPointer)
  /-- It keeps a slot as long as there is room, and leaves it to the pool when there is none. -/
  cacheKeeps : ∀ (c : SlotCache) k i a, p.slotOf k i = some a → c.slots.length ≠ c.capacity →
    c.free p a = .pure (p, { c with slots := a :: c.slots }) (.ok ())
  cacheFull : ∀ (c : SlotCache) a, c.slots.length = c.capacity →
    c.free p a = (p.deallocate a).lift fun q => (q, c)
  /-- A slot that was just handed out can be given back, and then the pool is what it was. -/
  restores : ∀ q a, p.take = some (q, a) → q.deallocate a = .pure p (.ok ())

/-- Pages that are laid out well decide about every pointer. -/
theorem Laid.releasesExactly {α : Type} {p : Pool α} (h : Laid p.stride p.pages) :
    p.ReleasesExactly where
  unique _ _ _ _ _ := Pool.slotOf_inj h
  taken k i _ hslot htaken := by
    refine ⟨Pool.deallocate_of_taken h hslot htaken, fun k' j => ?_⟩
    rw [Pool.isTaken_remark, Bool.false_and]
    split
    · next heq => rw [heq, bne_self_eq_false, Bool.and_false]
    · next hne => rw [bne_iff_ne.mpr hne, Bool.and_true]
  free _ _ _ := Pool.deallocate_of_free h
  unknown _ := Pool.deallocate_of_forall_ne h
  lookup a := by
    obtain ⟨_, _, _, _, hfind⟩ | ⟨_, hfind⟩ := h.findPage_cases a <;> exact ⟨_, hfind⟩
  offset a k page hfound := by
    obtain ⟨k', page', hk, hholds, hfind⟩ | ⟨_, hfind⟩ := h.findPage_cases a
    · cases hfind.symm.trans hfound
      exact ⟨hholds.1, h.page_stride_pos (List.mem_of_getElem? hk), hholds.div_lt⟩
    · cases hfind.symm.trans hfound
  inside _ _ hpage := Pool.numaNodeOf_of_holds h hpage
  outside _ := Pool.numaNodeOf_of_not_holds h
  cacheUnknown c _ := SlotCache.free_unknown_iff h c
  cacheRefuses c _ hnone := SlotCache.free_of_forall_ne h hnone c
  cacheKeeps _ _ _ _ hslot := SlotCache.free_of_slotOf h hslot
  cacheFull _ _ := SlotCache.free_of_full
  restores _ _ := Pool.deallocate_of_take h

namespace PoolLife

variable {α : Type} [Allocator α] {start : Option α} {others : Nat} {layout : PoolLayout}
  {moves : List (Move α)} {depot : Depot (Lender α)} {peak : Nat} {p : Pool (Lender α)}

/-- Whatever has been done with a pool, wherever its pages lie as long as they do not overlap, and
whatever marks are on them: every pointer has one of three outcomes. -/
theorem releasesExactly_run
    (h : ((create start others layout).run moves).stage = .living depot peak)
    (hmarks : depot.pool.Remarks p) (hplaced : Placed p.pages) : p.ReleasesExactly :=
  (((sound_of_run h).cut.remarks hmarks).laid hplaced).releasesExactly

/-- Slots of 40 bytes, of which the one in the middle was given back. -/
theorem releasesExactly_hole :
    let life := (create (some ({} : HostHeap)) 1 { slotSize := 40, slotAlign := 8 }).run
      [.call (.batch 3), .call (.free (1 <<< 46 + 40))]
    ∃ depot peak, life.stage = .living depot peak ∧ depot.pool.Remarks depot.pool ∧
      Placed depot.pool.pages ∧ depot.pool.occupancy = 2 ∧ depot.pool.ReleasesExactly := by
  intro life
  obtain ⟨depot, peak, hstage, hinside, hapart, htwo⟩ : ∃ depot peak,
      life.stage = .living depot peak ∧
      (∀ page ∈ depot.pool.pages, page.base + page.bytes ≤ maxWord) ∧
      depot.pool.pages.Pairwise (fun p q => p.base + p.bytes ≤ q.base ∨ q.base + q.bytes ≤ p.base) ∧
      depot.pool.occupancy = 2 :=
    ⟨_, _, rfl, by decide +kernel, by decide +kernel, by decide +kernel⟩
  exact ⟨depot, peak, hstage, .refl _, ⟨hinside, hapart⟩, htwo,
    releasesExactly_run hstage (.refl _) ⟨hinside, hapart⟩⟩

end PoolLife

end HazardFlow
