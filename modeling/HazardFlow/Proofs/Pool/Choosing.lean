import HazardFlow.Proofs.Pool.Cutting

/-!
# Which slots are handed out

A request takes the first free place: on the newest page that has a free slot, the free slot with
the lowest number. A batch is a row of such requests that stops at the first one without an answer,
and a cache that has run dry is refilled by a batch. How many slots that gives is what is free, for
every pattern of marks and for every count.
-/

namespace HazardFlow

namespace Page

variable {p : Page} {i j : Fin slotsPerPage}

/-- The slots before the first free one are handed out. -/
theorem get_of_lt_firstFree (h : p.firstFree = some i) (hj : j < i) :
    p.occupied.get j = true := by
  have harray : p.occupied.toArray.findFinIdx? (!·) = _ := Vector.findFinIdx?_toArray
  unfold firstFree at h
  rw [h, Option.map_some] at harray
  have hbefore := (Array.findFinIdx?_eq_some_iff.mp harray).2
    (j.cast p.occupied.size_toArray.symm) hj
  rw [Bool.not_eq_true, Bool.not_eq_false'] at hbefore
  exact hbefore

/-- All slots of a page without a free one are handed out. -/
theorem get_of_claim_none (h : p.claim = none) (i : Fin slotsPerPage) :
    p.occupied.get i = true := by
  unfold claim firstFree at h
  rw [Option.map_eq_none_iff, Vector.findFinIdx?_eq_none_iff] at h
  have hi := h p.occupied[i.val] (Vector.getElem_mem i.isLt)
  rwa [Bool.not_eq_true, Bool.not_eq_false'] at hi

/-- One more slot is handed out. -/
theorem occupancy_mark (h : p.occupied.get i = false) :
    (p.mark i true).occupancy = p.occupancy + 1 := by
  have hi : p.occupied[i.val] = false := h
  unfold occupancy mark
  rw [Vector.count_set, hi]
  rfl

end Page

/-- Pages give no slot when none of them does. -/
theorem claim_of_claimFirst_none {pages : List Page} {page : Page} (h : claimFirst pages = none)
    (hpage : page ∈ pages) : page.claim = none := by
  induction pages with
  | nil => cases hpage
  | cons first rest ih =>
    unfold claimFirst at h
    cases hclaim : first.claim with
    | some claimed =>
      rw [hclaim] at h
      cases h
    | none =>
      rw [hclaim] at h
      obtain rfl | hrest := List.mem_cons.mp hpage
      · exact hclaim
      · exact ih (Option.map_eq_none_iff.mp h) hrest

namespace Pool

variable {α : Type} {p q : Pool α} {k k' : Nat} {i j : Fin slotsPerPage} {a : Address}

/-- A free place, with all slots of lower numbers on its page handed out and all slots of newer
pages. -/
structure FirstFree (p : Pool α) (k : Nat) (i : Fin slotsPerPage) : Prop where
  isFree : p.isTaken k i = false
  lower : ∀ j < i, p.isTaken k j = true
  newer : ∀ k' < k, ∀ j, p.isTaken k' j = true

/-- There is one first free place at most. -/
theorem FirstFree.unique (h : p.FirstFree k i) (h' : p.FirstFree k' j) : k = k' ∧ i = j := by
  have hpage : k = k' := by
    obtain hlt | heq | hgt := Nat.lt_trichotomy k k'
    · exact absurd (h'.newer k hlt i) (by simp [h.isFree])
    · exact heq
    · exact absurd (h.newer k' hgt j) (by simp [h'.isFree])
  subst hpage
  obtain hlt | heq | hgt := lt_trichotomy i j
  · exact absurd (h'.lower i hlt) (by simp [h.isFree])
  · exact ⟨rfl, heq⟩
  · exact absurd (h.lower j hgt) (by simp [h'.isFree])

/-- The slot that is taken is at the first free place, and marked there. -/
theorem exists_firstFree_of_take (h : p.take = some (q, a)) :
    ∃ k i, p.slotOf k i = some a ∧ p.FirstFree k i ∧ q = p.remark k i true := by
  obtain ⟨⟨pages, slot⟩, hfirst, heq⟩ := Option.map_eq_some_iff.mp h
  obtain ⟨rfl, rfl⟩ := Prod.mk.inj heq
  obtain ⟨k, page, page', hk, hclaim, rfl, hearlier⟩ := Laid.exists_claim_of_claimFirst hfirst
  obtain ⟨i, hi, heq⟩ := Option.map_eq_some_iff.mp hclaim
  obtain ⟨rfl, rfl⟩ := Prod.mk.inj heq
  refine ⟨k, i, slotOf_eq_some_iff.mpr ⟨page, hk, rfl⟩, ⟨?_, fun j hj => ?_, fun k' hk' j => ?_⟩,
    (remark_eq hk).symm⟩
  · rw [isTaken_eq hk, Page.get_firstFree hi]
  · rw [isTaken_eq hk, Page.get_of_lt_firstFree hi hj]
  · have hlt : k' < p.pages.length := Nat.lt_trans hk' (List.getElem?_eq_some_iff.mp hk).1
    rw [isTaken_eq (List.getElem?_eq_getElem hlt)]
    exact Page.get_of_claim_none (hearlier _ (List.mem_take_iff_getElem.mpr ⟨k', by omega, rfl⟩)) j

/-- Every slot there is has been handed out when none can be taken. -/
theorem isTaken_of_take_none (h : p.take = none) (hslot : p.slotOf k i = some a) :
    p.isTaken k i = true := by
  obtain ⟨page, hk, -⟩ := slotOf_eq_some_iff.mp hslot
  rw [isTaken_eq hk]
  exact Page.get_of_claim_none (claim_of_claimFirst_none (Option.map_eq_none_iff.mp h)
    (List.mem_of_getElem? hk)) i

/-- A slot is taken just when it is at the first free place. -/
theorem take_eq_some_iff : p.take = some (q, a) ↔
    ∃ k i, p.slotOf k i = some a ∧ p.FirstFree k i ∧ q = p.remark k i true := by
  refine ⟨exists_firstFree_of_take, ?_⟩
  rintro ⟨k, i, hslot, hfirst, rfl⟩
  cases htake : p.take with
  | none => exact absurd (isTaken_of_take_none htake hslot) (by simp [hfirst.isFree])
  | some taken =>
    obtain ⟨r, b⟩ := taken
    obtain ⟨k', j, hslot', hfirst', rfl⟩ := exists_firstFree_of_take htake
    obtain ⟨rfl, rfl⟩ := hfirst.unique hfirst'
    rw [Option.some.inj (hslot.symm.trans hslot')]

/-- The slot at a free place is one more that is handed out. -/
theorem occupancy_remark (hslot : p.slotOf k i = some a) (hfree : p.isTaken k i = false) :
    (p.remark k i true).occupancy = p.occupancy + 1 := by
  cases p with
  | mk allocator layout pages log =>
    induction pages generalizing k with
    | nil => cases hslot
    | cons page rest ih =>
      cases k with
      | zero =>
        have hmark := Page.occupancy_mark (p := page) (i := i) hfree
        change (page.mark i true).occupancy + _ = page.occupancy + _ + 1
        rw [hmark, Nat.add_right_comm]
      | succ k => exact congrArg (page.occupancy + ·) (ih hslot hfree)

theorem occupancy_take (h : p.take = some (q, a)) : q.occupancy = p.occupancy + 1 := by
  obtain ⟨k, i, hslot, hfirst, rfl⟩ := exists_firstFree_of_take h
  exact occupancy_remark hslot hfirst.isFree

theorem length_pages_of_remarks (h : p.Remarks q) : q.pages.length = p.pages.length := by
  simpa using congrArg List.length h.frames

/-- No slot can be taken just when all are handed out. -/
theorem take_eq_none_iff : p.take = none ↔ p.occupancy = slotsPerPage * p.pages.length := by
  refine ⟨occupancy_of_take_none, fun hfull => ?_⟩
  cases htake : p.take with
  | none => rfl
  | some taken =>
    obtain ⟨q, a⟩ := taken
    have hmore := occupancy_take htake
    have hroom := q.occupancy_le
    rw [length_pages_of_remarks (remarks_take htake)] at hroom
    omega

/-- Makes so many requests in turn, whether there are slots left or not, and notes what each is
answered. -/
def requests (p : Pool α) : Nat → Pool α × List (Option Address)
  | 0 => (p, [])
  | n + 1 =>
    match p.take with
    | none => ((p.requests n).1, none :: (p.requests n).2)
    | some (q, a) => ((q.requests n).1, some a :: (q.requests n).2)

/-- Requests of a pool without a free slot are in vain. -/
theorem requests_of_take_none (h : p.take = none) (n : Nat) :
    p.requests n = (p, List.replicate n none) := by
  induction n with
  | zero => rfl
  | succ n ih =>
    unfold requests
    rw [h, List.replicate_succ]
    dsimp only
    rw [ih]

/-- A batch hands out what as many requests do, and the requests after it are in vain. -/
theorem requests_eq_batch (p : Pool α) (n : Nat) : p.requests n = ((p.batch n).1,
    (p.batch n).2.map some ++ List.replicate (n - (p.batch n).2.length) none) := by
  induction n generalizing p with
  | zero => rfl
  | succ n ih =>
    cases htake : p.take with
    | none =>
      rw [requests_of_take_none htake]
      unfold batch
      rw [htake]
      rfl
    | some taken =>
      unfold requests batch
      rw [htake]
      dsimp only
      rw [ih taken.1, List.map_cons, List.length_cons, Nat.add_sub_add_right, List.cons_append]

/-- Each slot of a batch is one more that is handed out. -/
theorem occupancy_batch (p : Pool α) (n : Nat) :
    (p.batch n).1.occupancy = p.occupancy + (p.batch n).2.length := by
  induction n generalizing p with
  | zero => rfl
  | succ n ih =>
    unfold batch
    cases htake : p.take with
    | none => rfl
    | some taken =>
      dsimp only
      rw [ih taken.1, occupancy_take htake, List.length_cons]
      omega

/-- A batch has the slots asked for, or all that are free. -/
theorem length_batch (p : Pool α) (n : Nat) :
    (p.batch n).2.length = min n (slotsPerPage * p.pages.length - p.occupancy) := by
  induction n generalizing p with
  | zero => exact (Nat.zero_min _).symm
  | succ n ih =>
    unfold batch
    cases htake : p.take with
    | none =>
      rw [take_eq_none_iff.mp htake, Nat.sub_self]
      exact (Nat.min_zero _).symm
    | some taken =>
      have hroom := taken.1.occupancy_le
      have hlength := ih taken.1
      rw [length_pages_of_remarks (remarks_take htake), occupancy_take htake] at hlength hroom
      rw [List.length_cons, hlength]
      omega

/-- A batch lists no slot twice. -/
theorem nodup_batch (h : Laid p.stride p.pages) (n : Nat) : (p.batch n).2.Nodup := by
  have hbacks : p.Backs (markedIn p.pages) := ⟨h, .refl _⟩
  exact (List.nodup_append'.mp (hbacks.batch n).2.1.nodup).1

end Pool

namespace SlotCache

variable {α : Type} [Allocator α] {p : Pool α} {c : SlotCache} {kept : List Address} {a : Address}

/-- A cache that has run dry hands out the last slot of a batch, and keeps the others. -/
theorem allocate_of_batch (hempty : c.slots = []) (h : (p.batch c.capacity).2 = kept ++ [a]) :
    c.allocate p = ((p.batch c.capacity).1, { c with slots := kept.reverse }, .ok a) := by
  have hrefill : c.refill p = ((p.batch c.capacity).1, { c with slots := a :: kept.reverse }) := by
    unfold refill
    rw [if_pos (List.isEmpty_iff.mpr hempty)]
    dsimp only
    rw [h, List.reverse_append]
    rfl
  unfold allocate
  rw [hrefill]

end SlotCache

/-- What is handed out of a pool, and through its caches. -/
structure Depot.AllocatesExactly {α : Type} [Allocator α] (t : Depot α) : Prop where
  /-- A request takes the slot at the first free place and marks it. -/
  take_iff : ∀ q a, t.pool.take = some (q, a) ↔ ∃ k i, t.pool.slotOf k i = some a ∧
    t.pool.FirstFree k i ∧ q = t.pool.remark k i true
  /-- It is not answered when there is no free slot. -/
  take_none_iff : t.pool.take = none ↔ t.pool.occupancy = slotsPerPage * t.pool.pages.length
  /-- A batch is as many requests, up to the first that is not answered. -/
  requests : ∀ n, t.pool.requests n = ((t.pool.batch n).1, (t.pool.batch n).2.map some ++
    List.replicate (n - (t.pool.batch n).2.length) none)
  length : ∀ n, (t.pool.batch n).2.length =
    min n (slotsPerPage * t.pool.pages.length - t.pool.occupancy)
  /-- It changes marks only, one for each slot. -/
  remarks : ∀ n, t.pool.Remarks (t.pool.batch n).1
  occupancy : ∀ n, (t.pool.batch n).1.occupancy = t.pool.occupancy + (t.pool.batch n).2.length
  /-- No slot is handed out twice, as long as the blocks of the allocator do not overlap. -/
  distinct : Placed t.pool.pages → ∀ n, (t.pool.batch n).2.Nodup
  /-- A cache that has run dry hands out the last slot of a batch and keeps the others. -/
  refilled : ∀ c, some c ∈ t.caches → c.slots = [] →
    t.pool.occupancy < slotsPerPage * t.pool.pages.length → ∃ kept a,
      (t.pool.batch c.capacity).2 = kept ++ [a] ∧ c.allocate t.pool =
        ((t.pool.batch c.capacity).1, { c with slots := kept.reverse }, .ok a)
  /-- When no slot is free it leaves the request to the pool. -/
  saturated : ∀ c, some c ∈ t.caches → c.slots = [] →
    t.pool.occupancy = slotsPerPage * t.pool.pages.length →
      c.allocate t.pool = (t.pool.allocate.1, c, t.pool.allocate.2)

/-- A cache with room gets a slot when there is one. -/
theorem Depot.Sound.exists_allocate {α : Type} [Allocator α] {t : Depot α} (h : t.Sound)
    {c : SlotCache} (hc : some c ∈ t.caches) (hempty : c.slots = [])
    (hfree : t.pool.occupancy < slotsPerPage * t.pool.pages.length) : ∃ kept a,
      (t.pool.batch c.capacity).2 = kept ++ [a] ∧ c.allocate t.pool =
        ((t.pool.batch c.capacity).1, { c with slots := kept.reverse }, .ok a) := by
  have hlength := t.pool.length_batch c.capacity
  have hroom := h.room c hc
  have hne : (t.pool.batch c.capacity).2 ≠ [] := by
    rw [← List.length_pos_iff, hlength]
    omega
  have hlast := (List.dropLast_concat_getLast hne).symm
  exact ⟨_, _, hlast, SlotCache.allocate_of_batch hempty hlast⟩

namespace PoolLife

variable {α : Type} [Allocator α] {start : Option α} {others : Nat} {layout : PoolLayout}
  {moves : List (Move α)} {depot : Depot (Lender α)} {peak : Nat}

/-- Whatever has been done with a pool and its caches, and whatever blocks the allocator has
answered: requests take the first free slot, and batches and caches agree with them. -/
theorem allocatesExactly_run
    (h : ((create start others layout).run moves).stage = .living depot peak) :
    depot.AllocatesExactly where
  take_iff _ _ := Pool.take_eq_some_iff
  take_none_iff := Pool.take_eq_none_iff
  requests := depot.pool.requests_eq_batch
  length := depot.pool.length_batch
  remarks := depot.pool.remarks_batch
  occupancy := depot.pool.occupancy_batch
  distinct hplaced := Pool.nodup_batch ((sound_of_run h).cut.laid hplaced)
  refilled _ hc := (sound_of_run h).exists_allocate hc
  saturated _ _ hempty hfull := SlotCache.allocate_of_empty hempty (Pool.take_eq_none_iff.mpr hfull)

/-- A slot that was given back between two others is the first of the next batch. -/
theorem allocatesExactly_hole :
    let life := (create (some ({} : HostHeap)) 1 { slotSize := 40, slotAlign := 8 }).run
      [.call (.batch 3), .call (.free (1 <<< 46 + 40)), .call .openCache]
    ∃ depot peak, life.stage = .living depot peak ∧
      (depot.pool.batch 2).2 = [1 <<< 46 + 40, 1 <<< 46 + 120] ∧ depot.AllocatesExactly := by
  intro life
  obtain ⟨depot, peak, hstage, hbatch⟩ : ∃ depot peak, life.stage = .living depot peak ∧
      (depot.pool.batch 2).2 = [1 <<< 46 + 40, 1 <<< 46 + 120] := ⟨_, _, rfl, by decide +kernel⟩
  exact ⟨depot, peak, hstage, hbatch, allocatesExactly_run hstage⟩

end PoolLife

end HazardFlow
