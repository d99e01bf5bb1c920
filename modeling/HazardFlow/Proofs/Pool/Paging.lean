import HazardFlow.Memory.SlotCache
import HazardFlow.Proofs.Pool.Backing

/-!
# How many pages a pool has

A pool takes a page from its allocator only when every slot of its pages is handed out, and gives
none back while it lives. So it has as many pages as the most slots that were ever handed out at a
time need. Nothing is assumed of the allocator or of the pointers that callers name: a call may be
refused or stop with a fault, and still leaves every page where it was.
-/

namespace HazardFlow

namespace Page

theorem occupancy_le (p : Page) : p.occupancy ≤ slotsPerPage := Vector.count_le_size

/-- A page without a free slot is full. -/
theorem occupancy_of_claim_none {p : Page} (h : p.claim = none) : p.occupancy = slotsPerPage := by
  unfold claim firstFree at h
  rw [Option.map_eq_none_iff, Vector.findFinIdx?_eq_none_iff] at h
  refine Vector.count_eq_size.mpr fun taken htaken => ?_
  simpa using h taken htaken

/-- A new page has handed out its first slot, or nothing. -/
theorem occupancy_fresh (base : Address) (numaNode stride : Nat) (taken : Bool) :
    (Page.mk base ((Vector.replicate slotsPerPage false).set 0 taken (by decide)) numaNode
      stride).occupancy = if taken then 1 else 0 := by
  unfold occupancy
  rw [Vector.count_set, Vector.count_replicate]
  cases taken <;> rfl

end Page

/-- The page that is found is one of the pages. -/
theorem getElem?_of_findPage {pages : List Page} {a : Address} {k : Nat} {page : Page}
    (h : findPage pages a = .ok (some (k, page))) : pages[k]? = some page := by
  induction pages generalizing k with
  | nil => cases h
  | cons first rest ih =>
    unfold findPage at h
    split at h
    · cases h
    · cases h
      rfl
    · cases hrest : findPage rest a with
      | error fault =>
        rw [hrest] at h
        cases h
      | ok found =>
        rw [hrest] at h
        cases found with
        | none => cases h
        | some entry =>
          cases h
          exact ih hrest

namespace Pool

variable {α : Type} {p q : Pool α} {a : Address}

/-- No more slots are handed out than there are. -/
theorem occupancy_le (p : Pool α) : p.occupancy ≤ slotsPerPage * p.pages.length := by
  cases p with
  | mk allocator layout pages log =>
    induction pages with
    | nil => exact Nat.le_refl 0
    | cons page rest ih =>
      have hpage := page.occupancy_le
      rw [List.length_cons, Nat.mul_succ, Nat.add_comm]
      exact Nat.add_le_add hpage ih

/-- All slots are handed out when none can be taken. -/
theorem occupancy_of_take_none (h : p.take = none) :
    p.occupancy = slotsPerPage * p.pages.length := by
  cases p with
  | mk allocator layout pages log =>
    replace h : claimFirst pages = none := Option.map_eq_none_iff.mp h
    induction pages with
    | nil => rfl
    | cons page rest ih =>
      unfold claimFirst at h
      cases hclaim : page.claim with
      | some claimed =>
        rw [hclaim] at h
        cases h
      | none =>
        rw [hclaim] at h
        rw [List.length_cons, Nat.mul_succ, Nat.add_comm]
        exact congrArg₂ _ (Page.occupancy_of_claim_none hclaim) (ih (Option.map_eq_none_iff.mp h))

/-- A mark of one page is changed. -/
theorem remarks_mark {k : Nat} {page : Page} (hk : p.pages[k]? = some page)
    (i : Fin slotsPerPage) (taken : Bool) :
    p.Remarks { p with pages := p.pages.set k (page.mark i taken) } :=
  remarks_of_frames (frames_set hk (Page.frame_mark page i taken))

theorem remarks_take (h : p.take = some (q, a)) : p.Remarks q := by
  obtain ⟨⟨pages, slot⟩, hfirst, heq⟩ := Option.map_eq_some_iff.mp h
  obtain ⟨rfl, -⟩ := Prod.mk.inj heq
  obtain ⟨k, page, page', hk, hclaim, rfl, -⟩ := Laid.exists_claim_of_claimFirst hfirst
  obtain ⟨i, -, heq⟩ := Option.map_eq_some_iff.mp hclaim
  obtain ⟨rfl, -⟩ := Prod.mk.inj heq
  exact remarks_mark hk i true

theorem remarks_batch (p : Pool α) (n : Nat) : p.Remarks (p.batch n).1 := by
  induction n generalizing p with
  | zero => exact .refl p
  | succ n ih =>
    unfold batch
    cases htake : p.take with
    | none => exact .refl p
    | some taken => exact (remarks_take htake).trans (ih taken.1)

/-- A batch of no slots has changed nothing. -/
theorem batch_eq {n : Nat} (h : (p.batch n).2 = []) : p.batch n = (p, []) := by
  cases n with
  | zero => rfl
  | succ n =>
    unfold batch at h ⊢
    cases htake : p.take with
    | none => rfl
    | some taken =>
      rw [htake] at h
      cases h

/-- The slot that an address leads to is one of a page of the pool. -/
theorem getElem?_of_locate {k : Nat} {page : Page} {i : Fin slotsPerPage}
    (h : p.locate a = .ok (.ok (k, page, i))) : p.pages[k]? = some page := by
  unfold locate at h
  cases hfind : findPage p.pages a with
  | error fault =>
    rw [hfind] at h
    cases h
  | ok found =>
    rw [hfind] at h
    cases found with
    | none => cases h
    | some entry =>
      dsimp only [Except.map] at h
      cases hslot : entry.2.slotAt a with
      | none =>
        rw [hslot] at h
        cases h
      | some slot =>
        rw [hslot] at h
        cases h
        exact getElem?_of_findPage hfind

/-- A slot is taken back, or the call is refused, or it stops. -/
theorem remarks_deallocate (p : Pool α) (a : Address) : p.Remarks (p.deallocate a).state := by
  unfold deallocate
  split
  · exact .refl p
  · exact .refl p
  · next place page slot hlocate =>
    have hmark := remarks_mark (getElem?_of_locate hlocate) slot false
    dsimp only
    split <;> exact hmark

end Pool

namespace SlotCache

variable {α : Type} {p : Pool α} {c : SlotCache}

theorem remarks_giveBack (p : Pool α) (slots : List Address) :
    p.Remarks (giveBack p slots).state := by
  induction slots generalizing p with
  | nil => exact .refl p
  | cons a rest ih =>
    have hfirst := p.remarks_deallocate a
    unfold giveBack Outcome.bind
    split
    · dsimp only
      split
      · exact hfirst.trans (ih _)
      · exact hfirst
    · exact hfirst

theorem remarks_flush (c : SlotCache) (p : Pool α) : p.Remarks (c.flush p).state.1 :=
  remarks_giveBack p _

theorem remarks_free (c : SlotCache) (p : Pool α) (a : Address) :
    p.Remarks (c.free p a).state.1 := by
  unfold free
  split
  · exact p.remarks_deallocate a
  · split <;> exact .refl p

theorem remarks_refill (c : SlotCache) (p : Pool α) : p.Remarks (c.refill p).1 := by
  unfold refill
  split
  · exact p.remarks_batch c.capacity
  · exact .refl p

/-- A refill that fills nothing in has changed nothing. -/
theorem refill_eq (h : (c.refill p).2.slots = []) : c.refill p = (p, c) := by
  unfold refill at h ⊢
  split
  · next hempty =>
    rw [if_pos hempty] at h
    have hbatch := Pool.batch_eq (List.reverse_eq_nil_iff.mp h)
    have hslots := List.isEmpty_iff.mp hempty
    rw [hbatch]
    cases c with
    | mk slots capacity =>
      obtain rfl : slots = [] := hslots
      rfl
  · rfl

end SlotCache

namespace Pool

variable {α : Type} [Allocator α] {p q r : Pool α} {cause : AllocError}

/-- The one request that a pool makes of its allocator: for all the slots of a page. -/
def request (p : Pool α) : α × Except AllocError Address :=
  Allocator.allocate p.allocator (slotsPerPage * p.stride) p.layout.placement p.layout.slotAlign

/-- The allocator may be asked for a page. -/
def Fits (p : Pool α) : Prop := slotsPerPage * p.stride ≤ maxWord

/-- A page that no word can measure is not asked for. -/
theorem grow_of_not_fits (hfits : ¬p.Fits) (taken : Bool) :
    p.grow taken = (p, .error (.outOfMemory maxWord)) := by
  unfold Fits at hfits
  unfold grow
  dsimp only
  rw [Nat.mul_comm, if_pos (Nat.lt_of_not_le hfits)]

/-- What becomes of a request for a page. -/
theorem grow_eq (hfits : p.Fits) (taken : Bool) :
    (∃ asked cause, p.request = (asked, .error cause) ∧
      p.grow taken = ({ p with allocator := asked }, .error cause)) ∨
    ∃ q page, p.request = (q.allocator, .ok page.base) ∧ p.grow taken = (q, .ok page) ∧
      q.layout = p.layout ∧ q.pages = page :: p.pages ∧
      page.occupancy = if taken then 1 else 0 := by
  have hsize : ¬maxWord < p.stride * slotsPerPage := by
    rw [Nat.mul_comm]
    exact Nat.not_lt.mpr hfits
  unfold grow request
  rw [Nat.mul_comm slotsPerPage]
  dsimp only
  rw [if_neg hsize]
  split
  · next heq => exact .inl ⟨_, _, heq, rfl⟩
  · next heq => exact .inr ⟨_, _, heq, rfl, rfl, rfl, Page.occupancy_fresh ..⟩

/-- What a call may do to a pool. -/
inductive Turns (p q : Pool α) : Prop
  /-- Pages stay as they are, but for their marks. -/
  | remarked (h : p.Remarks q)
  /-- All slots were handed out. A page joins the others, and its first slot is handed out. -/
  | grown (hfull : p.occupancy = slotsPerPage * p.pages.length) {page : Page}
    (hrequest : p.request = (q.allocator, .ok page.base)) (hlayout : q.layout = p.layout)
    (hpages : q.pages = page :: p.pages) (hfirst : page.occupancy = 1)
  /-- The allocator refused a page, and nothing else has changed. -/
  | refused {cause : AllocError} (hrequest : p.request = (q.allocator, .error cause))
    (hsame : q = { p with allocator := q.allocator })

/-- A request for a slot fails when all slots are handed out and the allocator refuses a page, with
what the allocator says. Nothing else has changed then. -/
theorem allocate_eq_error_iff (hfits : p.Fits) : p.allocate = (q, .error cause) ↔
    p.take = none ∧ p.request = (q.allocator, .error cause) ∧
      q = { p with allocator := q.allocator } := by
  unfold allocate
  cases htake : p.take with
  | some taken => exact iff_of_false nofun nofun
  | none =>
    obtain ⟨asked, cause', hrequest, hgrow⟩ | ⟨r, page, hrequest, hgrow, -⟩ := grow_eq hfits true
    · rw [hgrow, hrequest]
      constructor
      · intro hanswer
        obtain ⟨rfl, hcause⟩ := Prod.mk.inj hanswer
        obtain rfl := Except.error.inj hcause
        exact ⟨rfl, rfl, rfl⟩
      · rintro ⟨-, hasked, hsame⟩
        obtain ⟨rfl, hcause⟩ := Prod.mk.inj hasked
        obtain rfl := Except.error.inj hcause
        rw [hsame]
        rfl
    · rw [hgrow, hrequest]
      exact iff_of_false nofun fun hasked => nomatch (Prod.mk.inj hasked.2.1).2

/-- How a pool comes to hand out a slot. -/
inductive Grants (p q : Pool α) (a : Address) : Prop
  /-- Its pages have one, and no page is asked for. -/
  | taken (htake : p.take = some (q, a)) (hremarks : p.Remarks q)
  /-- They have none. A page joins the others, and its first slot is handed out. -/
  | grown (hnone : p.take = none) {page : Page} (hrequest : p.request = (q.allocator, .ok a))
    (hlayout : q.layout = p.layout) (hpages : q.pages = page :: p.pages) (hbase : page.base = a)
    (hfirst : page.occupancy = 1)

theorem grants_of_allocate {a : Address} (hfits : p.Fits) (h : p.allocate = (q, .ok a)) :
    p.Grants q a := by
  unfold allocate at h
  cases htake : p.take with
  | some taken =>
    rw [htake] at h
    cases h
    exact .taken htake (remarks_take htake)
  | none =>
    rw [htake] at h
    obtain ⟨asked, cause, hrequest, hgrow⟩ | ⟨r, page, hrequest, hgrow, hlayout, hpages, hfirst⟩ :=
      grow_eq hfits true
    · rw [hgrow] at h
      cases h
    · rw [hgrow] at h
      obtain ⟨rfl, hslot⟩ := Prod.mk.inj h
      obtain rfl : page.base = a := page.slot_zero.symm.trans (Except.ok.inj hslot)
      exact .grown htake hrequest hlayout hpages rfl hfirst

/-- What a request for a slot does. -/
theorem turns_allocate (hfits : p.Fits) : p.Turns p.allocate.1 := by
  cases hanswer : p.allocate.2 with
  | error cause =>
    obtain ⟨-, hrequest, hsame⟩ := (allocate_eq_error_iff hfits).mp (Prod.ext rfl hanswer)
    exact .refused hrequest hsame
  | ok a =>
    cases grants_of_allocate hfits (Prod.ext rfl hanswer) with
    | taken _ hremarks => exact .remarked hremarks
    | grown hnone hrequest hlayout hpages hbase hfirst =>
      exact .grown (occupancy_of_take_none hnone) (hbase ▸ hrequest) hlayout hpages hfirst

end Pool

namespace SlotCache

variable {α : Type} [Allocator α] {p q : Pool α} {c d : SlotCache} {cause : AllocError}

/-- A cache that has been emptied and cannot be refilled asks the pool. -/
theorem allocate_of_empty (hslots : c.slots = []) (htake : p.take = none) :
    c.allocate p = (p.allocate.1, c, p.allocate.2) := by
  have hbatch : (p.batch c.capacity).2 = [] := by
    unfold Pool.batch
    split
    · rfl
    · rw [htake]
  have hrefill : c.refill p = (p, c) := by
    refine refill_eq ?_
    unfold refill
    split
    · exact List.reverse_eq_nil_iff.mpr hbatch
    · exact hslots
  unfold allocate
  rw [hrefill]
  dsimp only
  rw [hslots]

/-- A cache takes no page while it keeps a slot, or the pool has one. -/
theorem exists_allocate_of_kept (h : c.slots = [] → p.take ≠ none) :
    ∃ q d a, c.allocate p = (q, d, .ok a) ∧ p.Remarks q := by
  have hrefill := c.remarks_refill p
  have heq := refill_eq (c := c) (p := p)
  unfold allocate
  generalize c.refill p = refilled at hrefill heq
  obtain ⟨r, c'⟩ := refilled
  dsimp only at hrefill heq ⊢
  split
  · exact ⟨_, _, _, rfl, hrefill⟩
  -- The cache is still empty, so the refill has left the pool as it was.
  · next hslots =>
    obtain ⟨rfl, rfl⟩ := Prod.mk.inj (heq hslots)
    obtain ⟨taken, htake⟩ := Option.ne_none_iff_exists'.mp (h hslots)
    unfold Pool.allocate
    rw [htake]
    exact ⟨_, _, _, rfl, Pool.remarks_take htake⟩

/-- What a request for a slot does that is made of a cache. -/
theorem turns_allocate (hfits : p.Fits) (c : SlotCache) : p.Turns (c.allocate p).1 := by
  by_cases hdry : c.slots = [] ∧ p.take = none
  · rw [allocate_of_empty hdry.1 hdry.2]
    exact Pool.turns_allocate hfits
  · obtain ⟨q, d, a, heq, hremarks⟩ := exists_allocate_of_kept fun hslots htake =>
      hdry ⟨hslots, htake⟩
    rw [heq]
    exact .remarked hremarks

/-- A cache hands out a slot that it keeps or that its pool has. When there is none, it is the pool
that hands one out. -/
theorem grants_of_allocate {a : Address} (hfits : p.Fits) (h : c.allocate p = (q, d, .ok a)) :
    (c.slots = [] → p.take ≠ none) ∧ p.Remarks q ∨
      c.slots = [] ∧ p.take = none ∧ p.Grants q a ∧ d = c := by
  by_cases hdry : c.slots = [] ∧ p.take = none
  · rw [allocate_of_empty hdry.1 hdry.2] at h
    obtain ⟨hpool, hrest⟩ := Prod.mk.inj h
    obtain ⟨rfl, hanswer⟩ := Prod.mk.inj hrest
    exact .inr ⟨hdry.1, hdry.2, Pool.grants_of_allocate hfits (Prod.ext hpool hanswer), rfl⟩
  · have hkept : c.slots = [] → p.take ≠ none := fun hslots htake => hdry ⟨hslots, htake⟩
    obtain ⟨q', d', a', heq, hremarks⟩ := exists_allocate_of_kept hkept
    cases heq.symm.trans h
    exact .inl ⟨hkept, hremarks⟩

/-- A cache hands out no slot when it keeps none, the pool has none, and the allocator refuses a
page. Nothing else has changed then. -/
theorem allocate_eq_error_iff (hfits : p.Fits) : c.allocate p = (q, d, .error cause) ↔
    c.slots = [] ∧ p.take = none ∧ p.request = (q.allocator, .error cause) ∧
      q = { p with allocator := q.allocator } ∧ d = c := by
  constructor
  · intro hanswer
    by_cases hdry : c.slots = [] ∧ p.take = none
    · rw [allocate_of_empty hdry.1 hdry.2] at hanswer
      obtain ⟨hpool, hrest⟩ := Prod.mk.inj hanswer
      obtain ⟨rfl, hcause⟩ := Prod.mk.inj hrest
      obtain ⟨htake, hrequest, hsame⟩ :=
        (Pool.allocate_eq_error_iff hfits).mp (Prod.ext hpool hcause)
      exact ⟨hdry.1, htake, hrequest, hsame, rfl⟩
    · obtain ⟨q', d', a, heq, -⟩ := exists_allocate_of_kept fun hslots htake =>
        hdry ⟨hslots, htake⟩
      cases heq.symm.trans hanswer
  · rintro ⟨hslots, htake, hrequest, hsame, rfl⟩
    rw [allocate_of_empty hslots htake,
      (Pool.allocate_eq_error_iff hfits).mpr ⟨htake, hrequest, hsame⟩]

end SlotCache

namespace Pool

variable {α : Type} {p q : Pool α} {peak : Nat}

/-- A pool has the pages that it needed when it had handed out the most slots. -/
structure Sized (p : Pool α) (peak : Nat) : Prop where
  reached : p.occupancy ≤ peak
  room : peak ≤ slotsPerPage * p.pages.length
  pos : 0 < p.pages.length
  needed : 1 < p.pages.length → slotsPerPage * (p.pages.length - 1) < peak

/-- One page, or as many as there must be for the slots handed out at the most. -/
theorem Sized.length_eq (h : p.Sized peak) :
    p.pages.length = max 1 ((peak + (slotsPerPage - 1)) / slotsPerPage) := by
  obtain ⟨-, hroom, hpos, hneeded⟩ := h
  unfold slotsPerPage at *
  omega

/-- No call makes a pool larger than it has to be. -/
theorem Sized.turns [Allocator α] (h : p.Sized peak) (hturns : p.Turns q) :
    q.Sized (max peak q.occupancy) := by
  have hroom := q.occupancy_le
  obtain ⟨-, hpeak, hpos, hneeded⟩ := h
  -- With the pages that there were, a higher peak only makes the last one needed all the more.
  have hsame (hlength : q.pages.length = p.pages.length) : q.Sized (max peak q.occupancy) := by
    rw [hlength] at hroom
    refine ⟨Nat.le_max_right .., ?_, by rwa [hlength], ?_⟩
    · rw [hlength]
      exact Nat.max_le.mpr ⟨hpeak, hroom⟩
    · rw [hlength]
      exact fun hmore => Nat.lt_of_lt_of_le (hneeded hmore) (Nat.le_max_left ..)
  cases hturns with
  | remarked h => exact hsame (by simpa using congrArg List.length h.frames)
  | refused _ heq => exact hsame (by rw [heq])
  | @grown hfull page _ _ hpages hfirst =>
    have hlength : q.pages.length = p.pages.length + 1 := by
      rw [hpages, List.length_cons]
    -- All slots of the other pages are handed out, and one of the new page.
    have hmore : q.occupancy = slotsPerPage * p.pages.length + 1 := by
      rw [← hfull, Nat.add_comm, ← hfirst]
      unfold occupancy
      rw [hpages, List.foldr_cons]
    refine ⟨Nat.le_max_right .., ?_, by rw [hlength]; exact Nat.succ_pos _, fun _ => ?_⟩
    · rw [hlength, Nat.mul_succ] at hroom ⊢
      exact Nat.max_le.mpr ⟨Nat.le_trans hpeak (Nat.le_add_right ..), hroom⟩
    · rw [hlength, Nat.add_sub_cancel, hmore]
      exact Nat.lt_of_lt_of_le (Nat.lt_succ_self _) (Nat.le_max_right ..)

end Pool

end HazardFlow
