import HazardFlow.Proofs.Pool.Lending
import HazardFlow.Proofs.Pool.Returning

/-!
# Slots by their places

A slot is told by the place of its page in the chain and by its number there. Marks are read and
changed by these places, and a change of one mark shows at one place only. The pages of every pool
that can be reached are cut at the pool's own stride, whatever blocks the allocator answers, and
every cache of such a pool has room for a slot.
-/

namespace HazardFlow

namespace Page

variable {p : Page} {i : Fin slotsPerPage} {a : Address}

/-- An address lies in a page. -/
def Holds (p : Page) (a : Address) : Prop := p.base ≤ a ∧ a < p.base + p.bytes

instance (p : Page) (a : Address) : Decidable (p.Holds a) := inferInstanceAs (Decidable (_ ∧ _))

/-- A mark replaces the one before it. -/
@[simp] theorem mark_mark_eq (p : Page) (i : Fin slotsPerPage) (taken taken' : Bool) :
    (p.mark i taken).mark i taken' = p.mark i taken' := by
  unfold mark
  rw [Vector.set_set]

/-- A mark that is there already changes nothing. -/
theorem mark_get (p : Page) (i : Fin slotsPerPage) : p.mark i (p.occupied.get i) = p := by
  unfold mark
  rw [show p.occupied.get i = p.occupied[i.val] from rfl, Vector.set_getElem_self]

/-- An offset in the page is less than all strides, so that its quotient is the number of a slot. -/
theorem Holds.div_lt (h : p.Holds a) : (a - p.base) / p.stride < slotsPerPage :=
  Nat.div_lt_of_lt_mul (Nat.sub_lt_left_of_lt_add h.1 h.2)

/-- The slot that is found at an address starts there. -/
theorem slot_of_slotAt (ha : p.base ≤ a) (h : p.slotAt a = some i) : p.slot i = a := by
  unfold slotAt at h
  dsimp only at h
  split at h
  · split at h
    · next hmod =>
      obtain rfl := Option.some.inj h
      unfold slot
      rw [Nat.div_mul_cancel (Nat.dvd_of_mod_eq_zero hmod), Nat.add_sub_of_le ha]
    · cases h
  · cases h

end Page

/-- Pages that lie among the addresses and do not overlap. -/
structure Placed (pages : List Page) : Prop where
  inside : ∀ page ∈ pages, page.base + page.bytes ≤ maxWord
  apart : pages.Pairwise fun p q => p.base + p.bytes ≤ q.base ∨ q.base + q.bytes ≤ p.base

namespace Pool

variable {α : Type} {p q : Pool α} {k k' : Nat} {i j : Fin slotsPerPage} {page : Page}
  {a : Address} {taken : Bool}

/-- The address of the slot at a place. -/
def slotOf (p : Pool α) (k : Nat) (i : Fin slotsPerPage) : Option Address :=
  p.pages[k]?.map fun page => page.slot i

/-- Whether the slot at a place is handed out. -/
def isTaken (p : Pool α) (k : Nat) (i : Fin slotsPerPage) : Bool :=
  p.pages[k]?.any fun page => page.occupied.get i

/-- The pool with another mark at a place. -/
def remark (p : Pool α) (k : Nat) (i : Fin slotsPerPage) (taken : Bool) : Pool α :=
  { p with pages := p.pages.modify k fun page => page.mark i taken }

theorem slotOf_eq_some_iff :
    p.slotOf k i = some a ↔ ∃ page, p.pages[k]? = some page ∧ page.slot i = a :=
  Option.map_eq_some_iff

theorem isTaken_eq (hk : p.pages[k]? = some page) : p.isTaken k i = page.occupied.get i := by
  unfold isTaken
  rw [hk, Option.any_some]

theorem remark_eq (hk : p.pages[k]? = some page) :
    p.remark k i taken = { p with pages := p.pages.set k (page.mark i taken) } := by
  unfold remark
  rw [List.modify_eq_set_getElem?, hk]
  rfl

/-- A mark changes no other place. -/
theorem isTaken_remark (p : Pool α) (k k' : Nat) (i j : Fin slotsPerPage) (taken : Bool) :
    (p.remark k i taken).isTaken k' j =
      if (k, i) = (k', j) then taken && (p.pages[k]?).isSome else p.isTaken k' j := by
  unfold remark isTaken
  dsimp only
  rw [List.getElem?_modify, Option.map_eq_map]
  by_cases hk : k = k'
  · subst hk
    cases p.pages[k]? with
    | none => simp
    | some page =>
      simp only [if_true, Option.map_some, Option.any_some, Page.get_mark, Option.isSome_some,
        Bool.and_true, Prod.mk.injEq, true_and]
  · simp only [if_neg hk, if_neg fun heq => hk (Prod.mk.inj heq).1, Option.map_id_fun', id]

/-- A mark moves no slot. -/
@[simp] theorem slotOf_remark (p : Pool α) (k k' : Nat) (i j : Fin slotsPerPage) (taken : Bool) :
    (p.remark k i taken).slotOf k' j = p.slotOf k' j := by
  unfold remark slotOf
  dsimp only
  rw [List.getElem?_modify, Option.map_eq_map, Option.map_map]
  congr 1
  funext page
  dsimp only [Function.comp]
  split <;> rfl

/-- A mark replaces the one before it. -/
@[simp] theorem remark_remark (p : Pool α) (k : Nat) (i : Fin slotsPerPage)
    (taken taken' : Bool) : (p.remark k i taken).remark k i taken' = p.remark k i taken' := by
  unfold remark
  dsimp only
  rw [List.modify_modify_eq]
  congr 2
  funext page
  exact page.mark_mark_eq i taken taken'

/-- A mark that is there already changes nothing. -/
theorem remark_isTaken (p : Pool α) (k : Nat) (i : Fin slotsPerPage) :
    p.remark k i (p.isTaken k i) = p := by
  cases hk : p.pages[k]? with
  | none =>
    unfold remark
    rw [List.modify_eq_self (List.getElem?_eq_none_iff.mp hk)]
  | some page =>
    obtain ⟨hlt, hget⟩ := List.getElem?_eq_some_iff.mp hk
    rw [remark_eq hk, isTaken_eq hk, page.mark_get, ← hget, List.set_getElem_self]

/-- A pool whose pages are cut at its own stride, which is not zero. -/
structure Cut (p : Pool α) : Prop where
  accepted : p.layout.Accepted
  frames : ∀ f ∈ p.pages.map Page.frame, f.2 = p.stride

namespace Cut

/-- Marks do not matter to how pages are cut. -/
theorem remarks (h : p.Cut) (hremarks : p.Remarks q) : q.Cut where
  accepted := by
    rw [hremarks.layout]
    exact h.accepted
  frames := by
    unfold stride
    rw [hremarks.frames, hremarks.layout]
    exact h.frames

/-- A page that joins a pool is cut as the others are. -/
theorem grow [Allocator α] (h : p.Cut) (taken : Bool) : (p.grow taken).1.Cut := by
  unfold Pool.grow
  dsimp only
  split
  · exact h
  split
  · exact ⟨h.accepted, h.frames⟩
  · exact ⟨h.accepted, List.forall_mem_cons.mpr ⟨rfl, h.frames⟩⟩

theorem allocate [Allocator α] (h : p.Cut) : p.allocate.1.Cut := by
  unfold Pool.allocate
  split
  · next htake => exact h.remarks (remarks_take htake)
  · exact h.grow true

/-- Pages that do not overlap are laid out well. -/
theorem laid (h : p.Cut) (hplaced : Placed p.pages) : Laid p.stride p.pages := by
  have hstride (page : Page) (hpage : page ∈ p.pages) : page.bytes = p.stride * slotsPerPage :=
    congrArg (· * slotsPerPage) (h.frames _ (List.mem_map_of_mem hpage))
  refine ⟨h.accepted.stride_pos, List.forall_mem_map.mpr fun page hpage =>
    ⟨h.frames _ (List.mem_map_of_mem hpage), ?_⟩, List.pairwise_map.mpr ?_⟩
  · rw [← hstride page hpage]
    exact hplaced.inside page hpage
  · refine hplaced.apart.imp_of_mem fun hleft hright hapart => ?_
    rwa [hstride _ hleft, hstride _ hright] at hapart

/-- A pool that was created is cut well. -/
theorem create [Allocator α] {handle : Option α} {layout : PoolLayout}
    (h : (Pool.create handle layout).result = .ok (.ok p)) : p.Cut := by
  cases handle with
  | none => cases h
  | some start =>
    obtain ⟨haccepted, page, hgrow⟩ := exists_grow_of_create h
    have hnew : Cut { allocator := start, layout } := ⟨haccepted, nofun⟩
    have hgrown := hnew.grow false
    rwa [hgrow] at hgrown

end Cut

end Pool

namespace SlotCache

variable {α : Type}

theorem capacity_refill (c : SlotCache) (p : Pool α) : (c.refill p).2.capacity = c.capacity := by
  unfold refill
  split <;> rfl

theorem capacity_allocate [Allocator α] (c : SlotCache) (p : Pool α) :
    (c.allocate p).2.1.capacity = c.capacity := by
  rw [← c.capacity_refill p]
  unfold allocate
  dsimp only
  split <;> rfl

theorem capacity_free (c : SlotCache) (p : Pool α) (a : Address) :
    (c.free p a).state.2.capacity = c.capacity := by
  unfold free
  split
  · rfl
  · split <;> rfl

theorem capacity_forPool {c : SlotCache} {p : Pool α} (h : forPool p = .ok c) : 0 < c.capacity := by
  unfold forPool at h
  dsimp only at h
  split at h
  · cases h
  · obtain rfl := Except.ok.inj h
    exact Nat.lt_of_lt_of_le Nat.one_pos (Nat.le_max_right ..)

/-- A request that is made of a cache is cut as one that is made of its pool. -/
theorem cut_allocate [Allocator α] {p : Pool α} (h : p.Cut) (c : SlotCache) :
    (c.allocate p).1.Cut := by
  have hrefill := h.remarks (c.remarks_refill p)
  unfold allocate
  dsimp only
  split
  · exact hrefill
  · exact hrefill.allocate

end SlotCache

namespace Depot

variable {α : Type} {t : Depot α}

/-- A pool whose pages are cut well, with caches that have room. -/
structure Sound (t : Depot α) : Prop where
  cut : t.pool.Cut
  room : ∀ c, some c ∈ t.caches → 0 < c.capacity

namespace Sound

/-- A call of a cache leaves one that has as much room, or none. -/
theorem replace (h : t.Sound) (n : Nat) {pool : Pool α} (hcut : pool.Cut)
    {cache : Option SlotCache} (hroom : ∀ c, cache = some c → 0 < c.capacity) :
    (t.replace n pool cache).Sound where
  cut := hcut
  room c hc := by
    obtain hold | hnew := Array.mem_or_eq_of_mem_setIfInBounds hc
    · exact h.room c hold
    · exact hroom c hnew.symm

theorem keep (h : t.Sound) (n : Nat) {pool : Pool α} (hcut : pool.Cut) {cache : SlotCache}
    (hroom : 0 < cache.capacity) : (t.replace n pool (some cache)).Sound :=
  h.replace n hcut fun _ heq => Option.some.inj heq ▸ hroom

/-- Every call keeps pages cut well, and caches with room. -/
theorem perform [Allocator α] (h : t.Sound) (call : Call) : (t.perform call).Sound := by
  have hpool {pool : Pool α} (hcut : pool.Cut) : Sound { t with pool } := ⟨hcut, h.room⟩
  have hcache (n : Nat) (next : SlotCache → Depot α)
      (hnext : ∀ c, 0 < c.capacity → (next c).Sound) :
      Sound (t.caches[n]?.join.elim t next) := by
    cases hn : t.caches[n]?.join with
    | none => exact h
    | some c => exact hnext c (h.room c (Array.mem_of_getElem? (Option.join_eq_some_iff.mp hn)))
  cases call with
  | allocate => exact hpool h.cut.allocate
  | take =>
    refine hpool ?_
    cases htake : t.pool.take with
    | none => exact h.cut
    | some taken => exact h.cut.remarks (Pool.remarks_take htake)
  | batch count => exact hpool (h.cut.remarks (Pool.remarks_batch ..))
  | free pointer => exact hpool (h.cut.remarks (Pool.remarks_deallocate ..))
  | openCache =>
    unfold Depot.perform
    dsimp only
    split
    · next cache hcache =>
      refine ⟨h.cut, fun c hc => ?_⟩
      obtain hold | hnew := Array.mem_push.mp hc
      · exact h.room c hold
      · obtain rfl := Option.some.inj hnew
        exact SlotCache.capacity_forPool hcache
    · exact h
  | cacheAllocate n =>
    have hcapacity (c : SlotCache) := c.capacity_allocate t.pool
    exact hcache n _ fun c hroom =>
      h.keep n (SlotCache.cut_allocate h.cut c) (hroom.trans_eq (hcapacity c).symm)
  | cacheFree n pointer =>
    have hcapacity (c : SlotCache) := c.capacity_free t.pool pointer
    exact hcache n _ fun c hroom =>
      h.keep n (h.cut.remarks (c.remarks_free ..)) (hroom.trans_eq (hcapacity c).symm)
  | flush n => exact hcache n _ fun c hroom => h.keep n (h.cut.remarks (c.remarks_flush ..)) hroom
  | dropCache n =>
    exact hcache n _ fun c _ => h.replace n (h.cut.remarks (c.remarks_flush ..)) nofun

end Sound

end Depot

namespace PoolLife

variable {α : Type} {life : PoolLife α} {depot : Depot (Lender α)} {peak : Nat}
  {P : Depot (Lender α) → Prop}

/-- While there is a pool, this holds of it and its caches. -/
def WhileLiving (P : Depot (Lender α) → Prop) (life : PoolLife α) : Prop :=
  ∀ depot peak, life.stage = .living depot peak → P depot

namespace WhileLiving

theorem create [Allocator α] (hnew : ∀ (handle : Option (Lender α)) (layout : PoolLayout)
      (pool : Pool (Lender α)), (Pool.create handle layout).result = .ok (.ok pool) → P { pool })
    (start : Option α) (others : Nat) (layout : PoolLayout) :
    (create start others layout).WhileLiving P := by
  intro depot peak hstage
  change stageOf _ = _ at hstage
  unfold stageOf at hstage
  split at hstage
  · next pool hpool =>
    injection hstage with hdepot
    rw [← hdepot]
    exact hnew _ _ pool hpool
  · cases hstage
  · cases hstage

/-- What is behind the handle does not matter. -/
theorem mapLender (h : life.WhileLiving P)
    (hlender : ∀ depot, P depot → ∀ lender,
      P { depot with pool := { depot.pool with allocator := lender } })
    (f : Lender α → Lender α) (others : Nat) :
    WhileLiving P { life.mapLender f with others } := by
  obtain ⟨layout, before, stage⟩ := life
  intro depot peak hstage
  cases stage with
  | living depot' peak' =>
    injection hstage with hdepot
    rw [← hdepot]
    exact hlender depot' (h depot' peak' rfl) _
  | _ => cases hstage

theorem act [Allocator α] (h : life.WhileLiving P)
    (hcall : ∀ depot, P depot → ∀ call, P (depot.perform call))
    (hlender : ∀ depot, P depot → ∀ lender,
      P { depot with pool := { depot.pool with allocator := lender } })
    (m : Move α) : (life.act m).WhileLiving P := by
  cases m with
  | call call =>
    obtain ⟨layout, others, stage⟩ := life
    cases stage with
    | living depot' peak' =>
      intro depot peak hstage
      injection hstage with hdepot
      rw [← hdepot]
      exact hcall depot' (h depot' peak' rfl) call
    | _ => exact h
  | copyHandle => exact h.mapLender hlender _ _
  | dropHandle =>
    unfold PoolLife.act
    dsimp only
    split
    · exact h
    · exact h.mapLender hlender _ _
  | elsewhere inner => exact h.mapLender hlender _ _
  | drop =>
    obtain ⟨layout, others, stage⟩ := life
    cases stage with
    | living => exact fun _ _ hstage => nomatch hstage
    | _ => exact h

end WhileLiving

/-- What holds of every new pool, and is kept by its calls whatever becomes of the allocator, holds
of every pool that can be reached. -/
theorem of_run [Allocator α] {start : Option α} {others : Nat} {layout : PoolLayout}
    {moves : List (Move α)}
    (hnew : ∀ (handle : Option (Lender α)) (layout : PoolLayout) (pool : Pool (Lender α)),
      (Pool.create handle layout).result = .ok (.ok pool) → P { pool })
    (hcall : ∀ depot, P depot → ∀ call, P (depot.perform call))
    (hlender : ∀ depot, P depot → ∀ lender,
      P { depot with pool := { depot.pool with allocator := lender } })
    (h : ((create start others layout).run moves).stage = .living depot peak) : P depot := by
  have hrun (life : PoolLife α) (hlife : life.WhileLiving P) :
      (life.run moves).WhileLiving P := by
    clear h
    induction moves generalizing life with
    | nil => exact hlife
    | cons m moves ih => exact ih _ (hlife.act hcall hlender m)
  exact hrun _ (.create hnew start others layout) depot peak h

/-- Every pool that can be reached is cut well, and its caches have room. -/
theorem sound_of_run [Allocator α] {start : Option α} {others : Nat} {layout : PoolLayout}
    {moves : List (Move α)}
    (h : ((create start others layout).run moves).stage = .living depot peak) : depot.Sound :=
  of_run (fun _ _ _ hpool => ⟨Pool.Cut.create hpool, by simp⟩) (fun _ hsound => hsound.perform)
    (fun _ hsound _ => ⟨⟨hsound.cut.accepted, hsound.cut.frames⟩, hsound.room⟩) h

end PoolLife

end HazardFlow
