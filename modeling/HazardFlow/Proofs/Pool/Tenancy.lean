import HazardFlow.Proofs.Pool.Lending

/-!
# Who has a slot

Callers hold slots of a pool, and caches keep some. A tenancy says who has which, through any list
of moves: whole calls of the pool and of its caches, and the single accesses to the pages that calls
made at the same time are taken apart into. A slot is given back only by a caller that holds it.
Held and kept slots are then exactly those that the pool has handed out, and no call meets a fault.
-/

namespace HazardFlow

/-- A pool, its caches, and the slots that callers hold. -/
structure Tenancy (α : Type) where
  pool : Pool α
  /-- The caches not dropped. -/
  caches : Array (Option SlotCache) := #[]
  held : List Address := []
  /-- The faults met, newest first. -/
  faults : List Fault := []

namespace Tenancy

/-- What callers may do. -/
inductive Move where
  | allocate
  | take
  | batch (count : Nat)
  /-- A caller gives a slot that it holds back to the pool. -/
  | free (slot : Address)
  | openCache
  | cacheAllocate (cache : Nat)
  /-- A caller gives a slot that it holds to a cache. -/
  | cacheFree (cache : Nat) (slot : Address)
  | flush (cache : Nat)
  | dropCache (cache : Nat)
  /-- A call on its way along the pages claims a slot of one of them. -/
  | claim (page : Nat)
  /-- A call that found all pages full adds one. -/
  | grow
  /-- A refill of a cache on its way along the pages claims a slot of one of them. -/
  | stock (cache page : Nat)
  /-- A flush of a cache gives back the oldest slot. -/
  | unstock (cache : Nat)

variable {α : Type}

/-- A cache that was not dropped. -/
def cacheAt (t : Tenancy α) (n : Nat) : Option SlotCache := t.caches[n]?.join

/-- The slots that a cache keeps, if there is one. -/
def keptBy (c : Option SlotCache) : List Address := (c.map SlotCache.slots).getD []

/-- The slots that caches keep. -/
def cached (t : Tenancy α) : List Address := t.caches.toList.flatMap keptBy

/-- Replaces the pool and one cache. -/
def replace (t : Tenancy α) (n : Nat) (pool : Pool α) (c : Option SlotCache) : Tenancy α :=
  { t with pool, caches := t.caches.setIfInBounds n c }

/-- A caller holds what a request was answered. -/
def receive (t : Tenancy α) (answer : Except AllocError Address) : Tenancy α :=
  { t with held := answer.toOption.toList ++ t.held }

/-- Notes down the fault that stopped a call. -/
def note {β : Type} (o : Outcome (Tenancy α) β) : Tenancy α :=
  match o.result with
  | .ok _ => o.state
  | .error fault => { o.state with faults := fault :: o.state.faults }

/-- A caller no longer holds a slot that was taken back. -/
def giveUp (slot : Address) (o : Outcome (Tenancy α) (Except AllocError Unit)) : Tenancy α :=
  match o.result with
  | .ok (.ok ()) => { o.state with held := o.state.held.erase slot }
  | _ => note o

/-- Claims a slot of one page. -/
def claimIn (p : Pool α) (k : Nat) : Option (Pool α × Address) :=
  p.pages[k]?.bind fun page => page.claim.map fun (page, slot) =>
    ({ p with pages := p.pages.set k page }, slot)

/-- Makes one move. -/
def act [Allocator α] (t : Tenancy α) : Move → Tenancy α
  | .allocate =>
    let (pool, answer) := t.pool.allocate
    ({ t with pool } : Tenancy α).receive answer
  | .take => t.pool.take.elim t fun (pool, slot) => { t with pool, held := slot :: t.held }
  | .batch count =>
    let (pool, slots) := t.pool.batch count
    { t with pool, held := slots ++ t.held }
  | .free slot =>
    if slot ∈ t.held then giveUp slot ((t.pool.deallocate slot).lift fun pool => { t with pool })
    else t
  | .openCache =>
    match SlotCache.forPool t.pool with
    | .ok cache => { t with caches := t.caches.push (some cache) }
    | .error fault => { t with faults := fault :: t.faults }
  | .cacheAllocate n => (t.cacheAt n).elim t fun c =>
    let (pool, c, answer) := c.allocate t.pool
    (t.replace n pool (some c)).receive answer
  | .cacheFree n slot => (t.cacheAt n).elim t fun c =>
    if slot ∈ t.held then
      giveUp slot ((c.free t.pool slot).lift fun (pool, c) => t.replace n pool (some c))
    else t
  | .flush n => (t.cacheAt n).elim t fun c =>
    note ((c.flush t.pool).lift fun (pool, c) => t.replace n pool (some c))
  | .dropCache n => (t.cacheAt n).elim t fun c =>
    note ((c.flush t.pool).lift fun (pool, _) => t.replace n pool none)
  | .claim k => (claimIn t.pool k).elim t fun (pool, slot) =>
    { t with pool, held := slot :: t.held }
  | .grow =>
    let (pool, answer) := t.pool.grow true
    ({ t with pool } : Tenancy α).receive (answer.map fun page => page.slot 0)
  | .stock n k => (t.cacheAt n).elim t fun c =>
    if c.slots.length < c.capacity then
      (claimIn t.pool k).elim t fun (pool, slot) =>
        t.replace n pool (some { c with slots := slot :: c.slots })
    else t
  | .unstock n => (t.cacheAt n).elim t fun c => c.slots.getLast?.elim t fun slot =>
    note ((t.pool.deallocate slot).lift fun pool =>
      t.replace n pool (some { c with slots := c.slots.dropLast }))

/-- Makes moves in turn. -/
def run [Allocator α] (t : Tenancy α) (moves : List Move) : Tenancy α := moves.foldl act t

variable {t : Tenancy α} {n : Nat} {c : SlotCache}

/-- What a cache keeps, and what the other caches keep, whatever becomes of that one. -/
theorem exists_cached (hn : t.cacheAt n = some c) : ∃ others : List Address,
    t.cached.Perm (c.slots ++ others) ∧ ∀ (pool : Pool α) (x : Option SlotCache),
      (t.replace n pool x).cached.Perm (keptBy x ++ others) := by
  have hlist : t.caches.toList[n]? = some (some c) := by
    rw [Array.getElem?_toList]
    exact Option.join_eq_some_iff.mp hn
  obtain ⟨others, hbefore, hafter⟩ := exists_flatMap_set keptBy hlist
  refine ⟨others, hbefore, fun pool x => ?_⟩
  unfold cached replace
  rw [Array.toList_setIfInBounds]
  exact hafter x

/-- A replaced cache is at its number, and the others are where they were. -/
theorem cacheAt_replace (hn : t.cacheAt n = some c) (pool : Pool α) (x : Option SlotCache)
    (m : Nat) : (t.replace n pool x).cacheAt m = if m = n then x else t.cacheAt m := by
  unfold cacheAt replace
  split
  · next hmn =>
    subst hmn
    have hlt : m < t.caches.size := by
      by_contra hge
      unfold cacheAt at hn
      rw [Array.getElem?_eq_none (by omega)] at hn
      cases hn
    rw [Array.getElem?_setIfInBounds_self_of_lt hlt, Option.join_some]
  · next hmn => rw [Array.getElem?_setIfInBounds_ne (Ne.symm hmn)]

/-- A cache that was opened is empty, and has room for the slots that its pool allows. -/
theorem forPool_spec {p : Pool α} (h : SlotCache.forPool p = .ok c) :
    c.slots = [] ∧ c.capacity = max p.layout.cacheCapacity 1 := by
  unfold SlotCache.forPool at h
  dsimp only at h
  split at h
  · cases h
  · obtain rfl := Except.ok.inj h
    exact ⟨rfl, rfl⟩

/-- The only fault in opening a cache is that no memory holds what it may keep. -/
theorem eq_of_forPool_error {p : Pool α} {fault : Fault}
    (h : SlotCache.forPool p = .error fault) : fault = .capacityOverflow := by
  unfold SlotCache.forPool at h
  dsimp only at h
  split at h
  · exact (Except.error.inj h).symm
  · cases h

/-- What a page's free slot does to the pool. -/
theorem claimIn_spec {l : List Address} {p q : Pool α} {k : Nat} {slot : Address}
    (h : p.Backs l) (hclaim : claimIn p k = some (q, slot)) :
    p.Remarks q ∧ q.Backs (slot :: l) := by
  obtain ⟨page, hk, hmap⟩ := Option.bind_eq_some_iff.mp hclaim
  obtain ⟨⟨page', a⟩, hpage, heq⟩ := Option.map_eq_some_iff.mp hmap
  obtain ⟨rfl, rfl⟩ := Prod.mk.inj heq
  exact h.claim hk hpage

variable [Allocator α] {start : α} {layout : PoolLayout} {pool : Pool α}

/-- The pool has handed out what callers hold and what caches keep. -/
structure Kept (start : α) (layout : PoolLayout) (t : Tenancy α) : Prop where
  grown : t.pool.Grown start layout
  backs : t.pool.Backs (t.held ++ t.cached)
  room : ∀ (n : Nat) (c : SlotCache), t.cacheAt n = some c →
    c.capacity = max layout.cacheCapacity 1 ∧ c.slots.length ≤ c.capacity
  faults : ∀ f ∈ t.faults, f = Fault.capacityOverflow

namespace Kept

/-- The pool hands slots out to callers. -/
theorem hold (h : t.Kept start layout) (slots : List Address) (hgrown : pool.Grown start layout)
    (hbacks : pool.Backs (slots ++ (t.held ++ t.cached))) :
    Kept start layout { t with pool, held := slots ++ t.held } where
  grown := hgrown
  backs := by
    rw [← List.append_assoc] at hbacks
    exact hbacks
  room := h.room
  faults := h.faults

/-- What a cache and callers have may be replaced, along with the pool. -/
theorem exists_replace (h : t.Kept start layout) (hn : t.cacheAt n = some c) :
    ∃ others : List Address, t.pool.Backs (c.slots ++ (t.held ++ others)) ∧
      ∀ (pool : Pool α) (x : Option SlotCache) (held : List Address), pool.Grown start layout →
        pool.Backs (keptBy x ++ (held ++ others)) →
        (∀ d, x = some d → d.capacity = c.capacity ∧ d.slots.length ≤ d.capacity) →
        Kept start layout { t with pool, caches := t.caches.setIfInBounds n x, held } := by
  obtain ⟨others, hbefore, hafter⟩ := exists_cached hn
  refine ⟨others, h.backs.of_perm ?_, fun pool x held hgrown hbacks hroom =>
    ⟨hgrown, hbacks.of_perm ?_, fun m d hm => ?_, h.faults⟩⟩
  · exact (hbefore.append_left t.held).trans (List.perm_append_comm_assoc ..)
  · exact (List.perm_append_comm_assoc ..).trans ((hafter pool x).symm.append_left held)
  · have hsame : (t.replace n pool x).cacheAt m = some d := hm
    rw [cacheAt_replace hn] at hsame
    split at hsame
    · obtain ⟨hcapacity, hlength⟩ := hroom d hsame
      exact ⟨hcapacity.trans (h.room n c hn).1, hlength⟩
    · exact h.room m d hsame

/-- A slot that a caller holds, before the others. -/
theorem backs_cons (h : t.Kept start layout) {slot : Address} (hslot : slot ∈ t.held) :
    t.pool.Backs (slot :: (t.held.erase slot ++ t.cached)) :=
  h.backs.of_perm ((List.perm_cons_erase hslot).append_right _)

/-- A slot that a caller holds goes back to the pool. -/
theorem free (h : t.Kept start layout) (slot : Address) :
    (t.act (.free slot)).Kept start layout := by
  unfold act
  dsimp only
  split
  · next hslot =>
    obtain ⟨pool, hfree, hremarks, hbacks⟩ := (h.backs_cons hslot).deallocate
    rw [hfree]
    exact ⟨h.grown.remarks hremarks, hbacks, h.room, h.faults⟩
  · exact h

/-- A cache that was opened keeps nothing yet. -/
theorem openCache (h : t.Kept start layout) : (t.act .openCache).Kept start layout := by
  unfold act
  dsimp only
  split
  · next cache hopen =>
    obtain ⟨hslots, hcapacity⟩ := forPool_spec hopen
    rw [h.grown.sameLayout] at hcapacity
    refine ⟨h.grown, ?_, fun n c hn => ?_, h.faults⟩
    · have hsame : cached { t with caches := t.caches.push (some cache) } = t.cached := by
        simp [cached, keptBy, hslots]
      rw [hsame]
      exact h.backs
    · unfold cacheAt at hn
      rw [Array.getElem?_push] at hn
      split at hn
      · obtain rfl := Option.some.inj hn
        exact ⟨hcapacity, by rw [hslots]; exact Nat.zero_le _⟩
      · exact h.room n c hn
  · next fault hopen =>
    obtain rfl := eq_of_forPool_error hopen
    exact ⟨h.grown, h.backs, h.room, List.forall_mem_cons.mpr ⟨rfl, h.faults⟩⟩

/-- A cache hands out a slot. -/
theorem cacheAllocate (h : t.Kept start layout) (hlends : Pool.Lends start layout) (n : Nat) :
    (t.act (.cacheAllocate n)).Kept start layout := by
  unfold act
  dsimp only
  cases hn : t.cacheAt n with
  | none => exact h
  | some c =>
    obtain ⟨others, hbefore, hafter⟩ := h.exists_replace hn
    obtain ⟨hgrown, hbacks, hcapacity, hlength⟩ :=
      SlotCache.allocate_spec hbefore h.grown hlends (h.room n c hn).2 rfl
    refine hafter _ (some _) _ hgrown (hbacks.of_perm ?_) fun d hd => ?_
    · rw [List.append_assoc]
      exact List.perm_append_comm_assoc ..
    · obtain rfl := Option.some.inj hd
      exact ⟨hcapacity, hlength⟩

/-- A slot that a caller holds goes to a cache, or on to the pool. -/
theorem cacheFree (h : t.Kept start layout) (n : Nat) (slot : Address) :
    (t.act (.cacheFree n slot)).Kept start layout := by
  unfold act
  dsimp only
  cases hn : t.cacheAt n with
  | none => exact h
  | some c =>
    dsimp only [Option.elim_some]
    split
    · next hslot =>
      obtain ⟨others, hbefore, hafter⟩ := h.exists_replace hn
      have hslots : t.pool.Backs (slot :: (c.slots ++ (t.held.erase slot ++ others))) := by
        refine hbefore.of_perm (.trans ?_ List.perm_middle)
        exact ((List.perm_cons_erase hslot).append_right others).append_left c.slots
      obtain ⟨pool, d, hfree, hremarks, hbacks, hcapacity, hlength⟩ :=
        SlotCache.exists_free hslots (h.room n c hn).2
      rw [hfree]
      refine hafter pool (some d) _ (h.grown.remarks hremarks) hbacks fun e he => ?_
      obtain rfl := Option.some.inj he
      exact ⟨hcapacity, hlength⟩
    · exact h

/-- A cache gives back all its slots, and may then be dropped. -/
theorem exists_flush (h : t.Kept start layout) (hn : t.cacheAt n = some c)
    {x : Option SlotCache} (hx : ∀ d, x = some d → d = { c with slots := [] }) :
    ∃ pool, c.flush t.pool = .pure (pool, { c with slots := [] }) c.slots.length ∧
      (t.replace n pool x).Kept start layout ∧
      pool.occupancy + c.slots.length = t.pool.occupancy := by
  obtain ⟨others, hbefore, hafter⟩ := h.exists_replace hn
  obtain ⟨pool, hflush, hremarks, hbacks⟩ := SlotCache.exists_flush hbefore
  have hkept : keptBy x = [] := by
    cases x with
    | none => rfl
    | some d => rw [hx d rfl]; rfl
  refine ⟨pool, hflush, hafter pool x t.held (h.grown.remarks hremarks) ?_ fun d hd => ?_, ?_⟩
  · rw [hkept]
    exact hbacks
  · obtain rfl := hx d hd
    exact ⟨rfl, Nat.zero_le _⟩
  · rw [hbacks.occupancy_eq, hbefore.occupancy_eq, Nat.add_comm]
    exact List.length_append.symm

/-- A refill on its way puts one more slot into a cache that has room for it. -/
theorem stock (h : t.Kept start layout) (n k : Nat) : (t.act (.stock n k)).Kept start layout := by
  unfold act
  dsimp only
  cases hn : t.cacheAt n with
  | none => exact h
  | some c =>
    dsimp only [Option.elim_some]
    split
    · next hroom =>
      cases hclaim : claimIn t.pool k with
      | none => exact h
      | some claimed =>
        obtain ⟨others, hbefore, hafter⟩ := h.exists_replace hn
        obtain ⟨hremarks, hbacks⟩ := claimIn_spec hbefore hclaim
        refine hafter claimed.1 (some _) t.held (h.grown.remarks hremarks) hbacks fun d hd => ?_
        obtain rfl := Option.some.inj hd
        exact ⟨rfl, hroom⟩
    · exact h

/-- A flush on its way gives back the oldest slot of a cache. -/
theorem unstock (h : t.Kept start layout) (n : Nat) :
    (t.act (.unstock n)).Kept start layout := by
  unfold act
  dsimp only
  cases hn : t.cacheAt n with
  | none => exact h
  | some c =>
    dsimp only [Option.elim_some]
    cases hlast : c.slots.getLast? with
    | none => exact h
    | some slot =>
      obtain ⟨others, hbefore, hafter⟩ := h.exists_replace hn
      have hslots : c.slots.dropLast ++ [slot] = c.slots := List.dropLast_append_getLast? slot hlast
      have hfirst : t.pool.Backs (slot :: (c.slots.dropLast ++ (t.held ++ others))) := by
        rw [← hslots, List.append_assoc] at hbefore
        exact hbefore.of_perm List.perm_middle
      obtain ⟨pool, hfree, hremarks, hbacks⟩ := hfirst.deallocate
      dsimp only [Option.elim_some]
      rw [hfree]
      refine hafter pool (some _) t.held (h.grown.remarks hremarks) hbacks fun d hd => ?_
      obtain rfl := Option.some.inj hd
      have hlength := (h.room n c hn).2
      exact ⟨rfl, (List.length_dropLast ▸ Nat.sub_le ..).trans hlength⟩

/-- Every move keeps to what the pool has handed out. -/
theorem act (h : t.Kept start layout) (hlends : Pool.Lends start layout) (move : Move) :
    (t.act move).Kept start layout := by
  cases move with
  | allocate =>
    obtain ⟨hgrown, hbacks⟩ := h.backs.allocate h.grown hlends rfl
    exact h.hold _ hgrown hbacks
  | take =>
    unfold Tenancy.act
    cases htake : t.pool.take with
    | none => exact h
    | some taken =>
      obtain ⟨hremarks, hbacks⟩ := h.backs.take htake
      exact h.hold [taken.2] (h.grown.remarks hremarks) hbacks
  | batch count =>
    obtain ⟨hremarks, hbacks, _⟩ := h.backs.batch count
    exact h.hold _ (h.grown.remarks hremarks) hbacks
  | free slot => exact h.free slot
  | openCache => exact h.openCache
  | cacheAllocate n => exact h.cacheAllocate hlends n
  | cacheFree n slot => exact h.cacheFree n slot
  | flush n =>
    unfold Tenancy.act
    dsimp only
    cases hn : t.cacheAt n with
    | none => exact h
    | some c =>
      obtain ⟨pool, hflush, hkept, _⟩ := h.exists_flush hn fun d hd => (Option.some.inj hd).symm
      dsimp only [Option.elim_some]
      rw [hflush]
      exact hkept
  | dropCache n =>
    unfold Tenancy.act
    dsimp only
    cases hn : t.cacheAt n with
    | none => exact h
    | some c =>
      obtain ⟨pool, hflush, hkept, _⟩ := h.exists_flush hn (x := none) fun d hd => nomatch hd
      dsimp only [Option.elim_some]
      rw [hflush]
      exact hkept
  | claim k =>
    unfold Tenancy.act
    dsimp only
    cases hclaim : claimIn t.pool k with
    | none => exact h
    | some claimed =>
      obtain ⟨hremarks, hbacks⟩ := claimIn_spec h.backs hclaim
      exact h.hold [claimed.2] (h.grown.remarks hremarks) hbacks
  | grow =>
    unfold Tenancy.act
    cases hgrow : t.pool.grow true with
    | mk pool result =>
      cases result with
      | ok page =>
        obtain ⟨hgrown, hbacks⟩ := h.backs.grow h.grown hlends hgrow
        exact h.hold [page.slot 0] hgrown hbacks
      | error cause =>
        obtain ⟨hgrown, hbacks⟩ := h.backs.grow_error h.grown hgrow
        exact h.hold [] hgrown hbacks
  | stock n k => exact h.stock n k
  | unstock n => exact h.unstock n

/-- Moves made in turn keep to what the pool has handed out. -/
theorem run (h : t.Kept start layout) (hlends : Pool.Lends start layout) (moves : List Move) :
    (t.run moves).Kept start layout := by
  induction moves generalizing t with
  | nil => exact h
  | cons move moves ih => exact ih (h.act hlends move)

/-- A pool that was created has no caches and nothing is held. -/
theorem create (hlends : Pool.Lends start layout)
    (hpool : (Pool.create (some start) layout).result = .ok (.ok pool)) :
    Kept start layout ({ pool } : Tenancy α) := by
  obtain ⟨hgrown, hbacks⟩ := Pool.backs_create hlends hpool
  refine ⟨hgrown, hbacks, fun n c hn => ?_, fun f hf => nomatch hf⟩
  unfold cacheAt at hn
  simp at hn

end Kept

/-- Callers and caches have just the slots that are marked, each once, slots lie where the layout
says, and whoever has a slot can give it back. -/
structure Exact (layout : PoolLayout) (t : Tenancy α) : Prop where
  nodup : (t.held ++ t.cached).Nodup
  marked : ∀ a : Address, a ∈ t.held ++ t.cached ↔ ∃ page ∈ t.pool.pages,
    ∃ i : Fin slotsPerPage, page.occupied.get i = true ∧ page.slot i = a
  occupancy : t.pool.occupancy = t.held.length + t.cached.length
  room : ∀ (n : Nat) (c : SlotCache), t.cacheAt n = some c →
    c.slots.length ≤ max 1 layout.cacheCapacity
  aligned : ∀ page ∈ t.pool.pages, ∀ i : Fin slotsPerPage, layout.slotAlign ∣ page.slot i
  inside : ∀ page ∈ t.pool.pages, ∀ i : Fin slotsPerPage,
    page.base ≤ page.slot i ∧ page.slot i + layout.slotSize ≤ page.base + page.bytes
  apart : ∀ (k k' : Nat) (page page' : Page) (i j : Fin slotsPerPage),
    t.pool.pages[k]? = some page → t.pool.pages[k']? = some page' → (k, i) ≠ (k', j) →
    Apart layout.slotSize (page.slot i) (page'.slot j)
  /-- No slot was freed twice, and no flush was rejected: at most, a cache was too large to open. -/
  faults : ∀ f ∈ t.faults, f = Fault.capacityOverflow
  free : ∀ slot ∈ t.held, (t.pool.deallocate slot).result = .ok (.ok ())
  cacheFree : ∀ slot ∈ t.held, ∀ (n : Nat) (c : SlotCache), t.cacheAt n = some c →
    (c.free t.pool slot).result = .ok (.ok ())
  flush : ∀ (n : Nat) (c : SlotCache), t.cacheAt n = some c →
    (c.flush t.pool).result = .ok c.slots.length ∧
      (t.act (.flush n)).pool.occupancy + c.slots.length = t.pool.occupancy ∧
      (t.act (.dropCache n)).pool.occupancy + c.slots.length = t.pool.occupancy

namespace Kept

/-- Every slot starts at a multiple of the alignment. -/
theorem dvd_slot (h : t.Kept start layout) (hlends : Pool.Lends start layout) {page : Page}
    (hpage : page ∈ t.pool.pages) (i : Fin slotsPerPage) : layout.slotAlign ∣ page.slot i := by
  have hstride : page.stride = layout.stride := by
    rw [h.backs.laid.stride_eq hpage]
    unfold Pool.stride
    rw [h.grown.sameLayout]
  have hdvd : layout.slotAlign ∣ page.stride := by
    rw [hstride]
    exact dvd_roundUp _ _
  exact Nat.dvd_add (h.grown.dvd_base hlends hpage) (Nat.dvd_mul_left_of_dvd hdvd i.val)

/-- A cache takes what a caller holds. -/
theorem result_free (h : t.Kept start layout) (hn : t.cacheAt n = some c) {slot : Address}
    (hslot : slot ∈ t.held) : (c.free t.pool slot).result = .ok (.ok ()) := by
  obtain ⟨others, hbefore, _⟩ := exists_cached hn
  have hslots : t.pool.Backs (slot :: (c.slots ++ (t.held.erase slot ++ others))) := by
    refine (h.backs_cons hslot).of_perm (List.Perm.cons _ ?_)
    exact (hbefore.append_left _).trans (List.perm_append_comm_assoc ..)
  obtain ⟨pool, d, hfree, _⟩ := SlotCache.exists_free hslots (h.room n c hn).2
  rw [hfree]
  rfl

/-- A flush answers how many slots a cache kept, and they are no longer handed out. -/
theorem flush_spec (h : t.Kept start layout) (hn : t.cacheAt n = some c) :
    (c.flush t.pool).result = .ok c.slots.length ∧
      (t.act (.flush n)).pool.occupancy + c.slots.length = t.pool.occupancy ∧
      (t.act (.dropCache n)).pool.occupancy + c.slots.length = t.pool.occupancy := by
  obtain ⟨pool, hflush, _, hfewer⟩ := h.exists_flush hn (x := none) fun d hd => nomatch hd
  have hafter : (t.act (.flush n)).pool = pool ∧ (t.act (.dropCache n)).pool = pool := by
    unfold Tenancy.act
    dsimp only
    rw [hn, Option.elim_some, Option.elim_some, hflush]
    exact ⟨rfl, rfl⟩
  rw [hafter.1, hafter.2, hflush]
  exact ⟨rfl, hfewer, hfewer⟩

/-- What every move keeps is exact. -/
theorem isExact (h : t.Kept start layout) (hlends : Pool.Lends start layout) : t.Exact layout := by
  have hslotSize := h.grown.accepted.slotSize_le
  have hstride : t.pool.stride = layout.stride := congrArg PoolLayout.stride h.grown.sameLayout
  refine ⟨h.backs.nodup, fun a => ?_, ?_, fun n c hn => ?_, fun page hpage => h.dvd_slot hlends hpage,
    fun page hpage i => ⟨(h.backs.laid.within_slot hpage i).1, ?_⟩,
    fun k k' page page' i j hk hk' hne => ?_, h.faults, fun slot hslot => ?_,
    fun slot hslot n c hn => h.result_free hn hslot, fun n c hn => h.flush_spec hn⟩
  · rw [← h.backs.perm.mem_iff]
    simp only [markedIn, List.mem_flatMap, Page.mem_marked]
  · rw [h.backs.occupancy_eq, List.length_append]
  · obtain ⟨hcapacity, hlength⟩ := h.room n c hn
    rwa [hcapacity, Nat.max_comm] at hlength
  · refine Nat.le_trans (Nat.add_le_add_left ?_ _) (page.slot_add_stride_le i)
    rw [h.backs.laid.stride_eq hpage, hstride]
    exact hslotSize
  · exact (h.backs.laid.apart_slot hk hk' hne).mono (by rw [hstride]; exact hslotSize)
  · obtain ⟨pool, hfree, _⟩ := (h.backs_cons hslot).deallocate
    rw [hfree]
    rfl

end Kept

/-- Whatever callers do with a pool that was created, whoever has a slot has it alone, and no slot
is lost. -/
theorem isExact_run (hlends : Pool.Lends start layout)
    (hpool : (Pool.create (some start) layout).result = .ok (.ok pool)) (moves : List Move) :
    (Tenancy.run { pool } moves).Exact layout :=
  ((Kept.create hlends hpool).run hlends moves).isExact hlends

/-- Slots of 40 bytes over memory of the host: what one cache hands out is given to another, which is
flushed, and what the pool hands out itself stays with its caller. -/
theorem isExact_run_crossed :
    let layout : PoolLayout := { slotSize := 40, slotAlign := 32, cacheCapacity := 2 }
    ∃ pool : Pool HostHeap, (Pool.create (some {}) layout).result = .ok (.ok pool) ∧
      Pool.Lends ({} : HostHeap) layout ∧
      let t := Tenancy.run { pool } [.openCache, .openCache, .cacheAllocate 0, .allocate,
        .cacheFree 1 ((1 <<< 46) + 64), .flush 1, .allocate]
      t.held = [(1 <<< 46) + 64, (1 <<< 46) + 128] ∧ t.cached = [1 <<< 46] ∧
        t.pool.occupancy = 3 ∧ t.Exact layout :=
  ⟨_, rfl, HostHeap.lends .., by decide +kernel, by decide +kernel, by decide +kernel,
    isExact_run (HostHeap.lends ({} : HostHeap) ..) rfl _⟩

end Tenancy

end HazardFlow
