import HazardFlow.Memory.Arena
import HazardFlow.Ownership.OwnerCount
import HazardFlow.Proofs.Pool.Paging

/-!
# What a pool gives back

A pool from its creation to its end, with its caches, over an allocator that notes what it is asked
for, what it answers and what it is given back. Calls may name any pointer, and may be refused or
stop with a fault; the allocator may refuse whatever it likes, and be used by others in between.
Whatever the pool was given it gives back once, when it goes away, along with its handle.
-/

namespace HazardFlow

/-- A pool and its caches. -/
structure Depot (α : Type) where
  pool : Pool α
  /-- The caches not yet dropped. -/
  caches : Array (Option SlotCache) := #[]

namespace Depot

/-- A call of a pool or of one of its caches. -/
inductive Call where
  | allocate
  | take
  | batch (count : Nat)
  | free (pointer : Address)
  | openCache
  | cacheAllocate (cache : Nat)
  | cacheFree (cache : Nat) (pointer : Address)
  | flush (cache : Nat)
  | dropCache (cache : Nat)
  deriving DecidableEq, Repr

variable {α : Type}

/-- Replaces the pool and one cache. -/
def replace (t : Depot α) (n : Nat) (pool : Pool α) (cache : Option SlotCache) : Depot α :=
  ⟨pool, t.caches.setIfInBounds n cache⟩

/-- Makes a call, and goes on from there when a fault stops it. -/
def perform [Allocator α] (t : Depot α) : Call → Depot α
  | .allocate => { t with pool := t.pool.allocate.1 }
  | .take => { t with pool := (t.pool.take.map Prod.fst).getD t.pool }
  | .batch count => { t with pool := (t.pool.batch count).1 }
  | .free pointer => { t with pool := (t.pool.deallocate pointer).state }
  | .openCache =>
    match SlotCache.forPool t.pool with
    | .ok cache => { t with caches := t.caches.push (some cache) }
    | .error _ => t
  | .cacheAllocate n => t.caches[n]?.join.elim t fun c =>
    let (pool, c, _) := c.allocate t.pool
    t.replace n pool (some c)
  | .cacheFree n pointer => t.caches[n]?.join.elim t fun c =>
    let (pool, c) := (c.free t.pool pointer).state
    t.replace n pool (some c)
  | .flush n => t.caches[n]?.join.elim t fun c =>
    let (pool, c) := (c.flush t.pool).state
    t.replace n pool (some c)
  | .dropCache n => t.caches[n]?.join.elim t fun c => t.replace n (c.flush t.pool).state.1 none

/-- What a call may do to the pool. -/
theorem turns_perform [Allocator α] {t : Depot α} (hfits : t.pool.Fits) (call : Call) :
    t.pool.Turns (t.perform call).pool := by
  have hcache (n : Nat) (next : SlotCache → Depot α)
      (hnext : ∀ c, t.pool.Turns (next c).pool) :
      t.pool.Turns (t.caches[n]?.join.elim t next).pool := by
    cases t.caches[n]?.join with
    | none => exact .remarked (.refl _)
    | some c => exact hnext c
  cases call with
  | allocate => exact Pool.turns_allocate hfits
  | take =>
    unfold perform
    cases htake : t.pool.take with
    | none => exact .remarked (.refl _)
    | some taken => exact .remarked (Pool.remarks_take htake)
  | batch count => exact .remarked (Pool.remarks_batch ..)
  | free pointer => exact .remarked (Pool.remarks_deallocate ..)
  | openCache =>
    unfold perform
    dsimp only
    split <;> exact .remarked (.refl _)
  | cacheAllocate n => exact hcache n _ fun c => SlotCache.turns_allocate hfits c
  | cacheFree n pointer => exact hcache n _ fun c => .remarked (c.remarks_free ..)
  | flush n => exact hcache n _ fun c => .remarked (c.remarks_flush ..)
  | dropCache n => exact hcache n _ fun c => .remarked (c.remarks_flush ..)

end Depot

/-- What an allocator was asked for, and what it answered. -/
structure PageRequest where
  bytes : Nat
  placement : Placement
  align : Nat
  answer : Except AllocError Address

/-- An allocator with what a pool has asked of it. -/
structure Lender (α : Type) where
  inner : α
  /-- The handles to it. -/
  owners : OwnerCount := {}
  /-- What it was asked for, newest first. -/
  requests : List PageRequest := []
  /-- The blocks given back to it, newest first. -/
  returned : List Address := []

namespace Lender

variable {α : Type}

/-- Passes a request on, and notes it with its answer. -/
def allocate [Allocator α] (l : Lender α) (bytes : Nat) (placement : Placement) (align : Nat) :
    Lender α × Except AllocError Address :=
  let (inner, answer) := Allocator.allocate l.inner bytes placement align
  ({ l with inner, requests := ⟨bytes, placement, align, answer⟩ :: l.requests }, answer)

/-- Gives a block back, and notes it whatever the answer. -/
def deallocate [Allocator α] (l : Lender α) (block : Address) :
    Lender α × Except AllocError Unit :=
  let (inner, answer) := Allocator.deallocate l.inner block
  ({ l with inner, returned := block :: l.returned }, answer)

instance [Allocator α] : Allocator (Lender α) := ⟨allocate, deallocate⟩

/-- The blocks handed out, newest first. -/
def lent (l : Lender α) : List Address := l.requests.filterMap fun r => r.answer.toOption

/-- A handle is copied. -/
def copy (l : Lender α) : Lender α := { l with owners := l.owners.acquire.state }

/-- A handle is dropped. -/
def drop (l : Lender α) : Lender α := { l with owners := l.owners.release.state }

/-- All requests were for the slots of one page. -/
def AskedFor (l : Lender α) (layout : PoolLayout) : Prop := ∀ r ∈ l.requests,
  r.bytes = slotsPerPage * layout.stride ∧ r.placement = layout.placement ∧
    r.align = layout.slotAlign

end Lender

/-- What there is of a pool. -/
inductive PoolStage (α : Type) where
  /-- It could not be created over what is behind the handle, if anything is. -/
  | refused (lender : Option (Lender α)) (cause : Except Fault AllocError)
  /-- It is there, and has handed out so many slots at the most. -/
  | living (depot : Depot (Lender α)) (peak : Nat)
  /-- It is gone. -/
  | gone (lender : Lender α)

/-- A pool from its creation to its end. -/
structure PoolLife (α : Type) where
  layout : PoolLayout
  /-- The handles to the allocator that are not the pool's. -/
  others : Nat
  stage : PoolStage α

namespace PoolLife

/-- What may happen. -/
inductive Move (α : Type) where
  | call (call : Depot.Call)
  /-- Another handle to the allocator is made. -/
  | copyHandle
  /-- A handle that is not the pool's is dropped. -/
  | dropHandle
  /-- Others have used the allocator. -/
  | elsewhere (inner : α)
  /-- The pool is dropped. -/
  | drop

variable {α : Type}

/-- What there is after the creation of a pool. When it has failed, the handle is dropped. -/
def stageOf (o : Outcome (Option (Lender α)) (Except AllocError (Pool (Lender α)))) :
    PoolStage α :=
  match o.result with
  | .ok (.ok pool) => .living { pool } pool.occupancy
  | .ok (.error cause) => .refused (o.state.map Lender.drop) (.ok cause)
  | .error fault => .refused (o.state.map Lender.drop) (.error fault)

/-- Creates a pool over a copy of a handle, which may be empty. -/
def create [Allocator α] (start : Option α) (others : Nat) (layout : PoolLayout) : PoolLife α :=
  let handle := start.map fun inner => ({ inner, owners := ⟨others⟩ } : Lender α)
  ⟨layout, others, stageOf (Pool.create (handle.map Lender.copy) layout)⟩

/-- Changes what is behind the handle. -/
def mapLender (life : PoolLife α) (f : Lender α → Lender α) : PoolLife α :=
  { life with
    stage := match life.stage with
      | .refused lender cause => .refused (lender.map f) cause
      | .living depot peak =>
        .living { depot with pool := { depot.pool with allocator := f depot.pool.allocator } } peak
      | .gone lender => .gone (f lender) }

/-- Makes a move. A pool that is not there is neither called nor dropped. -/
def act [Allocator α] (life : PoolLife α) : Move α → PoolLife α
  | .call call =>
    match life.stage with
    | .living depot peak =>
      let depot := depot.perform call
      { life with stage := .living depot (max peak depot.pool.occupancy) }
    | _ => life
  | .copyHandle => { life.mapLender Lender.copy with others := life.others + 1 }
  | .dropHandle =>
    match life.others with
    | 0 => life
    | others + 1 => { life.mapLender Lender.drop with others }
  | .elsewhere inner => life.mapLender fun lender => { lender with inner }
  | .drop =>
    match life.stage with
    | .living depot _ => { life with stage := .gone depot.pool.discard.1.drop }
    | _ => life

/-- Makes moves in turn. -/
def run [Allocator α] (life : PoolLife α) (moves : List (Move α)) : PoolLife α :=
  moves.foldl act life

end PoolLife

theorem bases_of_frames {pages pages' : List Page}
    (h : pages'.map Page.frame = pages.map Page.frame) :
    pages'.map Page.base = pages.map Page.base := by
  have hbases := congrArg (List.map Prod.fst) h
  rwa [List.map_map, List.map_map] at hbases

namespace Pool

variable {α : Type} {layout : PoolLayout} {p q : Pool (Lender α)} {lender : Lender α}
  {answer : Except AllocError Address}

/-- A pool has the blocks that it was handed out, each asked for in the same way. -/
structure Sourced (layout : PoolLayout) (p : Pool (Lender α)) : Prop where
  sameLayout : p.layout = layout
  fits : p.Fits
  asked : p.allocator.AskedFor layout
  lent : p.allocator.lent = p.pages.map Page.base
  none_returned : p.allocator.returned = []

/-- What a request for a page leaves of its allocator. -/
theorem eq_of_request [Allocator α] (h : p.request = (lender, answer)) :
    lender.requests = ⟨slotsPerPage * p.stride, p.layout.placement, p.layout.slotAlign, answer⟩ ::
        p.allocator.requests ∧
      lender.returned = p.allocator.returned ∧ lender.owners = p.allocator.owners := by
  obtain ⟨rfl, rfl⟩ := Prod.mk.inj h.symm
  exact ⟨rfl, rfl, rfl⟩

/-- A page that is given back is noted, whatever the allocator says. -/
theorem discardPage_eq [Allocator α] (lender : Lender α) (log : Array LogRecord) (page : Page) :
    ∃ inner log', discardPage (lender, log) page =
      ({ lender with inner, returned := page.base :: lender.returned }, log') := by
  have hdeallocate : Allocator.deallocate lender page.base = lender.deallocate page.base := rfl
  unfold discardPage
  dsimp only
  rw [hdeallocate]
  unfold Lender.deallocate
  cases Allocator.deallocate lender.inner page.base with
  | mk inner answer => cases answer <;> exact ⟨inner, _, rfl⟩

namespace Sourced

/-- Calls that ask for no memory leave the allocator alone. -/
theorem remarks (h : p.Sourced layout) (hremarks : p.Remarks q) : q.Sourced layout where
  sameLayout := hremarks.layout.trans h.sameLayout
  fits := by
    unfold Fits stride
    rw [hremarks.layout]
    exact h.fits
  asked := by
    rw [hremarks.allocator]
    exact h.asked
  lent := by
    rw [hremarks.allocator, bases_of_frames hremarks.frames]
    exact h.lent
  none_returned := by
    rw [hremarks.allocator]
    exact h.none_returned

/-- A block that is handed out becomes a page. -/
theorem request [Allocator α] (h : p.Sourced layout) (hrequest : p.request = (q.allocator, answer))
    (hlayout : q.layout = p.layout)
    (hpages : q.pages.map Page.base = answer.toOption.toList ++ p.pages.map Page.base) :
    q.Sourced layout := by
  obtain ⟨hrequests, hreturned, -⟩ := eq_of_request hrequest
  refine ⟨hlayout.trans h.sameLayout, ?_, ?_, ?_, hreturned.trans h.none_returned⟩
  · unfold Fits stride
    rw [hlayout]
    exact h.fits
  · unfold Lender.AskedFor stride at *
    rw [hrequests, h.sameLayout]
    exact List.forall_mem_cons.mpr ⟨⟨rfl, rfl, rfl⟩, h.asked⟩
  · rw [hpages, ← h.lent]
    unfold Lender.lent
    rw [hrequests]
    cases answer <;> rfl

/-- Every call keeps to what was handed out, and to the handle. -/
theorem turns [Allocator α] (h : p.Sourced layout) (hturns : p.Turns q) :
    q.Sourced layout ∧ q.allocator.owners = p.allocator.owners := by
  cases hturns with
  | remarked hremarks => exact ⟨h.remarks hremarks, by rw [hremarks.allocator]⟩
  | grown _ hrequest hlayout hpages _ =>
    refine ⟨h.request hrequest hlayout ?_, (eq_of_request hrequest).2.2⟩
    rw [hpages]
    rfl
  | refused hrequest hsame =>
    refine ⟨h.request hrequest (by rw [hsame]) ?_, (eq_of_request hrequest).2.2⟩
    rw [hsame]
    rfl

/-- A pool that goes away gives back all its blocks, newest first. -/
theorem discard [Allocator α] (h : p.Sourced layout) :
    p.discard.1.requests = p.allocator.requests ∧ p.discard.1.owners = p.allocator.owners ∧
      p.discard.1.returned = p.allocator.lent.reverse := by
  -- Whatever the allocator answers, the next page is given back all the same.
  have hall (pages : List Page) (lender : Lender α) (log : Array LogRecord) :
      (pages.foldl discardPage (lender, log)).1.requests = lender.requests ∧
        (pages.foldl discardPage (lender, log)).1.owners = lender.owners ∧
        (pages.foldl discardPage (lender, log)).1.returned =
          (pages.map Page.base).reverse ++ lender.returned := by
    induction pages generalizing lender log with
    | nil => exact ⟨rfl, rfl, rfl⟩
    | cons page rest ih =>
      obtain ⟨inner, log', hpage⟩ := discardPage_eq lender log page
      rw [List.foldl_cons, hpage, List.map_cons, List.reverse_cons, List.append_assoc]
      exact ih ..
  obtain ⟨hrequests, howners, hreturned⟩ := hall p.pages p.allocator p.log
  refine ⟨hrequests, howners, hreturned.trans ?_⟩
  rw [h.none_returned, List.append_nil, h.lent]

end Sourced

/-- What is left behind a handle when no pool came of it: at most a request that was refused. -/
structure LeavesNothing (layout : PoolLayout) (owners : OwnerCount) (lender : Lender α)
    (cause : Except Fault AllocError) : Prop where
  asked : lender.AskedFor layout
  none_lent : lender.lent = []
  none_returned : lender.returned = []
  sameOwners : lender.owners = owners
  /-- If the allocator was asked for a page, its refusal is the cause. -/
  refused : lender.requests = [] ∨
    ∃ error, cause = .ok error ∧ lender.requests.map PageRequest.answer = [.error error]

/-- What comes of the creation of a pool. -/
inductive Begins (layout : PoolLayout) (lender : Lender α)
    (o : Outcome (Option (Lender α)) (Except AllocError (Pool (Lender α)))) : Prop
  | created (pool : Pool (Lender α)) (hresult : o.result = .ok (.ok pool))
    (hsourced : pool.Sourced layout) (howners : pool.allocator.owners = lender.owners)
    (hpages : pool.pages.length = 1) (hfresh : pool.occupancy = 0)
  | refused (asked : Lender α) (cause : Except Fault AllocError) (hstate : o.state = some asked)
    (hresult : o.result = cause.map Except.error)
    (hnothing : LeavesNothing layout lender.owners asked cause)

/-- A new pool has one page, or there is none. -/
theorem begins_create [Allocator α] (hunasked : lender.requests = [])
    (hnone : lender.returned = []) : Begins layout lender (create (some lender) layout) := by
  have hnothing (cause : Except Fault AllocError) :
      LeavesNothing layout lender.owners lender cause :=
    ⟨by simp [Lender.AskedFor, hunasked], by simp [Lender.lent, hunasked], hnone, rfl,
      .inl hunasked⟩
  unfold create
  dsimp only
  split
  · exact .refused lender (.ok .zeroSize) rfl rfl (hnothing _)
  split
  · exact .refused lender (.ok (.invalidAlignment _)) rfl rfl (hnothing _)
  split
  · exact .refused lender (.error .addOverflow) rfl rfl (hnothing _)
  by_cases hfits : Fits ({ allocator := lender, layout } : Pool (Lender α))
  · have hnew : Sourced layout { allocator := lender, layout } :=
      ⟨rfl, hfits, (hnothing (.error .addOverflow)).asked,
        (hnothing (.error .addOverflow)).none_lent, hnone⟩
    obtain ⟨asked, cause, hrequest, hgrow⟩ |
      ⟨pool, page, hrequest, hgrow, hlayout, hpages, hfirst⟩ := grow_eq hfits false
    · obtain ⟨hrequests, -, howners⟩ := eq_of_request hrequest
      have hsourced := hnew.request (q := { allocator := asked, layout }) hrequest rfl rfl
      rw [hgrow]
      refine .refused asked (.ok cause) rfl rfl ⟨hsourced.asked, hsourced.lent,
        hsourced.none_returned, howners, .inr ⟨cause, rfl, ?_⟩⟩
      rw [hrequests, hunasked]
      rfl
    · have hsourced := hnew.request hrequest hlayout (by rw [hpages]; rfl)
      rw [hgrow]
      refine .created pool rfl hsourced (eq_of_request hrequest).2.2 (by rw [hpages]; rfl) ?_
      unfold occupancy
      rw [hpages, List.foldr_cons, hfirst]
      rfl
  · rw [grow_of_not_fits hfits]
    exact .refused lender (.ok (.outOfMemory maxWord)) rfl rfl (hnothing _)

end Pool

/-- What is left behind a handle when a pool is gone. -/
structure Pool.Settles {α : Type} (layout : PoolLayout) (others : Nat) (lender : Lender α) :
    Prop where
  asked : lender.AskedFor layout
  returned : lender.returned = lender.lent.reverse
  owners : lender.owners = ⟨others⟩

namespace PoolLife

variable {α : Type} {life : PoolLife α}

/-- What every move keeps. -/
def Kept (life : PoolLife α) : Prop :=
  match life.stage with
  | .refused none cause => cause = .ok .nullAllocator
  | .refused (some lender) cause => Pool.LeavesNothing life.layout ⟨life.others⟩ lender cause
  | .living depot peak => depot.pool.Sourced life.layout ∧ depot.pool.Sized peak ∧
    depot.pool.allocator.owners = ⟨life.others + 1⟩
  | .gone lender => Pool.Settles life.layout life.others lender

namespace Kept

/-- A pool that was created, or was not. -/
theorem create [Allocator α] (start : Option α) (others : Nat) (layout : PoolLayout) :
    (create start others layout).Kept := by
  cases start with
  | none => rfl
  | some inner =>
    let handed : Lender α := Lender.copy { inner, owners := ⟨others⟩ }
    have howners : handed.owners = ⟨others + 1⟩ := OwnerCount.state_acquire _
    have hbegins : Pool.Begins layout handed (Pool.create (some handed) layout) :=
      Pool.begins_create rfl rfl
    change Kept ⟨layout, others, stageOf (Pool.create (some handed) layout)⟩
    unfold stageOf
    cases hbegins with
    | created pool hresult hsourced hsame hpages hfresh =>
      rw [hresult]
      refine ⟨hsourced, ⟨Nat.le_refl _, ?_, ?_, ?_⟩, hsame.trans howners⟩
      · rw [hfresh]
        exact Nat.zero_le _
      · rw [hpages]
        exact Nat.one_pos
      · rw [hpages]
        exact fun hmore => absurd hmore (Nat.lt_irrefl 1)
    -- The copy that was handed over goes away again.
    | refused asked cause hstate hresult hnothing =>
      have hdropped : Pool.LeavesNothing layout ⟨others⟩ asked.drop cause := by
        refine ⟨hnothing.asked, hnothing.none_lent, hnothing.none_returned, ?_, hnothing.refused⟩
        unfold Lender.drop
        rw [OwnerCount.state_release, hnothing.sameOwners, howners, Int.add_sub_cancel]
      rw [hresult, hstate]
      cases cause <;> exact hdropped

/-- What is behind the handle may change, as long as the accounts do not and handles are counted. -/
theorem mapLender (h : life.Kept) {f : Lender α → Lender α} {others : Nat}
    (hrequests : ∀ lender, (f lender).requests = lender.requests)
    (hreturned : ∀ lender, (f lender).returned = lender.returned)
    (howners : ∀ lender (k : Int), lender.owners = ⟨life.others + k⟩ →
      (f lender).owners = ⟨others + k⟩) :
    Kept { life.mapLender f with others } := by
  have hasked (lender : Lender α) (h : lender.AskedFor life.layout) :
      (f lender).AskedFor life.layout := by
    unfold Lender.AskedFor
    rw [hrequests]
    exact h
  have hlent (lender : Lender α) : (f lender).lent = lender.lent := by
    unfold Lender.lent
    rw [hrequests]
  have hothers (lender : Lender α) (h : lender.owners = ⟨life.others⟩) :
      (f lender).owners = ⟨others⟩ := by
    have hsame := howners lender 0
    rw [Int.add_zero, Int.add_zero] at hsame
    exact hsame h
  obtain ⟨layout, before, stage⟩ := life
  cases stage with
  | refused lender cause =>
    cases lender with
    | none => exact h
    | some lender =>
      refine ⟨hasked _ h.asked, (hlent _).trans h.none_lent, (hreturned _).trans h.none_returned,
        hothers _ h.sameOwners, ?_⟩
      rw [hrequests]
      exact h.refused
  | living depot peak =>
    obtain ⟨hsourced, hsized, hcounted⟩ := h
    refine ⟨⟨hsourced.sameLayout, hsourced.fits, hasked _ hsourced.asked,
      (hlent _).trans hsourced.lent, (hreturned _).trans hsourced.none_returned⟩,
      ⟨hsized.reached, hsized.room, hsized.pos, hsized.needed⟩, howners _ 1 hcounted⟩
  | gone lender =>
    refine ⟨hasked _ h.asked, ?_, hothers _ h.owners⟩
    rw [hreturned, hlent]
    exact h.returned

/-- Every move keeps the accounts. -/
theorem act [Allocator α] (h : life.Kept) (m : Move α) : (life.act m).Kept := by
  cases m with
  | call call =>
    obtain ⟨layout, others, stage⟩ := life
    cases stage with
    | refused lender cause => exact h
    | gone lender => exact h
    | living depot peak =>
      obtain ⟨hsourced, hsized, howners⟩ := h
      have hturns := Depot.turns_perform hsourced.fits call
      obtain ⟨hsourced', hsame⟩ := hsourced.turns hturns
      exact ⟨hsourced', hsized.turns hturns, hsame.trans howners⟩
  | copyHandle =>
    refine h.mapLender (fun _ => rfl) (fun _ => rfl) fun lender k howners => ?_
    unfold Lender.copy
    rw [OwnerCount.state_acquire, howners]
    exact congrArg OwnerCount.mk (by push_cast; omega)
  | dropHandle =>
    unfold PoolLife.act
    dsimp only
    split
    · exact h
    · next others heq =>
      refine h.mapLender (fun _ => rfl) (fun _ => rfl) fun lender k howners => ?_
      unfold Lender.drop
      rw [OwnerCount.state_release, howners, heq]
      exact congrArg OwnerCount.mk (by push_cast; omega)
  | elsewhere inner => exact h.mapLender (fun _ => rfl) (fun _ => rfl) fun _ _ howners => howners
  | drop =>
    obtain ⟨layout, others, stage⟩ := life
    cases stage with
    | refused lender cause => exact h
    | gone lender => exact h
    | living depot peak =>
      obtain ⟨hsourced, hsized, howners⟩ := h
      obtain ⟨hrequests, hsame, hreturned⟩ := hsourced.discard
      refine ⟨?_, ?_, ?_⟩
      · unfold Lender.AskedFor
        exact hrequests ▸ hsourced.asked
      · unfold Lender.lent
        exact hrequests ▸ hreturned
      · unfold Lender.drop
        rw [OwnerCount.state_release, hsame, howners, Int.add_sub_cancel]
        rfl

/-- Moves made in turn keep the accounts. -/
theorem run [Allocator α] (h : life.Kept) (moves : List (Move α)) : (life.run moves).Kept := by
  induction moves generalizing life with
  | nil => exact h
  | cons m moves ih => exact ih (h.act m)

end Kept

/-- A pool has as many pages as the most slots that it ever had handed out need, it has given none
back, and it gets no page but from its allocator. -/
structure Living [Allocator α] (layout : PoolLayout) (others : Nat) (depot : Depot (Lender α))
    (peak : Nat) : Prop where
  reached : depot.pool.occupancy ≤ peak
  pages : depot.pool.pages.length = max 1 ((peak + (slotsPerPage - 1)) / slotsPerPage)
  asked : depot.pool.allocator.AskedFor layout
  lent : depot.pool.allocator.lent = depot.pool.pages.map Page.base
  none_returned : depot.pool.allocator.returned = []
  owners : depot.pool.allocator.owners = ⟨others + 1⟩
  /-- A request for a slot fails when there is none and the allocator refuses a page, with what the
  allocator says, and then pages, marks and log are what they were. -/
  allocate : ∀ q cause, depot.pool.allocate = (q, .error cause) ↔ depot.pool.take = none ∧
    depot.pool.request = (q.allocator, .error cause) ∧
      q = { depot.pool with allocator := q.allocator }
  /-- A request for a slot that succeeds takes a page when there is no slot, and only then. -/
  granted : ∀ q a, depot.pool.allocate = (q, .ok a) → depot.pool.Grants q a
  /-- So does one that is made of a cache, when the cache keeps no slot either. -/
  cacheGranted : ∀ (c : SlotCache) q d a, c.allocate depot.pool = (q, d, .ok a) →
    (c.slots = [] → depot.pool.take ≠ none) ∧ depot.pool.Remarks q ∨
      c.slots = [] ∧ depot.pool.take = none ∧ depot.pool.Grants q a ∧ d = c
  /-- A cache that keeps no slot fails just when its pool does, and keeps none afterwards. -/
  cacheAllocate : ∀ (c : SlotCache) q d cause, c.allocate depot.pool = (q, d, .error cause) ↔
    c.slots = [] ∧ depot.pool.take = none ∧
      depot.pool.request = (q.allocator, .error cause) ∧
      q = { depot.pool with allocator := q.allocator } ∧ d = c

/-- The accounts of a pool: when none came of it, while it is there, and when it is gone. -/
def Accounts [Allocator α] (life : PoolLife α) : Prop :=
  match life.stage with
  | .refused none cause => cause = .ok .nullAllocator
  | .refused (some lender) cause => Pool.LeavesNothing life.layout ⟨life.others⟩ lender cause
  | .living depot peak => Living life.layout life.others depot peak
  | .gone lender => Pool.Settles life.layout life.others lender

theorem Kept.accounts [Allocator α] (h : life.Kept) : life.Accounts := by
  obtain ⟨layout, others, stage⟩ := life
  cases stage with
  | refused lender cause => cases lender <;> exact h
  | gone lender => exact h
  | living depot peak =>
    obtain ⟨hsourced, hsized, howners⟩ := h
    exact ⟨hsized.reached, hsized.length_eq, hsourced.asked, hsourced.lent, hsourced.none_returned,
      howners, fun q cause => Pool.allocate_eq_error_iff hsourced.fits,
      fun q a => Pool.grants_of_allocate hsourced.fits,
      fun c q d a => SlotCache.grants_of_allocate hsourced.fits,
      fun c q d cause => SlotCache.allocate_eq_error_iff hsourced.fits⟩

/-- Whatever is done with a pool and its caches, and whatever the allocator answers: pages are taken
only when they are needed, and each is given back once. -/
theorem accounts_run [Allocator α] (start : Option α) (others : Nat) (layout : PoolLayout)
    (moves : List (Move α)) : ((create start others layout).run moves).Accounts :=
  ((Kept.create start others layout).run moves).accounts

/-- A second page is refused when the slots of the first are handed out, and granted once others
have made room for it. Pointers that were made up or are freed twice take nothing away. Both pages
are given back, although the first is stuck. -/
theorem accounts_run_refusedThenGranted :
    let room : Arena := { cursor := 86016, limit := some 2, stuck := [0], blocks := #[65536] }
    let life := create (some ({ limit := some 1, stuck := [0] } : Arena)) 1 {}
    let calls := [.call (.batch 64), .call .openCache, .copyHandle, .call .allocate,
      .call (.cacheAllocate 0), .elsewhere room, .call (.cacheAllocate 0), .call (.free 7),
      .call (.free 65536), .call (.free 65536), .call .allocate]
    (life.run calls).Accounts ∧ (life.run (calls ++ [.drop])).Accounts ∧
      (match (life.run (calls ++ [.drop])).stage with
        | .gone lender => some (lender.requests.map fun r => r.answer.toOption, lender.returned,
            lender.owners)
        | _ => none) = some ([some 86016, none, none, some 65536], [65536, 86016], ⟨2⟩) :=
  ⟨accounts_run .., accounts_run .., by decide +kernel⟩

end PoolLife

end HazardFlow
