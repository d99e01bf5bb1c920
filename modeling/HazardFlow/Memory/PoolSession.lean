import HazardFlow.Memory.Arena
import HazardFlow.Memory.HostHeap
import HazardFlow.Memory.Recorded
import HazardFlow.Memory.SlotCache

/-!
# A pool with caches

Commands on one pool and any number of its caches. Slots are told apart by the number of their
page, in order of allocation, and their distance from its start.
-/

namespace HazardFlow

/-- The allocators that a pool session runs on. -/
inductive PoolBacking where
  | host (heap : HostHeap)
  | arena (arena : Arena)
  deriving DecidableEq, Repr

namespace PoolBacking

/-- Passes a request on. -/
def allocate (b : PoolBacking) (bytes : Nat) (placement : Placement) (align : Nat) :
    PoolBacking × Except AllocError Address :=
  match b with
  | .host h => (h.allocate bytes placement align).map .host id
  | .arena a => (a.allocate bytes placement align).map .arena id

/-- Gives a block back. -/
def deallocate (b : PoolBacking) (block : Address) : PoolBacking × Except AllocError Unit :=
  match b with
  | .host h => (h.deallocate block).map .host id
  | .arena a => (a.deallocate block).map .arena id

instance : Allocator PoolBacking := ⟨allocate, deallocate⟩

end PoolBacking

/-- A pool, its caches, and the pointers answered so far. -/
structure PoolSession where
  pool : Pool (Recorded PoolBacking)
  /-- The caches not yet dropped. -/
  caches : Array (Option SlotCache) := #[]
  pointers : Array Address := #[]

namespace PoolSession

/-- A pointer as a command names it. -/
inductive Pointer where
  /-- At a distance from a pointer answered before. -/
  | answered (number : Nat) (distance : Int)
  /-- At a distance from the start of a page. -/
  | inPage (page : Nat) (distance : Int)
  | absolute (address : Address)
  deriving DecidableEq, Repr

/-- One command. -/
inductive Command where
  | allocate
  | take
  | batch (count : Nat)
  | free (pointer : Pointer)
  | numaNode (pointer : Pointer)
  | stride
  | slotsPerPage
  | layout
  | describe
  | handles
  | cache
  | cacheAllocate (cache : Nat)
  | cacheFree (cache : Nat) (pointer : Pointer)
  | cacheLength (cache : Nat)
  | cacheFlush (cache : Nat)
  | cacheDrop (cache : Nat)
  deriving DecidableEq, Repr

/-- A slot by the number of its page and its distance from the page's start. -/
abbrev SlotPlace := Nat × Nat

/-- What a command answers. -/
inductive Answer where
  | done
  | nothing
  | number (n : Nat)
  | text (t : String)
  | layout (l : PoolLayout)
  /-- The number of slots that a cache keeps. -/
  | length (n : Nat)
  | refused (cause : AllocError)
  /-- One slot, under the number of its pointer. -/
  | slot (first : Nat) (place : SlotPlace)
  /-- A batch of slots, under the number of the first pointer. -/
  | slots (first : Nat) (places : List SlotPlace)
  deriving Repr

/-- A command named a pointer or a cache that is not there. -/
inductive Unknown where
  | pointer
  | cache
  deriving DecidableEq, Repr

/-- The address of a pointer. -/
def resolve (s : PoolSession) : Pointer → Except Unknown Address
  | .answered number distance =>
    match s.pointers[number]? with
    | some address => .ok (asWord (address + distance))
    | none => .error .pointer
  | .inPage page distance =>
    match s.pool.allocator.blocks[page]? with
    | some base => .ok (asWord (base + distance))
    | none => .error .pointer
  | .absolute address => .ok address

/-- A cache that was not dropped. -/
def cacheAt (s : PoolSession) (n : Nat) : Except Unknown SlotCache :=
  match s.caches[n]? with
  | some (some cache) => .ok cache
  | _ => .error .cache

/-- Where an address lies among the pages. -/
def placeOf (s : PoolSession) (a : Address) : SlotPlace :=
  let bytes := s.pool.stride * HazardFlow.slotsPerPage
  match s.pool.allocator.blocks.findIdx? fun base => base ≤ a && a < base + bytes with
  | some page => (page, a - s.pool.allocator.blocks.getD page 0)
  | none => (s.pool.allocator.blocks.size, a)

/-- Notes one pointer handed out. -/
def answerSlot (s : PoolSession) (a : Address) : PoolSession × Answer :=
  ({ s with pointers := s.pointers.push a }, .slot s.pointers.size (s.placeOf a))

/-- Replaces the pool and one cache. -/
def withCache (s : PoolSession) (n : Nat) (state : Pool (Recorded PoolBacking) × SlotCache) :
    PoolSession :=
  { s with pool := state.1, caches := s.caches.setIfInBounds n (some state.2) }

/-- The answer to a slot taken back or refused. -/
def ofRelease : Except AllocError Unit → Answer
  | .ok () => .done
  | .error cause => .refused cause

/-- The answer to a request for a slot. -/
def ofRequest (s : PoolSession) : Except AllocError Address → Outcome PoolSession Answer
  | .ok a => let (s, answer) := s.answerSlot a; .pure s answer
  | .error cause => .pure s (.refused cause)

/-- Does one command. -/
def perform (s : PoolSession) : Command → Except Unknown (Outcome PoolSession Answer)
  | .allocate =>
    let (pool, answer) := s.pool.allocate
    pure (ofRequest { s with pool } answer)
  | .take =>
    match s.pool.take with
    | some (pool, a) => pure (ofRequest { s with pool } (.ok a))
    | none => pure (.pure s .nothing)
  | .batch count =>
    let (pool, slots) := s.pool.batch count
    let s := { s with pool }
    pure (.pure { s with pointers := s.pointers ++ slots }
      (.slots s.pointers.size (slots.map s.placeOf)))
  | .free pointer => do
    let a ← s.resolve pointer
    pure (((s.pool.deallocate a).lift fun pool => { s with pool }).map ofRelease)
  | .numaNode pointer => do
    let a ← s.resolve pointer
    pure ⟨s, (s.pool.numaNodeOf a).map fun
      | some node => .number node
      | none => .nothing⟩
  | .stride => pure (.pure s (.number s.pool.stride))
  | .slotsPerPage => pure (.pure s (.number HazardFlow.slotsPerPage))
  | .layout => pure (.pure s (.layout s.pool.layout))
  | .describe => pure (.pure s (.text s.pool.describe))
  | .handles => pure (.pure s (.number 2))
  | .cache =>
    match SlotCache.forPool s.pool with
    | .ok cache => pure (.pure { s with caches := s.caches.push (some cache) }
        (.number s.caches.size))
    | .error fault => pure (.fail s fault)
  | .cacheAllocate n => do
    let cache ← s.cacheAt n
    let (pool, cache, answer) := cache.allocate s.pool
    pure (ofRequest (s.withCache n (pool, cache)) answer)
  | .cacheFree n pointer => do
    let cache ← s.cacheAt n
    let a ← s.resolve pointer
    pure (((cache.free s.pool a).lift (s.withCache n)).map ofRelease)
  | .cacheLength n => do
    let cache ← s.cacheAt n
    pure (.pure s (.length cache.slots.length))
  | .cacheFlush n => do
    let cache ← s.cacheAt n
    pure (((cache.flush s.pool).lift (s.withCache n)).map .number)
  | .cacheDrop n => do
    let cache ← s.cacheAt n
    pure (((cache.flush s.pool).lift fun state =>
      { s with pool := state.1, caches := s.caches.setIfInBounds n none }).map fun _ => .done)

/-- What became of one command, and what the pool and its caches hold afterwards. -/
structure Entry where
  result : Except Fault Answer
  occupancy : Nat
  pages : Nat
  /-- The number of slots kept by each cache not dropped. -/
  lengths : List (Option Nat)

/-- Looks at the session after a command. -/
def entry (s : PoolSession) (result : Except Fault Answer) : Entry :=
  ⟨result, s.pool.occupancy, s.pool.pages.length,
    s.caches.toList.map (·.map fun cache => cache.slots.length)⟩

/-- Does commands in turn. A fault stops its own command only. -/
def performAll (s : PoolSession) : List Command → Except Unknown (PoolSession × List Entry)
  | [] => pure (s, [])
  | command :: rest => do
    let o ← s.perform command
    let (final, entries) ← o.state.performAll rest
    pure (final, o.state.entry o.result :: entries)

/-- Drops caches in turn. A fault in one does not keep the others from being dropped; the first
fault is answered. -/
def dropCaches (p : Pool (Recorded PoolBacking)) :
    List SlotCache → Pool (Recorded PoolBacking) × Option Fault
  | [] => (p, none)
  | cache :: rest =>
    let o := cache.flush p
    let (p, later) := dropCaches o.state.1 rest
    match o.result with
    | .ok _ => (p, later)
    | .error fault => (p, some fault)

/-- What is left when the caches and then the pool have been dropped. -/
structure Closing where
  /-- The fault met while dropping the caches. -/
  fault : Option Fault
  calls : List AllocatorCall
  log : List LogRecord
  /-- The handles to the allocator that remain. -/
  handles : Nat

/-- Drops the caches in order, and then the pool. -/
def close (s : PoolSession) : Closing :=
  let (pool, fault) := dropCaches s.pool (s.caches.toList.filterMap id)
  let (allocator, log) := pool.discard
  ⟨fault, allocator.calls.toList, log.toList, 1⟩

end PoolSession

end HazardFlow
