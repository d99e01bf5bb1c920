import HazardFlow.Log
import HazardFlow.Memory.Page
import HazardFlow.Memory.Request
import HazardFlow.Text.Record

/-!
# Pools of slots

A pool hands out slots of one size. It takes memory from an allocator a page at a time, when all
its pages are full, and gives every page back when it goes away. The newest page is searched
first.
-/

namespace HazardFlow

/-- What the slots of a pool are like. -/
structure PoolLayout where
  /-- The usable bytes of a slot. -/
  slotSize : Nat := 256
  /-- The alignment of every slot. -/
  slotAlign : Nat := 64
  /-- The node that the pages are meant for. -/
  numaNode : Nat := 0
  /-- Where the pages are placed. -/
  placement : Placement := .device
  /-- The most free slots that a cache keeps. -/
  cacheCapacity : Nat := 16
  deriving DecidableEq, Repr

namespace PoolLayout

/-- One change to a layout. -/
inductive Change where
  | slotSize (bytes : Nat)
  | slotAlign (align : Nat)
  | numaNode (node : Nat)
  | placement (placement : Placement)
  | cacheCapacity (capacity : Nat)
  deriving DecidableEq, Repr

/-- The layout after a change. -/
def apply (l : PoolLayout) : Change → PoolLayout
  | .slotSize slotSize => { l with slotSize }
  | .slotAlign slotAlign => { l with slotAlign }
  | .numaNode numaNode => { l with numaNode }
  | .placement placement => { l with placement }
  | .cacheCapacity cacheCapacity => { l with cacheCapacity }

/-- The layout after changes made in turn. -/
def ofChanges (changes : List Change) : PoolLayout := changes.foldl apply {}

/-- The distance between neighbouring slots. -/
def stride (l : PoolLayout) : Nat := roundUp l.slotSize l.slotAlign

/-- The text of a layout. -/
def describe (l : PoolLayout) : String :=
  Text.record "PoolConfig"
    [("slot_size", toString l.slotSize), ("slot_align", toString l.slotAlign),
      ("numa_node", toString l.numaNode), ("strategy", l.placement.name),
      ("cache_capacity", toString l.cacheCapacity)]

end PoolLayout

/-- Pages of slots over an allocator. -/
structure Pool (α : Type) where
  allocator : α
  layout : PoolLayout
  /-- The pages, newest first. -/
  pages : List Page := []
  /-- What the pool has reported. -/
  log : Array LogRecord := #[]

/-- Hands out the first free slot of the first page that has one. -/
def claimFirst : List Page → Option (List Page × Address)
  | [] => none
  | page :: rest =>
    match page.claim with
    | some (page, slot) => some (page :: rest, slot)
    | none => (claimFirst rest).map fun (rest, slot) => (page :: rest, slot)

/-- The first page that contains an address, by its place in the chain. -/
def findPage : List Page → Address → Except Fault (Option (Nat × Page))
  | [], _ => .ok none
  | page :: rest, a =>
    match page.contains a with
    | .error fault => .error fault
    | .ok true => .ok (some (0, page))
    | .ok false => (findPage rest a).map (·.map fun (place, page) => (place + 1, page))

namespace Pool

variable {α : Type}

/-- The distance between neighbouring slots. -/
def stride (p : Pool α) : Nat := p.layout.stride

/-- The number of slots handed out. -/
def occupancy (p : Pool α) : Nat := p.pages.foldr (fun page total => page.occupancy + total) 0

/-- Adds a page in front of the others, with its first slot handed out or not. -/
def grow [Allocator α] (p : Pool α) (taken : Bool) : Pool α × Except AllocError Page :=
  let bytes := p.stride * slotsPerPage
  if maxWord < bytes then (p, .error (.outOfMemory maxWord))
  else
    match Allocator.allocate p.allocator bytes p.layout.placement p.layout.slotAlign with
    | (allocator, .error cause) => ({ p with allocator }, .error cause)
    | (allocator, .ok base) =>
      let page : Page :=
        { base
          occupied := (Vector.replicate slotsPerPage false).set 0 taken (by decide)
          numaNode := p.layout.numaNode
          stride := p.stride }
      let report : LogRecord :=
        { level := .debug, message := "bitmask pool grew",
          fields := [("pages", .number (p.pages.length + 1)), ("bytes", .number bytes),
            ("numa_node", .number p.layout.numaNode)] }
      ({ p with allocator, pages := page :: p.pages, log := p.log.push report }, .ok page)

/-- A pool with one page over the allocator behind a handle. The handle is checked first, then the
size and the alignment of the slots; a stride that exceeds the largest word is a fault. The
outcome holds the allocator even when there is no pool. -/
def create [Allocator α] (handle : Option α) (layout : PoolLayout) :
    Outcome (Option α) (Except AllocError (Pool α)) :=
  match handle with
  | none => .pure none (.error .nullAllocator)
  | some allocator =>
    if layout.slotSize = 0 then .pure handle (.error .zeroSize)
    else if isPowerOfTwo layout.slotAlign = false then
      .pure handle (.error (.invalidAlignment layout.slotAlign))
    else if maxWord < layout.stride then .fail handle .addOverflow
    else
      match grow { allocator, layout } false with
      | (pool, .ok _) => .pure (some pool.allocator) (.ok pool)
      | (pool, .error cause) => .pure (some pool.allocator) (.error cause)

/-- Hands out a slot of the pages there are, unless all are full. -/
def take (p : Pool α) : Option (Pool α × Address) :=
  (claimFirst p.pages).map fun (pages, slot) => ({ p with pages }, slot)

/-- Hands out a slot, adding a page when all are full. -/
def allocate [Allocator α] (p : Pool α) : Pool α × Except AllocError Address :=
  match p.take with
  | some (p, slot) => (p, .ok slot)
  | none => (p.grow true).map id (·.map fun page => page.slot 0)

/-- Hands out up to so many slots of the pages there are. -/
def batch (p : Pool α) : Nat → Pool α × List Address
  | 0 => (p, [])
  | n + 1 =>
    match p.take with
    | none => (p, [])
    | some (p, slot) =>
      let (p, slots) := p.batch n
      (p, slot :: slots)

/-- The page and the slot that start at an address. -/
def locate (p : Pool α) (a : Address) :
    Except Fault (Except AllocError (Nat × Page × Fin slotsPerPage)) :=
  (findPage p.pages a).map fun
    | none => .error .unknownPointer
    | some (place, page) =>
      match page.slotAt a with
      | none => .error .unknownPointer
      | some slot => .ok (place, page, slot)

/-- Takes a slot back. Taking back a slot that is not handed out is a fault. -/
def deallocate (p : Pool α) (a : Address) : Outcome (Pool α) (Except AllocError Unit) :=
  match p.locate a with
  | .error fault => .fail p fault
  | .ok (.error cause) => .pure p (.error cause)
  | .ok (.ok (place, page, slot)) =>
    let cleared := { p with pages := p.pages.set place (page.mark slot false) }
    if page.occupied.get slot then .pure cleared (.ok ()) else .fail cleared .slotFreedTwice

/-- The node of the page that contains an address. -/
def numaNodeOf (p : Pool α) (a : Address) : Except Fault (Option Nat) :=
  (findPage p.pages a).map (·.map fun entry => entry.2.numaNode)

/-- Gives one page back to the allocator, and reports what goes wrong. -/
def discardPage [Allocator α] (state : α × Array LogRecord) (page : Page) :
    α × Array LogRecord :=
  let (allocator, log) := state
  let log :=
    if page.occupancy = 0 then log
    else log.push
      { level := .warn, message := "bitmask pool dropped with outstanding slots",
        fields := [("live", .number page.occupancy)] }
  match Allocator.deallocate allocator page.base with
  | (allocator, .ok ()) => (allocator, log)
  | (allocator, .error cause) =>
    (allocator, log.push
      { level := .warn, message := "failed to release bitmask pool page",
        fields := [("err", .text cause.message)] })

/-- Gives every page back, newest first. Answers the allocator and all reports of the pool. -/
def discard [Allocator α] (p : Pool α) : α × Array LogRecord :=
  p.pages.foldl discardPage (p.allocator, p.log)

/-- The text of a pool. -/
def describe (p : Pool α) : String :=
  Text.openRecord "BitmaskPool"
    [("pages", toString p.pages.length), ("stride", toString p.stride),
      ("config", p.layout.describe)]

end Pool

end HazardFlow
