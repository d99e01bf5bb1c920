import HazardFlow.Memory.Pool

/-!
# Caches of slots

A bounded stack of free slots over a pool. It refills in batches when it runs dry, and what it
keeps counts as handed out by the pool.
-/

namespace HazardFlow

/-- Free slots kept out of a pool. -/
structure SlotCache where
  /-- The slots kept, newest first. -/
  slots : List Address := []
  /-- The most slots kept. -/
  capacity : Nat
  deriving DecidableEq, Repr

namespace SlotCache

variable {α : Type}

/-- An empty cache with room for at least one slot. The room for the addresses of its slots must
itself be a block of memory. -/
def forPool (p : Pool α) : Except Fault SlotCache :=
  let capacity := max p.layout.cacheCapacity 1
  if maxBlock < capacity * 8 then .error .capacityOverflow else .ok { capacity }

/-- Fills an empty cache from the pages there are. -/
def refill (c : SlotCache) (p : Pool α) : Pool α × SlotCache :=
  if c.slots.isEmpty then
    let (p, slots) := p.batch c.capacity
    (p, { c with slots := slots.reverse })
  else (p, c)

/-- Hands out the newest slot kept, refilling an empty cache first. A pool whose pages are all
full hands out the slot itself. -/
def allocate [Allocator α] (c : SlotCache) (p : Pool α) :
    Pool α × SlotCache × Except AllocError Address :=
  let (p, c) := c.refill p
  match c.slots with
  | slot :: rest => (p, { c with slots := rest }, .ok slot)
  | [] =>
    let (p, answer) := p.allocate
    (p, c, answer)

/-- Keeps a slot for reuse, or gives it back to the pool when the cache is full. -/
def free (c : SlotCache) (p : Pool α) (a : Address) :
    Outcome (Pool α × SlotCache) (Except AllocError Unit) :=
  if c.slots.length = c.capacity then (p.deallocate a).lift fun p => (p, c)
  else
    match p.locate a with
    | .error fault => .fail (p, c) fault
    | .ok (.error cause) => .pure (p, c) (.error cause)
    | .ok (.ok _) => .pure (p, { c with slots := a :: c.slots }) (.ok ())

/-- Gives slots back to the pool in turn. A slot that the pool does not know is a fault. -/
def giveBack (p : Pool α) : List Address → Outcome (Pool α) Unit
  | [] => .pure p ()
  | a :: rest =>
    (p.deallocate a).bind fun p answer =>
      match answer with
      | .ok () => giveBack p rest
      | .error _ => .fail p .flushRejected

/-- Gives every slot kept back to the pool, oldest first, and answers how many there were. A fault
leaves the cache empty all the same. -/
def flush (c : SlotCache) (p : Pool α) : Outcome (Pool α × SlotCache) Nat :=
  ((giveBack p c.slots.reverse).lift fun p => (p, { c with slots := [] })).map
    fun _ => c.slots.length

end SlotCache

end HazardFlow
