import HazardFlow.Graph.Edge

/-!
# Hazards

Declared reads and writes become edges. Every address falls into one of a fixed number of shards,
and a shard remembers who wrote last and who has read since. Addresses that share a shard are
ordered as if they were one: that may add edges, but never loses one.
-/

namespace HazardFlow

/-- The number of bytes in a cache line. Addresses of one line fall into one shard. -/
def lineBytes : Nat := 64

/-- The number of bytes that a shard takes: two cache lines, so that threads that work on
neighbouring shards do not disturb each other. -/
def shardBytes : Nat := 128

/-- Who has used the addresses of a shard. -/
structure Shard where
  lastWriter : Option NodeId := none
  /-- The readers since the last write, oldest first. -/
  readers : List NodeId := []
  deriving DecidableEq, Repr, Inhabited

/-- The shards, and how long a list of readers grows before complete readers are dropped from it.
Without a limit none is ever dropped. -/
structure Tracker where
  shards : Array Shard
  readerLimit : Option Nat := some 64
  deriving DecidableEq, Repr

namespace Tracker

variable {κ : Type}

/-- A tracker with a power of two of empty shards, which must fit in one block of memory. -/
def create (count : Nat) : Except Fault Tracker :=
  if isPowerOfTwo count = false then .error (.shardCount count)
  else if maxBlock < count * shardBytes then .error .capacityOverflow
  else .ok { shards := Array.replicate count {} }

/-- The shard of an address. -/
def shardOf (t : Tracker) (a : Address) : Nat := a / lineBytes % t.shards.size

/-- Who has used the shard of an address. -/
def shardAt (t : Tracker) (a : Address) : Shard := t.shards.getD (t.shardOf a) {}

/-- Replaces the shard of an address. -/
def setShard (t : Tracker) (a : Address) (s : Shard) : Tracker :=
  { t with shards := t.shards.setIfInBounds (t.shardOf a) s }

/-- Forgets all accesses. -/
def reset (t : Tracker) : Tracker := { t with shards := t.shards.map fun _ => {} }

/-- The number of readers remembered for the shard of an address. -/
def readersOf (t : Tracker) (a : Address) : Nat := (t.shardAt a).readers.length

/-- Drops complete readers from a list that has reached the limit. -/
def prune (t : Tracker) (g : Graph κ) (readers : List NodeId) : List NodeId :=
  if t.readerLimit.any (· ≤ readers.length) then readers.filter fun n => !g.isComplete n
  else readers

/-- Adds a reader, unless it is the newest one already. -/
def addReader (readers : List NodeId) (n : NodeId) : List NodeId :=
  if readers.getLast? = some n then readers else readers ++ [n]

/-- Orders an access of a node after the earlier ones that it conflicts with, and answers how many
edges were recorded. A write waits for the last writer and every reader, and is then the only
access remembered. A read waits for the last writer and joins the readers. A write that stops at a
reader has emptied the list of readers, but not replaced the last writer. -/
def resolve (t : Tracker) (g : Graph κ) (n : NodeId) (a : Address) (write : Bool) :
    Outcome (Tracker × Graph κ) Nat :=
  let shard := t.shardAt a
  ((g.linkAll shard.lastWriter.toList n).lift (t, ·)).bind fun (t, g) wired =>
    if write then
      match g.linkAll shard.readers n with
      | ⟨g, .ok more⟩ => .pure (t.setShard a { lastWriter := some n }, g) (wired + more)
      | ⟨g, .error fault⟩ => .fail (t.setShard a { shard with readers := [] }, g) fault
    else
      .pure (t.setShard a { shard with readers := addReader (t.prune g shard.readers) n }, g)
        wired

/-- The shards in use, with whether they have a last writer and how many readers. -/
def inUse (t : Tracker) : List (Nat × Bool × Nat) :=
  (t.shards.toList.zipIdx.filter fun entry => entry.1 != {}).map fun (shard, index) =>
    (index, shard.lastWriter.isSome, shard.readers.length)

/-- A tracker has as many shards as were asked for. -/
theorem size_shards_of_create {count : Nat} {t : Tracker} (h : create count = .ok t) :
    t.shards.size = count := by
  unfold create at h
  split at h
  · cases h
  · split at h
    · cases h
    · cases h
      simp

/-- Every address falls into one of the shards. -/
theorem shardOf_lt {t : Tracker} (h : 0 < t.shards.size) (a : Address) :
    t.shardOf a < t.shards.size :=
  Nat.mod_lt _ h

end Tracker

end HazardFlow
