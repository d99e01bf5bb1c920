import HazardFlow.Memory.Request

/-!
# Arenas

An allocator that only computes addresses. Blocks follow one another at a fixed gap. How many
there are may be limited, and chosen ones refuse to be taken back.
-/

namespace HazardFlow

/-- An allocator that only computes addresses. -/
structure Arena where
  /-- Where the next block may start. -/
  cursor : Address := 65536
  /-- The distance kept between blocks. -/
  gap : Nat := 4096
  /-- The most blocks handed out, if they are limited. -/
  limit : Option Nat := none
  /-- The blocks, by order, that refuse to be taken back. -/
  stuck : List Nat := []
  /-- The blocks handed out, in order. -/
  blocks : Array Address := #[]
  deriving DecidableEq, Repr

namespace Arena

/-- Hands out the next block, while there may be more and all addresses fit in a word. -/
def allocate (a : Arena) (bytes : Nat) (_ : Placement) (align : Nat) :
    Arena × Except AllocError Address :=
  let base := roundUp a.cursor align
  let cursor := base + bytes + a.gap
  if maxWord < cursor ∨ a.limit.any (· ≤ a.blocks.size) then (a, .error (.outOfMemory bytes))
  else ({ a with cursor, blocks := a.blocks.push base }, .ok base)

/-- Takes a block back, unless it is stuck. -/
def deallocate (a : Arena) (block : Address) : Arena × Except AllocError Unit :=
  match a.blocks.findIdx? (· == block) with
  | some index => (a, if index ∈ a.stuck then .error .unknownPointer else .ok ())
  | none => (a, .error .unknownPointer)

instance : Allocator Arena := ⟨allocate, deallocate⟩

end Arena

end HazardFlow
