import HazardFlow.Memory.Request

/-!
# Recorded allocators

An allocator together with every call made of it. The blocks it has handed out are numbered in
order.
-/

namespace HazardFlow

/-- A call made of an allocator. -/
inductive AllocatorCall where
  | allocate (bytes : Nat) (placement : Placement) (align : Nat)
  /-- A block was given back. A block never handed out has no number. -/
  | deallocate (block : Option Nat)
  deriving DecidableEq, Repr

/-- An allocator and the calls made of it. -/
structure Recorded (α : Type) where
  inner : α
  calls : Array AllocatorCall := #[]
  /-- The blocks handed out, in order. -/
  blocks : Array Address := #[]

namespace Recorded

variable {α : Type} [Allocator α]

/-- Passes a request on, and notes it. -/
def allocate (r : Recorded α) (bytes : Nat) (placement : Placement) (align : Nat) :
    Recorded α × Except AllocError Address :=
  let calls := r.calls.push (.allocate bytes placement align)
  match Allocator.allocate r.inner bytes placement align with
  | (inner, .ok base) => ({ inner, calls, blocks := r.blocks.push base }, .ok base)
  | (inner, .error cause) => ({ r with inner, calls }, .error cause)

/-- Gives a block back, and notes it. -/
def deallocate (r : Recorded α) (block : Address) : Recorded α × Except AllocError Unit :=
  let calls := r.calls.push (.deallocate (r.blocks.findIdx? (· == block)))
  let (inner, answer) := Allocator.deallocate r.inner block
  ({ r with inner, calls }, answer)

instance : Allocator (Recorded α) := ⟨allocate, deallocate⟩

end Recorded

end HazardFlow
