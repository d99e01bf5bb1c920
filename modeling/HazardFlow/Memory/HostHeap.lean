import HazardFlow.Log
import HazardFlow.Memory.Request

/-!
# Memory of the host

An allocator that serves every placement from memory of the host and remembers what each live
block was asked for. Blocks are laid out one after another, far from each other, so that an address
somewhat past the end of one never belongs to the next.
-/

namespace HazardFlow

/-- A live block. -/
structure HostBlock where
  address : Address
  bytes : Nat
  placement : Placement
  deriving DecidableEq, Repr

/-- An allocator on memory of the host. -/
structure HostHeap where
  /-- The device that the memory is reported as belonging to. -/
  device : DeviceId := .host
  /-- The live blocks, newest first. -/
  live : List HostBlock := []
  /-- Where the next block may start. -/
  next : Address := 1 <<< 46
  deriving DecidableEq, Repr

namespace HostHeap

/-- Blocks that take this many bytes once aligned are never served. -/
def capacity : Nat := 1 <<< 50

/-- The least distance between the end of a block and the start of the next. -/
def margin : Nat := 1 <<< 30

/-- Whether blocks of this size and alignment exist at all. -/
def isLayout (bytes align : Nat) : Bool :=
  isPowerOfTwo align && roundUp bytes align ≤ maxBlock

/-- Hands out a block, or says why not. -/
def allocate (h : HostHeap) (bytes : Nat) (placement : Placement) (align : Nat) :
    HostHeap × Except AllocError Address :=
  if bytes = 0 then (h, .error .zeroSize)
  else if isLayout bytes align = false then (h, .error (.invalidAlignment align))
  else if capacity ≤ roundUp bytes align then (h, .error (.outOfMemory bytes))
  else
    let address := roundUp h.next align
    let after := address + bytes
    if maxWord < after then (h, .error (.outOfMemory bytes))
    else
      ({ h with live := ⟨address, bytes, placement⟩ :: h.live, next := after + margin },
        .ok address)

/-- The live block at an address. -/
def find (h : HostHeap) (address : Address) : Option HostBlock :=
  h.live.find? fun block => block.address == address

/-- Takes a block back. -/
def deallocate (h : HostHeap) (address : Address) : HostHeap × Except AllocError Unit :=
  match h.find address with
  | none => (h, .error .unknownPointer)
  | some _ =>
    ({ h with live := h.live.filter fun block => block.address != address }, .ok ())

/-- The device of a live block. -/
def deviceOf (h : HostHeap) (address : Address) : Option DeviceId :=
  (h.find address).map fun _ => h.device

/-- What a live block was asked for. -/
def placementOf (h : HostHeap) (address : Address) : Option Placement :=
  (h.find address).map HostBlock.placement

/-- What is reported when the allocator goes away. -/
def farewell (h : HostHeap) : List LogRecord :=
  if h.live.isEmpty then []
  else
    [{ level := .warn, message := "host allocator dropped with live allocations",
       fields := [("count", .number h.live.length)] }]

instance : Allocator HostHeap := ⟨allocate, deallocate⟩

@[simp] theorem isLayout_zero_align (bytes : Nat) : isLayout bytes 0 = false := by
  simp [isLayout, isPowerOfTwo]

end HostHeap

end HazardFlow
