import HazardFlow.Word

/-!
# Requests for memory

Where memory is placed, whose it is, why a request is refused, and what an allocator does.
-/

namespace HazardFlow

/-- Where an allocation is placed. -/
inductive Placement where
  /-- Local to the device. -/
  | device
  /-- Accessible from both the host and the device. -/
  | shared
  /-- Page-locked memory of the host, which the device reads directly. -/
  | hostPinned
  deriving DecidableEq, Repr, Inhabited

/-- The name of a placement. -/
def Placement.name : Placement → String
  | .device => "Device"
  | .shared => "Shared"
  | .hostPinned => "HostPinned"

/-- The placement of a name. Any other name stands for the device. -/
def Placement.ofName (name : String) : Placement :=
  if name = Placement.shared.name then .shared
  else if name = Placement.hostPinned.name then .hostPinned
  else .device

/-- Whose memory it is, or where kernels run. -/
inductive DeviceId where
  | host
  | accelerator (ordinal : Nat)
  deriving DecidableEq, Repr

/-- The text of a device. -/
def DeviceId.describe : DeviceId → String
  | .host => "Host"
  | .accelerator ordinal => s!"Accelerator({ordinal})"

/-- Why a request is refused. -/
inductive AllocError where
  /-- No bytes were asked for. -/
  | zeroSize
  /-- There is no allocator behind the handle. -/
  | nullAllocator
  /-- The alignment is no power of two, or the block would be too large once aligned. -/
  | invalidAlignment (align : Nat)
  /-- The memory is not there. -/
  | outOfMemory (bytes : Nat)
  /-- The pointer is no live allocation or slot. -/
  | unknownPointer
  deriving DecidableEq, Repr

/-- The wording of a refusal. -/
def AllocError.message : AllocError → String
  | .zeroSize => "zero-size allocation requested"
  | .nullAllocator => "allocation through an empty allocator handle"
  | .invalidAlignment align => s!"alignment {align} is not a power of two"
  | .outOfMemory bytes => s!"out of memory allocating {bytes} bytes"
  | .unknownPointer => "pointer was not allocated here"

/-- The name of the cause of a refusal. -/
def AllocError.name : AllocError → String
  | .zeroSize => "ZeroSize"
  | .nullAllocator => "NullAllocator"
  | .invalidAlignment _ => "InvalidAlignment"
  | .outOfMemory _ => "OutOfMemory"
  | .unknownPointer => "UnknownPointer"

/-- States of an allocator: they hand out blocks of memory and take them back. -/
class Allocator (α : Type) where
  /-- Hands out a block of so many bytes, placed and aligned as asked. -/
  allocate (state : α) (bytes : Nat) (placement : Placement) (align : Nat) :
    α × Except AllocError Address
  /-- Takes a block back. -/
  deallocate (state : α) (block : Address) : α × Except AllocError Unit

/-- Asks the allocator behind a handle, which may be empty. -/
def allocateWith {α : Type} [Allocator α] (handle : Option α) (bytes : Nat)
    (placement : Placement) (align : Nat) : Option α × Except AllocError Address :=
  match handle with
  | none => (none, .error .nullAllocator)
  | some state =>
    let (state, answer) := Allocator.allocate state bytes placement align
    (some state, answer)

end HazardFlow
