import HazardFlow.Fault
import HazardFlow.Memory.HostHeap

/-!
# A counted handle to memory of the host

Commands on an allocator behind a handle that counts its copies, or behind an empty handle.
-/

namespace HazardFlow

/-- An allocator behind a handle, and the pointers it has handed out. -/
structure HostSession where
  /-- The allocator, unless the handle is empty. -/
  heap : Option HostHeap
  /-- Copies of the handle besides the first. -/
  copies : Nat := 0
  /-- The blocks handed out, in order. -/
  pointers : Array Address := #[]
  deriving Repr

namespace HostSession

/-- One command. A pointer is given by its number and a distance from it. -/
inductive Command where
  | allocate (bytes : Nat) (placement : Placement) (align : Nat)
  | free (pointer : Nat) (distance : Int)
  | device (pointer : Nat) (distance : Int)
  | placement (pointer : Nat) (distance : Int)
  | live
  | copy
  | dropCopy
  deriving DecidableEq, Repr

/-- What a command answers. -/
inductive Answer where
  | done
  | nothing
  /-- The number of a new pointer, and whether it is aligned as asked. -/
  | pointer (number : Nat) (aligned : Bool)
  | refused (cause : AllocError)
  | text (t : String)
  | number (n : Nat)
  /-- The command names a pointer that was not handed out. -/
  | unknown
  deriving DecidableEq, Repr

/-- The address at a distance from a pointer. -/
def addressAt (s : HostSession) (pointer : Nat) (distance : Int) : Option Address :=
  s.pointers[pointer]?.map fun address => asWord (address + distance)

/-- The number of copies of the handle, if it is not empty. -/
def handles (s : HostSession) : Answer :=
  match s.heap with
  | some _ => .number (s.copies + 1)
  | none => .nothing

/-- The allocator behind the handle, which must not be empty. -/
def allocator (s : HostSession) : Except Fault HostHeap :=
  match s.heap with
  | some heap => .ok heap
  | none => .error .emptyHandle

/-- Looks at the block at a distance from a pointer. -/
def inspect (s : HostSession) (pointer : Nat) (distance : Int)
    (view : HostHeap → Address → Option String) : Outcome HostSession Answer :=
  match s.addressAt pointer distance with
  | none => .pure s .unknown
  | some address =>
    ⟨s, s.allocator.map fun heap => ((view heap address).map Answer.text).getD .nothing⟩

/-- Gives back the block at a distance from a pointer. -/
def free (s : HostSession) (pointer : Nat) (distance : Int) : Outcome HostSession Answer :=
  match s.addressAt pointer distance, s.allocator with
  | none, _ => .pure s .unknown
  | some _, .error fault => .fail s fault
  | some address, .ok heap =>
    let (heap, answer) := heap.deallocate address
    .pure { s with heap := some heap } (match answer with
      | .ok () => .done
      | .error cause => .refused cause)

/-- Does one command. -/
def perform (s : HostSession) : Command → Outcome HostSession Answer
  | .allocate bytes placement align =>
    match allocateWith s.heap bytes placement align with
    | (heap, .ok address) =>
      .pure { s with heap, pointers := s.pointers.push address }
        (.pointer s.pointers.size (address % align == 0))
    | (heap, .error cause) => .pure { s with heap } (.refused cause)
  | .free pointer distance => s.free pointer distance
  | .device pointer distance =>
    s.inspect pointer distance fun heap address => (heap.deviceOf address).map DeviceId.describe
  | .placement pointer distance =>
    s.inspect pointer distance fun heap address => (heap.placementOf address).map Placement.name
  | .live => ⟨s, s.allocator.map fun heap => .number heap.live.length⟩
  | .copy => let s := { s with copies := s.copies + 1 }; .pure s s.handles
  | .dropCopy => let s := { s with copies := s.copies - 1 }; .pure s s.handles

/-- The results of commands done in turn, and what is reported when the handle goes away. A fault
stops its own command only. -/
def performAll (s : HostSession) :
    List Command → List (Except Fault Answer) × List LogRecord
  | [] => ([], (s.heap.map HostHeap.farewell).getD [])
  | command :: rest =>
    let o := s.perform command
    let (results, log) := o.state.performAll rest
    (o.result :: results, log)

end HostSession

end HazardFlow
