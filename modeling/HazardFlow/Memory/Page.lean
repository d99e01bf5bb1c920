import HazardFlow.Fault
import HazardFlow.Word

/-!
# Pages of slots

A page is a block of memory cut into slots of one size, with a mark on every slot that is handed
out.
-/

namespace HazardFlow

/-- The number of slots in a page. -/
def slotsPerPage : Nat := 64

/-- A block of memory cut into slots. -/
structure Page where
  base : Address
  /-- Which slots are handed out. -/
  occupied : Vector Bool slotsPerPage
  numaNode : Nat
  /-- The distance between neighbouring slots. -/
  stride : Nat
  deriving DecidableEq, Repr

namespace Page

/-- The number of bytes in a page. -/
def bytes (p : Page) : Nat := p.stride * slotsPerPage

/-- Whether an address lies in the page. A page whose end is no address cannot be asked. -/
def contains (p : Page) (a : Address) : Except Fault Bool :=
  if maxWord < p.base + p.bytes then .error .addOverflow
  else .ok (p.base ≤ a && a < p.base + p.bytes)

/-- The address of a slot. -/
def slot (p : Page) (index : Nat) : Address := p.base + index * p.stride

/-- The first slot that is not handed out. -/
def firstFree (p : Page) : Option (Fin slotsPerPage) := p.occupied.findFinIdx? (!·)

/-- The number of slots handed out. -/
def occupancy (p : Page) : Nat := p.occupied.count true

/-- Marks a slot, or takes its mark away. -/
def mark (p : Page) (index : Fin slotsPerPage) (taken : Bool) : Page :=
  { p with occupied := p.occupied.set index taken }

/-- Hands out the first slot that is not handed out yet. -/
def claim (p : Page) : Option (Page × Address) :=
  p.firstFree.map fun index => (p.mark index true, p.slot index)

/-- The slot that starts at an address of the page. -/
def slotAt (p : Page) (a : Address) : Option (Fin slotsPerPage) :=
  let offset := a - p.base
  if h : offset / p.stride < slotsPerPage then
    if offset % p.stride = 0 then some ⟨offset / p.stride, h⟩ else none
  else none

@[simp] theorem base_mark (p : Page) (index : Fin slotsPerPage) (taken : Bool) :
    (p.mark index taken).base = p.base := rfl

@[simp] theorem stride_mark (p : Page) (index : Fin slotsPerPage) (taken : Bool) :
    (p.mark index taken).stride = p.stride := rfl

/-- The first slot starts where its page does. -/
theorem slot_zero (p : Page) : p.slot 0 = p.base := by simp [slot]

end Page

end HazardFlow
