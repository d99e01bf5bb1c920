import HazardFlow.Ownership.OwnerCount

/-!
# Objects and their owners

A store holds objects that count their owners. A handle owns one reference to an object or is
empty; an object may own a handle to an older object, its child. The reference given up last
destroys the object, and the destroyed object then gives up its child.
-/

namespace HazardFlow

/-- An object of a store, by its order of creation. -/
abbrev ObjectId := Nat

/-- One reference to an object, or an empty handle. -/
abbrev Handle := Option ObjectId

/-- An object that counts its owners. -/
structure SharedObject where
  owners : OwnerCount
  /-- What the object stands for. -/
  value : Nat
  /-- The handle that the object owns, if it has a place for one. -/
  child : Option Handle
  /-- Whether the object has not been destroyed. -/
  live : Bool := true
  deriving DecidableEq, Repr, Inhabited

namespace SharedObject

/-- The handle that the object gives up when it is destroyed. -/
def ownedHandle (o : SharedObject) : Handle := o.child.join

/-- The text of an object. -/
def describe (o : SharedObject) : String :=
  Text.record "Counted"
    [("refs", o.owners.describe), ("value", Text.wrapped "Item" (toString o.value))]

end SharedObject

/-- Objects, and a journal of those destroyed. -/
structure Store where
  objects : Array SharedObject := #[]
  /-- The objects destroyed so far, in order. -/
  journal : Array ObjectId := #[]
  deriving DecidableEq, Repr

namespace Store

/-- The object of an identifier. -/
def object (s : Store) (id : ObjectId) : SharedObject := s.objects.getD id default

/-- Replaces the owner count of an object. -/
def setOwners (s : Store) (id : ObjectId) (owners : OwnerCount) : Store :=
  { s with objects := s.objects.modify id fun o => { o with owners } }

/-- Marks an object destroyed and notes it in the journal. -/
def destroy (s : Store) (id : ObjectId) : Store :=
  { objects := s.objects.modify id fun o => { o with live := false }
    journal := s.journal.push id }

/-- Adds an owner to the object of a handle. Nothing happens to an empty one. -/
def acquire (s : Store) : Handle → Outcome Store Unit
  | none => .pure s ()
  | some id => (s.object id).owners.acquire.lift (s.setOwners id)

/-- Gives up a reference. The last one destroys the object, then gives up its child, which is
always older. -/
def releaseObject (s : Store) (id : ObjectId) : Outcome Store Unit :=
  match (s.object id).owners.release.lift (s.setOwners id) with
  | ⟨s, .error fault⟩ => .fail s fault
  | ⟨s, .ok false⟩ => .pure s ()
  | ⟨s, .ok true⟩ =>
    let s := s.destroy id
    match (s.object id).ownedHandle with
    | none => .pure s ()
    | some child => if child < id then s.releaseObject child else .pure s ()
termination_by id

/-- Gives up the reference of a handle, if it has one. -/
def release (s : Store) : Handle → Outcome Store Unit
  | none => .pure s ()
  | some id => s.releaseObject id

/-- Gives up references in turn. -/
def releaseAll (s : Store) : List Handle → Outcome Store Unit
  | [] => .pure s ()
  | h :: rest => (s.release h).bind fun s _ => s.releaseAll rest

/-- A new object with its first owner. The child's reference moves into the object. -/
def create (s : Store) (value : Nat) (child : Option Handle) : Outcome Store ObjectId :=
  let id := s.objects.size
  let fresh : Store := { s with objects := s.objects.push { owners := {}, value, child } }
  (fresh.acquire (some id)).map fun _ => id

/-- The number of owners of the object of a handle. -/
def ownersOf (s : Store) (h : Handle) : Option Int := h.map fun id => (s.object id).owners.owners

/-- The values of the objects destroyed since the journal had `before` entries. -/
def destroyedSince (s : Store) (before : Nat) : List Nat :=
  (s.journal.toList.drop before).map fun id => (s.object id).value

/-- The text of a handle. -/
def describe (s : Store) : Handle → String
  | none => "Shared(<empty>)"
  | some id => Text.wrapped "Shared" (s.object id).describe

end Store

end HazardFlow
