import HazardFlow.Ownership.Store

/-!
# Handles by name

A session keeps handles under names and applies one command after another to them. Placing a
handle under a name gives up the handle that was there, after the command's own work.
-/

namespace HazardFlow.Ownership

/-- Handles under names. A reference in raw form is owned by nobody in the session. -/
structure Session where
  store : Store := {}
  slots : List (String × Handle) := []
  raws : List (String × Handle) := []
  deriving Repr

/-- One command. -/
inductive Command where
  /-- A new object, which takes over the handle of `child`. -/
  | create (slot : String) (value : Nat) (child : Option String)
  | empty (slot : String)
  | clone (slot source : String)
  | move (slot source : String)
  /-- Makes an existing handle refer to what another refers to. -/
  | cloneFrom (slot source : String)
  | swap (slot other : String)
  /-- Gives up the reference and leaves the handle empty. -/
  | reset (slot : String)
  /-- Gives up the reference and the name. -/
  | drop (slot : String)
  | toRaw (slot raw : String)
  | ofRaw (slot raw : String)
  /-- Follows the handle, which must not be empty. -/
  | follow (slot : String)
  | value (slot : String)
  | owners (slot : String)
  | childOwners (slot : String)
  | cloneChild (slot target : String)
  | isEmpty (slot : String)
  | points (slot : String)
  | same (slot other : String)
  | describe (slot : String)
  deriving DecidableEq, Repr

/-- What a command answers. -/
inductive Answer where
  | done
  | nothing
  | flag (b : Bool)
  | number (n : Int)
  | text (t : String)
  deriving DecidableEq, Repr

/-- A name under which the session keeps nothing. -/
structure UnknownName where
  name : String
  deriving DecidableEq, Repr

namespace Session

/-- The handle under a name. -/
def find (s : Session) (name : String) : Except UnknownName Handle :=
  match s.slots.lookup name with
  | some h => .ok h
  | none => .error ⟨name⟩

/-- Forgets a name without giving up its handle. -/
def forget (s : Session) (name : String) : Session :=
  { s with slots := s.slots.filter fun entry => entry.1 != name }

/-- Puts a handle under a name without giving up the one that was there. -/
def put (s : Session) (name : String) (h : Handle) : Session :=
  { s.forget name with slots := (name, h) :: (s.forget name).slots }

/-- Places a handle under a name and then gives up the one that was there. -/
def place (s : Session) (name : String) (h : Handle) : Outcome Session Answer :=
  let old := (s.slots.lookup name).join
  let s := s.put name h
  ((s.store.release old).lift fun store => { s with store }).map fun _ => .done

/-- Acquires the object of a handle, for a copy of it. -/
def copy (s : Session) (h : Handle) : Outcome Session Handle :=
  ((s.store.acquire h).lift fun store => { s with store }).map fun _ => h

/-- The object of a handle, which must not be empty. -/
def objectOf (s : Session) : Handle → Except Fault SharedObject
  | none => .error .emptyHandle
  | some id => .ok (s.store.object id)

/-- The answer of a command that only looks. -/
def look (s : Session) (answer : Except Fault Answer) : Outcome Session Answer := ⟨s, answer⟩

/-- A number, or nothing. -/
def numberOrNothing : Option Int → Answer
  | some n => .number n
  | none => .nothing

/-- Does one command. -/
def perform (s : Session) : Command → Except UnknownName (Outcome Session Answer)
  | .create slot value child => do
    let (s, child) ← match child with
      | none => pure (s, none)
      | some name => do
        let h ← s.find name
        pure (s.forget name, some h)
    pure <| ((s.store.create value child).lift fun store => { s with store }).bind
      fun s id => s.place slot (some id)
  | .empty slot => pure (s.place slot none)
  | .clone slot source => do
    let h ← s.find source
    pure ((s.copy h).bind fun s h => s.place slot h)
  | .move slot source => do
    let h ← s.find source
    pure ((s.forget source).place slot h)
  | .cloneFrom slot source => do
    let _ ← s.find slot
    let h ← s.find source
    pure ((s.copy h).bind fun s h => s.place slot h)
  | .swap slot other => do
    let a ← s.find slot
    let b ← s.find other
    pure (.pure ((s.put slot b).put other a) .done)
  | .reset slot => do
    let _ ← s.find slot
    pure (s.place slot none)
  | .drop slot => do
    let _ ← s.find slot
    pure ((s.place slot none).bind fun s answer => .pure (s.forget slot) answer)
  | .toRaw slot raw => do
    let h ← s.find slot
    let s := s.forget slot
    pure (.pure { s with raws := (raw, h) :: s.raws.filter fun entry => entry.1 != raw }
      (.flag h.isSome))
  | .ofRaw slot raw =>
    match s.raws.lookup raw with
    | none => throw ⟨raw⟩
    | some h =>
      pure (({ s with raws := s.raws.filter fun entry => entry.1 != raw } : Session).place slot h)
  | .follow slot => do
    let h ← s.find slot
    pure (s.look ((s.objectOf h).map fun o => .number o.value))
  | .value slot => do
    let h ← s.find slot
    pure (s.look (.ok (numberOrNothing (h.map fun id => ((s.store.object id).value : Int)))))
  | .owners slot => do
    let h ← s.find slot
    pure (s.look (.ok (numberOrNothing (s.store.ownersOf h))))
  | .childOwners slot => do
    let h ← s.find slot
    pure <| s.look <| (s.objectOf h).bind fun o =>
      match o.child with
      | none => .ok .nothing
      | some child => (s.objectOf child).map fun c => .number c.owners.owners
  | .cloneChild slot target => do
    let h ← s.find slot
    match s.objectOf h with
    | .error fault => pure (.fail s fault)
    | .ok o => pure ((s.copy o.ownedHandle).bind fun s h => s.place target h)
  | .isEmpty slot => do
    let h ← s.find slot
    pure (s.look (.ok (.flag h.isNone)))
  | .points slot => do
    let h ← s.find slot
    pure (s.look (.ok (.flag h.isSome)))
  | .same slot other => do
    let a ← s.find slot
    let b ← s.find other
    pure (s.look (.ok (.flag (a == b))))
  | .describe slot => do
    let h ← s.find slot
    pure (s.look (.ok (.text (s.store.describe h))))

/-- What became of one command: its result, and the values of the objects it destroyed. -/
structure Entry where
  result : Except Fault Answer
  destroyed : List Nat

/-- Does commands in turn. A fault stops its own command only. -/
def performAll (s : Session) : List Command → Except UnknownName (Session × List Entry)
  | [] => pure (s, [])
  | command :: rest => do
    let o ← s.perform command
    let entry : Entry := ⟨o.result, o.state.store.destroyedSince s.store.journal.size⟩
    let (final, entries) ← o.state.performAll rest
    pure (final, entry :: entries)

/-- The values of the objects destroyed when the remaining handles are given up in the order of
their names. -/
def close (s : Session) : List Nat :=
  let ordered := s.slots.mergeSort fun a b => a.1 ≤ b.1
  (s.store.releaseAll (ordered.map Prod.snd)).state.destroyedSince s.store.journal.size

end Session

end HazardFlow.Ownership
