import HazardFlow.Ownership.Store
import HazardFlow.SealableList

/-!
# Chains of handles

Handles pushed on lists that can be sealed. A push hands over a copy of a held handle. Sealing a
list turns its entries into a run, which hands them over one by one; a list dropped before it is
sealed, and a run dropped before its end, give up what they still own, newest entry first.
-/

namespace HazardFlow.Ownership

/-- Held handles, lists and runs, each numbered in order of creation. -/
structure Chains where
  store : Store := {}
  /-- The handles still held. -/
  held : Array Handle := #[]
  /-- The lists not yet dropped. -/
  lists : Array (Option (SealableList ObjectId)) := #[]
  /-- What each run has not yet handed over. -/
  runs : Array (List ObjectId) := #[]
  deriving Repr

namespace Chains

/-- One command. -/
inductive Command where
  /-- A new list. -/
  | list
  /-- A new object, with a held handle. -/
  | object (value : Nat)
  | push (list item : Nat)
  | close (list : Nat)
  | next (run : Nat)
  | rest (run : Nat)
  | isClosed (list : Nat)
  | dropList (list : Nat)
  | dropRun (run : Nat)
  | dropObject (item : Nat)
  | owners (item : Nat)
  deriving DecidableEq, Repr

/-- What a command answers. -/
inductive Answer where
  | done
  | nothing
  | number (n : Int)
  | flag (b : Bool)
  | numbers (ns : List Nat)
  | pushed
  /-- The value of an object handed back by a sealed list. -/
  | refused (value : Nat)
  deriving DecidableEq, Repr

/-- A list, run or object that the session does not have. -/
structure UnknownNumber where
  number : Nat
  deriving DecidableEq, Repr

/-- The list of a number, unless it was dropped. -/
def listAt (c : Chains) (n : Nat) : Except UnknownNumber (SealableList ObjectId) :=
  match c.lists[n]? with
  | some (some l) => .ok l
  | _ => .error ⟨n⟩

/-- The part of a run not yet handed over. -/
def runAt (c : Chains) (n : Nat) : Except UnknownNumber (List ObjectId) :=
  match c.runs[n]? with
  | some entries => .ok entries
  | none => .error ⟨n⟩

/-- The held handle of a number, empty once it was dropped. -/
def heldAt (c : Chains) (n : Nat) : Except UnknownNumber Handle :=
  match c.held[n]? with
  | some h => .ok h
  | none => .error ⟨n⟩

/-- Gives up references in turn. -/
def giveUp (c : Chains) (ids : List ObjectId) : Outcome Chains Unit :=
  (c.store.releaseAll (ids.map some)).lift fun store => { c with store }

/-- Pushes a copy of a held handle; a sealed list hands it back, and it is given up. -/
def push (c : Chains) (n : Nat) (l : SealableList ObjectId) (id : ObjectId) :
    Outcome Chains Answer :=
  ((c.store.acquire (some id)).lift fun store => { c with store }).bind fun c _ =>
    match l.push id with
    | some l => .pure { c with lists := c.lists.setIfInBounds n (some l) } .pushed
    | none => (c.giveUp [id]).map fun _ => .refused (c.store.object id).value

/-- Does one command. -/
def perform (c : Chains) : Command → Except UnknownNumber (Outcome Chains Answer)
  | .list => pure (.pure { c with lists := c.lists.push (some (.growing [])) }
      (.number c.lists.size))
  | .object value =>
    pure <| ((c.store.create value none).lift fun store => { c with store }).bind fun c id =>
      .pure { c with held := c.held.push (some id) } (.number c.held.size)
  | .push n item => do
    let l ← c.listAt n
    match ← c.heldAt item with
    | none => throw ⟨item⟩
    | some id => pure (c.push n l id)
  | .close n => do
    let o := (← c.listAt n).close
    let c := { c with lists := c.lists.setIfInBounds n (some o.state) }
    match o.result with
    | .error fault => pure (.fail c fault)
    | .ok entries => pure (.pure { c with runs := c.runs.push entries } (.number c.runs.size))
  | .next n => do
    match ← c.runAt n with
    | [] => pure (.pure c .nothing)
    | id :: rest =>
      let value := (c.store.object id).value
      pure ((({ c with runs := c.runs.setIfInBounds n rest } : Chains).giveUp [id]).map
        fun _ => .number value)
  | .rest n => do
    let entries ← c.runAt n
    let values := entries.map fun id => (c.store.object id).value
    pure ((({ c with runs := c.runs.setIfInBounds n [] } : Chains).giveUp entries).map
      fun _ => .numbers values)
  | .isClosed n => do
    let l ← c.listAt n
    pure (.pure c (.flag l.isClosed))
  | .dropList n => do
    let l ← c.listAt n
    pure ((({ c with lists := c.lists.setIfInBounds n none } : Chains).giveUp l.entries).map
      fun _ => .done)
  | .dropRun n => do
    let entries ← c.runAt n
    pure ((({ c with runs := c.runs.setIfInBounds n [] } : Chains).giveUp entries).map fun _ => .done)
  | .dropObject n => do
    let h ← c.heldAt n
    let c := { c with held := c.held.setIfInBounds n none }
    pure (((c.store.release h).lift fun store => { c with store }).map fun _ => .done)
  | .owners n => do
    match c.store.ownersOf (← c.heldAt n) with
    | some count => pure (.pure c (.number count))
    | none => pure (.pure c .nothing)

/-- What became of one command: its result, and the values of the objects it destroyed. -/
structure Entry where
  result : Except Fault Answer
  destroyed : List Nat

/-- Does commands in turn. A fault stops its own command only. -/
def performAll (c : Chains) : List Command → Except UnknownNumber (Chains × List Entry)
  | [] => pure (c, [])
  | command :: rest => do
    let o ← c.perform command
    let entry : Entry := ⟨o.result, o.state.store.destroyedSince c.store.journal.size⟩
    let (final, entries) ← o.state.performAll rest
    pure (final, entry :: entries)

/-- The values of the objects destroyed when everything still held is given up, in order of
value. -/
def close (c : Chains) : List Nat :=
  let owned := c.lists.toList.flatMap (fun l => (l.map SealableList.entries).getD []) ++
    c.runs.toList.flatten
  let o := (c.giveUp owned).bind fun c _ =>
    (c.store.releaseAll c.held.toList).lift fun store => { c with store }
  (o.state.store.destroyedSince c.store.journal.size).mergeSort

end Chains

end HazardFlow.Ownership
