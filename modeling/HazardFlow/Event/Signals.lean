/-!
# Signals

A signal is completed by hand. Its copies observe the same completion, and only the trigger it was
made with completes it, once.
-/

namespace HazardFlow

/-- A family of signals and the triggers that complete them, each numbered in order of creation.
Copies of a signal share one cell. -/
structure Signals where
  /-- Whether each cell has been completed. -/
  cells : Array Bool := #[]
  /-- The cell that each signal observes. -/
  observed : Array Nat := #[]
  /-- Whether the trigger made with each signal is there and unused. -/
  armed : Array Bool := #[]
  deriving DecidableEq, Repr

namespace Signals

/-- Whether a signal has been completed. -/
def isComplete (s : Signals) (id : Nat) : Bool :=
  match s.observed[id]? with
  | some cell => s.cells.getD cell false
  | none => false

/-- Whether the trigger made with a signal is there and unused. -/
def hasTrigger (s : Signals) (id : Nat) : Bool := s.armed.getD id false

/-- A signal with a cell of its own. -/
def create (s : Signals) (complete trigger : Bool) : Signals × Nat :=
  ({ cells := s.cells.push complete
     observed := s.observed.push s.cells.size
     armed := s.armed.push trigger }, s.observed.size)

/-- Another signal on the cell of an existing one, without a trigger. -/
def copy (s : Signals) (id : Nat) : Signals × Nat :=
  ({ s with
      observed := s.observed.push (s.observed.getD id s.cells.size)
      armed := s.armed.push false }, s.observed.size)

/-- Discards the trigger of a signal. -/
def disarm (s : Signals) (id : Nat) : Signals :=
  { s with armed := s.armed.setIfInBounds id false }

/-- Uses the trigger of a signal, if it is there, and completes the signal. -/
def fire (s : Signals) (id : Nat) : Signals :=
  if s.hasTrigger id then
    { s.disarm id with
      cells := s.cells.setIfInBounds (s.observed.getD id s.cells.size) true }
  else s

/-- Uses the triggers of several signals in turn. -/
def fireAll (s : Signals) (ids : List Nat) : Signals := ids.foldl fire s

/-- One command. -/
inductive Command where
  /-- A signal with a trigger. -/
  | pending
  /-- A completed signal. -/
  | ready
  /-- A signal that nothing completes. -/
  | untriggered
  | copy (id : Nat)
  | fire (id : Nat)
  | dropTrigger (id : Nat)
  | isComplete (id : Nat)
  /-- Blocks until the signal is complete, while its trigger is used elsewhere. -/
  | wait (id : Nat)
  deriving DecidableEq, Repr

/-- What a command answers. -/
inductive Answer where
  | done
  | created (id : Nat)
  | flag (b : Bool)
  /-- The trigger was to be used, but it is gone. -/
  | noTrigger
  /-- There is no such signal. -/
  | unknown (id : Nat)
  deriving DecidableEq, Repr

/-- Does a command on a signal that exists. -/
def perform (s : Signals) : Command → Signals × Answer
  | .pending => let (s, id) := s.create false true; (s, .created id)
  | .ready => let (s, id) := s.create true false; (s, .created id)
  | .untriggered => let (s, id) := s.create false false; (s, .created id)
  | .copy id => let (s, new) := s.copy id; (s, .created new)
  | .fire id => if s.hasTrigger id then (s.fire id, .done) else (s, .noTrigger)
  | .dropTrigger id => (s.disarm id, .flag (s.hasTrigger id))
  | .isComplete id => (s, .flag (s.isComplete id))
  | .wait id => let s := s.fire id; (s, .flag (s.isComplete id))

/-- The signal that a command is about. -/
def Command.subject : Command → Option Nat
  | .pending | .ready | .untriggered => none
  | .copy id | .fire id | .dropTrigger id | .isComplete id | .wait id => some id

/-- Does commands in turn. Commands on signals that do not exist change nothing. -/
def performAll (s : Signals) : List Command → List Answer
  | [] => []
  | command :: rest =>
    match command.subject with
    | some id =>
      if id < s.observed.size then
        let (s, answer) := s.perform command
        answer :: s.performAll rest
      else .unknown id :: s.performAll rest
    | none =>
      let (s, answer) := s.perform command
      answer :: s.performAll rest

end Signals

end HazardFlow
