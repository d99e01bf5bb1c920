import HazardFlow.Profile.Scalar
import HazardFlow.Text.Quoted
import HazardFlow.Text.Record

/-!
# Profiles

A profile is a record of fixed size that a node carries for inspection: a name, an operation and
at most eight packed parameters.
-/

namespace HazardFlow

/-- The most parameters that a profile holds. -/
def maxParams : Nat := 8

/-- A record carried by a node for inspection. The slots after the first `used` are zero. -/
structure Profile where
  name : String
  operation : Nat
  slots : Vector UInt64 maxParams := Vector.replicate maxParams 0
  used : Nat := 0
  deriving DecidableEq, Repr

/-- Why a profile refuses a change. -/
inductive ProfileError where
  /-- The profile would hold more parameters than it has slots. -/
  | tooManyParams
  deriving DecidableEq, Repr

/-- The wording of a refusal. -/
def ProfileError.message : ProfileError → String
  | .tooManyParams => s!"task metadata holds at most {maxParams} parameters"

namespace Profile

/-- A profile without parameters. -/
def new (name : String) (operation : Nat) : Profile := { name, operation }

/-- The parameters, in the order in which they were added. -/
def params (p : Profile) : List UInt64 := p.slots.toList.take p.used

/-- Adds one parameter. -/
def push (p : Profile) (param : UInt64) : Except ProfileError Profile :=
  if h : p.used < maxParams then
    .ok { p with slots := p.slots.set p.used param h, used := p.used + 1 }
  else .error .tooManyParams

/-- Adds parameters in turn, all of them or none. -/
def append (p : Profile) (params : List UInt64) : Except ProfileError Profile :=
  params.foldlM push p

/-- The text of a profile, which shows its unused slots too. -/
def describe (p : Profile) : String :=
  Text.record "TaskMetadata"
    [("name", Text.quote p.name), ("op_id", toString p.operation),
      ("params", Text.list (p.slots.toList.map fun bits =>
        Text.wrapped "PackedScalar" (toString bits.toNat))),
      ("len", toString p.used)]

/-- One change to a profile. -/
inductive Change where
  | push (param : Scalar)
  | append (params : List Scalar)
  deriving DecidableEq, Repr

/-- What a change would make of the profile. -/
def apply (p : Profile) : Change → Except ProfileError Profile
  | .push param => p.push param.pack
  | .append params => p.append (params.map Scalar.pack)

/-- The profile after a change, which is the old one when the change is refused, and the refusal
or the number of parameters then held. -/
def change (p : Profile) (c : Change) : Profile × Except ProfileError Nat :=
  match p.apply c with
  | .ok q => (q, .ok q.params.length)
  | .error e => (p, .error e)

/-- The profile after changes made in turn, and what each of them answered. -/
def changeAll (p : Profile) : List Change → Profile × List (Except ProfileError Nat)
  | [] => (p, [])
  | c :: rest =>
    let (q, answer) := p.change c
    let (final, answers) := q.changeAll rest
    (final, answer :: answers)

@[simp] theorem params_new (name : String) (operation : Nat) : (new name operation).params = [] :=
  rfl

end Profile

end HazardFlow
