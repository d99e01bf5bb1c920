/-!
# Faults

An operation whose precondition is broken stops with a fault. The faults of the whole library are
listed here with their wording; what an operation had changed before it stopped stays changed, and
each operation says so in its outcome.
-/

namespace HazardFlow

/-- A broken precondition. -/
inductive Fault where
  /-- A span whose end lies before its start was halved. -/
  | spanInverted
  /-- A cursor was asked for with a grain of zero. -/
  | grainZero
  /-- A cursor was asked for over a span whose end lies before its start. -/
  | cursorInverted
  /-- The number of hazard shards is not a power of two. -/
  | shardCount (count : Nat)
  /-- An edge was to be wired from a complete node onto a node already submitted. -/
  | successorSubmitted
  /-- A list of successors was sealed a second time. -/
  | sealedTwice
  /-- The work of a node already submitted was to be discarded. -/
  | discardSubmitted
  /-- The work of a node was taken a second time. -/
  | workTaken
  /-- An owner was added to an object already destroyed. -/
  | acquireDestroyed
  /-- An owner was removed from an object that has none. -/
  | releaseUnowned
  /-- An empty handle was followed. -/
  | emptyHandle
  /-- A slot that is not handed out was given back to its pool. -/
  | slotFreedTwice
  /-- A cached slot does not belong to the pool it is flushed to. -/
  | flushRejected
  /-- A list was asked for with a capacity that no memory block can hold. -/
  | capacityOverflow
  /-- An address or size exceeds the largest word. -/
  | addOverflow
  /-- The name of a thread holds a null byte, first at `position` of its bytes. -/
  | threadName (position : Nat) (bytes : List Nat)
  /-- The work of a task stopped with a message of its own. -/
  | work (message : String)
  deriving DecidableEq, Repr

/-- The wording of a fault. -/
def Fault.message : Fault → String
  | .spanInverted => "RangeSplitAtHalf::split_at"
  | .grainZero => "RangeCursor::new: zero grain"
  | .cursorInverted => "RangeCursor::new: inverted range"
  | .shardCount count => s!"HazardTracker::new: shard count {count} is not a power of two"
  | .successorSubmitted => "NodeHandle::link_successor: successor already submitted"
  | .sealedTwice => "SuccessorList::seal: [1]"
  | .discardSubmitted => "NodeHandle::discard_work: [1]"
  | .workTaken => "NodeHandle::into_job: [1]"
  | .acquireDestroyed => "RefCount::acquire: object already destroyed"
  | .releaseUnowned => "RefCount::release: count would go negative"
  | .emptyHandle => "Shared::deref: empty handle"
  | .slotFreedTwice => "BitmaskPool::deallocate_to_page: slot <ptr> freed twice"
  | .flushRejected => "SlotCache::flush: [1]"
  | .capacityOverflow => "capacity overflow"
  | .addOverflow => "attempt to add with overflow"
  | .threadName position bytes =>
    "thread name may not contain interior null bytes: NulError(" ++ toString position ++ ", [" ++
      ", ".intercalate (bytes.map toString) ++ "])"
  | .work message => message

/-- What an operation leaves behind: the state, which is there even when the operation stopped
with a fault, and its result. -/
structure Outcome (σ α : Type) where
  /-- The state after the operation. -/
  state : σ
  /-- The answer, or the fault that stopped the operation. -/
  result : Except Fault α

namespace Outcome

/-- An operation that only answers. -/
def pure {σ α : Type} (state : σ) (answer : α) : Outcome σ α := ⟨state, .ok answer⟩

/-- An operation that stops. -/
def fail {σ α : Type} (state : σ) (fault : Fault) : Outcome σ α := ⟨state, .error fault⟩

/-- Goes on with `next` unless the operation stopped. -/
def bind {σ α β : Type} (o : Outcome σ α) (next : σ → α → Outcome σ β) : Outcome σ β :=
  match o.result with
  | .ok answer => next o.state answer
  | .error fault => ⟨o.state, .error fault⟩

/-- Changes the answer of an operation that did not stop. -/
def map {σ α β : Type} (f : α → β) (o : Outcome σ α) : Outcome σ β :=
  ⟨o.state, o.result.map f⟩

/-- Places the state of an operation in a larger one. -/
def lift {σ τ α : Type} (embed : σ → τ) (o : Outcome σ α) : Outcome τ α :=
  ⟨embed o.state, o.result⟩

@[simp] theorem bind_pure {σ α β : Type} (s : σ) (a : α) (next : σ → α → Outcome σ β) :
    (Outcome.pure s a).bind next = next s a := rfl

@[simp] theorem bind_fail {σ α β : Type} (s : σ) (f : Fault) (next : σ → α → Outcome σ β) :
    (Outcome.fail s f : Outcome σ α).bind next = .fail s f := rfl

@[simp] theorem map_pure {σ α β : Type} (f : α → β) (s : σ) (a : α) :
    (Outcome.pure s a).map f = .pure s (f a) := rfl

/-- Operations that follow one another may be grouped in either way. -/
theorem bind_assoc {σ α β γ : Type} (o : Outcome σ α) (next : σ → α → Outcome σ β)
    (last : σ → β → Outcome σ γ) :
    (o.bind next).bind last = o.bind fun s a => (next s a).bind last := by
  cases o with
  | mk state result => cases result <;> rfl

/-- What follows may take the changed answer from the unchanged one. -/
theorem bind_map {σ α β γ : Type} (f : α → β) (o : Outcome σ α) (next : σ → β → Outcome σ γ) :
    (o.map f).bind next = o.bind fun s a => next s (f a) := by
  cases o with
  | mk state result => cases result <;> rfl

@[simp] theorem state_map {σ α β : Type} (f : α → β) (o : Outcome σ α) :
    (o.map f).state = o.state := rfl

@[simp] theorem lift_pure {σ τ α : Type} (embed : σ → τ) (s : σ) (a : α) :
    (Outcome.pure s a).lift embed = .pure (embed s) a := rfl

@[simp] theorem state_lift {σ τ α : Type} (embed : σ → τ) (o : Outcome σ α) :
    (o.lift embed).state = embed o.state := rfl

@[simp] theorem state_pure {σ α : Type} (s : σ) (a : α) : (Outcome.pure s a).state = s := rfl

@[simp] theorem state_fail {σ α : Type} (s : σ) (f : Fault) :
    (Outcome.fail s f : Outcome σ α).state = s := rfl

end Outcome

end HazardFlow
