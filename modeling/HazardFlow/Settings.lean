import HazardFlow.Text.Quoted
import HazardFlow.Text.Record
import HazardFlow.Word

/-!
# Settings

The tunables of a running system, and the check that a system can run with them.
-/

namespace HazardFlow

/-- The tunables of a running system. -/
structure Settings where
  /-- The number of workers; nothing stands for one per processor. -/
  workers : Option Nat := none
  /-- The number of hazard shards. -/
  shards : Nat := 256
  /-- The most polls that a watcher skips after a scan without progress. -/
  backoffCap : Nat := 64
  /-- The least number of indices that each half of a split range keeps. -/
  grain : Nat := 1024
  /-- What the name of a worker's thread starts with. -/
  threadName : String := "dagrt-worker"
  deriving DecidableEq, Repr

/-- Why settings are refused. -/
inductive SettingsError where
  /-- There are to be no workers. -/
  | noWorkers
  /-- The number of shards is not a power of two. -/
  | shardCount (count : Nat)
  /-- The grain is zero. -/
  | zeroGrain
  deriving DecidableEq, Repr

/-- The wording of a refusal. -/
def SettingsError.message : SettingsError → String
  | .noWorkers => "worker count must be non-zero"
  | .shardCount count => s!"hazard shard count {count} is not a power of two"
  | .zeroGrain => "range split grain must be non-zero"

namespace Settings

/-- One change to the settings. -/
inductive Change where
  | workers (count : Nat)
  | shards (count : Nat)
  | backoffCap (cap : Nat)
  | grain (grain : Nat)
  | threadName (name : String)
  deriving DecidableEq, Repr

/-- The settings after a change. -/
def apply (s : Settings) : Change → Settings
  | .workers count => { s with workers := some count }
  | .shards count => { s with shards := count }
  | .backoffCap cap => { s with backoffCap := cap }
  | .grain grain => { s with grain := grain }
  | .threadName name => { s with threadName := name }

/-- The settings after changes made in turn. -/
def ofChanges (changes : List Change) : Settings := changes.foldl apply {}

/-- Refuses settings that cannot run, with the first reason found. -/
def validate (s : Settings) : Except SettingsError Unit :=
  if s.workers = some 0 then .error .noWorkers
  else if isPowerOfTwo s.shards = false then .error (.shardCount s.shards)
  else if s.grain = 0 then .error .zeroGrain
  else .ok ()

/-- The text of settings whose number of workers is known. -/
def describe (s : Settings) (workers : Nat) : String :=
  Text.record "RuntimeConfig"
    [("workers", toString workers), ("hazard_shards", toString s.shards),
      ("backoff_cap", toString s.backoffCap), ("split_grain", toString s.grain),
      ("thread_name", Text.quote s.threadName)]

/-- The name of the thread of one worker. -/
def workerName (s : Settings) (index : Nat) : String := s.threadName ++ s!"-{index}"

/-- The wording under which refused settings are reported. -/
def refusalMessage : String := "invalid runtime configuration"

end Settings

end HazardFlow
