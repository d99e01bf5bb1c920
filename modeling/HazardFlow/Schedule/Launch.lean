import HazardFlow.Graph.Tracker
import HazardFlow.Settings

/-!
# Launching

What has to go well before workers run: the settings are accepted, the shards fit in memory, so do
the lists with an entry for every worker, and every worker's thread takes its name.
-/

namespace HazardFlow

/-- Why a system does not start. -/
inductive StartError where
  /-- The settings were refused, and nothing was made. -/
  | settings (cause : SettingsError)
  /-- The tracker or a list of the workers could not be made, or a thread could not be named. -/
  | fault (fault : Fault)
  deriving DecidableEq, Repr

/-- The number of bytes that the counters of a worker take: two cache lines, so that workers that
count do not disturb each other. -/
def counterBytes : Nat := 128

/-- The number of bytes that a worker takes in each list with an entry for every worker: its queue,
the end of the queue that others steal from, its counters and the handle of its thread. -/
def workerBytes : List Nat := [32, 16, counterBytes, 24]

/-- Each list with an entry for every worker must fit in one block of memory. -/
def checkWorkerRoom (workers : Nat) : Except Fault Unit :=
  workerBytes.forM fun bytes =>
    if maxBlock < workers * bytes then .error .capacityOverflow else .ok ()

/-- A thread takes no name with a null byte in it. -/
def checkThreadName (name : String) : Except Fault Unit :=
  let bytes := name.toUTF8.toList.map UInt8.toNat
  match bytes.findIdx? (· == 0) with
  | some position => .error (.threadName position bytes)
  | none => .ok ()

namespace Settings

/-- Starts a system without checking the settings: its tracker is made first, then the lists of its
workers, and then their threads are named in order. -/
def start (s : Settings) (workers : Nat) : Except Fault Tracker := do
  let tracker ← Tracker.create s.shards
  checkWorkerRoom workers
  (List.range workers).forM fun index => checkThreadName (s.workerName index)
  return tracker

/-- Starts a system, unless the settings are refused. -/
def launch (s : Settings) (workers : Nat) : Except StartError Tracker :=
  match ({ s with workers := some workers } : Settings).validate with
  | .error cause => .error (.settings cause)
  | .ok () => (s.start workers).mapError .fault

end Settings

end HazardFlow
