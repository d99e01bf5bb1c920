import HazardFlow.Event
import HazardFlow.Memory.HostSession
import HazardFlow.Memory.PoolSession
import HazardFlow.Ownership.Chains
import HazardFlow.Ownership.Session
import HazardFlow.Profile
import HazardFlow.Settings
import HazardFlow.Span.Cursor
import HazardFlow.Graph.Session
import HazardFlow.Schedule.Session
import HazardFlow.Proofs.Graph.Updates
import HazardFlow.Proofs.Graph.Wiring
import HazardFlow.Proofs.Graph.Releasing
import HazardFlow.Proofs.Graph.Soundness
import HazardFlow.Proofs.Graph.Preservation
import HazardFlow.Proofs.Graph.Precedence
import HazardFlow.Proofs.Tracker.History
import HazardFlow.Proofs.Schedule.Load
import HazardFlow.Proofs.Tracker.Wire
import HazardFlow.Proofs.Graph.Steady
import HazardFlow.Proofs.Schedule.Steps
import HazardFlow.Proofs.Schedule.Working
import HazardFlow.Proofs.Schedule.Dispatching
import HazardFlow.Proofs.Schedule.Submitting
import HazardFlow.Proofs.Schedule.Sites
import HazardFlow.Proofs.HazardOrder
import HazardFlow.Proofs.Effects
import HazardFlow.Proofs.Sequential
import HazardFlow.Proofs.Graph.Exactness
import HazardFlow.Proofs.Graph.Tally
import HazardFlow.Proofs.Schedule.Faultless
import HazardFlow.Proofs.Progress
import HazardFlow.Proofs.Interleaving
import HazardFlow.Proofs.Schedule.Rounds
import HazardFlow.Proofs.Graph.Accounting
import HazardFlow.Proofs.Graph.Stock
import HazardFlow.Proofs.InDegree
import HazardFlow.Proofs.Schedule.Holding
import HazardFlow.Proofs.Yard.Crews
import HazardFlow.Proofs.Yard.Jobs
import HazardFlow.Proofs.Yard.Order
import HazardFlow.Proofs.Yard.Uninterrupted
import HazardFlow.Proofs.Graph.Attendance
import HazardFlow.Proofs.Yard.Handing
import HazardFlow.Proofs.Yard.Count
import HazardFlow.Proofs.Yard.Signal
import HazardFlow.Proofs.Graph.FirstJobs
import HazardFlow.Proofs.Tiling
import HazardFlow.Proofs.Yard.Pieces
import HazardFlow.Proofs.Yard.Partition
import HazardFlow.Proofs.Yard.Ranges
import HazardFlow.Proofs.Yard.Workers
import HazardFlow.Proofs.Yard.Sites
import HazardFlow.Proofs.Pool.Backing
import HazardFlow.Proofs.Pool.Lending
import HazardFlow.Proofs.Pool.Tenancy
import HazardFlow.Proofs.Ownership.References
import HazardFlow.Proofs.Ownership.Handles
import HazardFlow.Proofs.Graph.Claims
import HazardFlow.Proofs.Schedule.Supplying
import HazardFlow.Proofs.Schedule.Beginning
import HazardFlow.Proofs.Closing.Acting
import HazardFlow.Proofs.Closing.Accounts
import HazardFlow.Proofs.Closing.Moves
import HazardFlow.Proofs.Closing.Keeping
import HazardFlow.Proofs.Closing.Stepwise
import HazardFlow.Proofs.Closing.Leaving
import HazardFlow.Proofs.Closing.Completing
import HazardFlow.Proofs.Graph.Stopping
import HazardFlow.Proofs.Yard.Works
import HazardFlow.Proofs.Yard.Halts
import HazardFlow.Proofs.Graph.Jamming
import HazardFlow.Proofs.Yard.Jams
import HazardFlow.Proofs.Yard.Stops
import HazardFlow.Proofs.Tracker.Pruning
import HazardFlow.Proofs.Readers
import HazardFlow.Proofs.Yard.Supplying
import HazardFlow.Proofs.Schedule.Conserving
import HazardFlow.Proofs.Closing.Manning
import HazardFlow.Proofs.Plant.Run
import HazardFlow.Proofs.Plant.Keeping
import HazardFlow.Proofs.Plant.Conserving
import HazardFlow.Proofs.Plant.Stranding
import HazardFlow.Proofs.Schedule.Discarding
import HazardFlow.Proofs.Yard.Dropping
import HazardFlow.Proofs.Graph.Passing
import HazardFlow.Proofs.Graph.Settling
import HazardFlow.Proofs.Tracker.Counting
import HazardFlow.Proofs.Yard.Completions
import HazardFlow.Proofs.Tracker.Exactness
import HazardFlow.Proofs.Yard.Adding
import HazardFlow.Proofs.Ownership.Ledger
import HazardFlow.Proofs.Pool.Returning
import HazardFlow.Proofs.Graph.Readying
import HazardFlow.Proofs.Yard.Finishing
import HazardFlow.Proofs.Watching.Questions
import HazardFlow.Proofs.Watching.Account
import HazardFlow.Proofs.Watching.Backoff
import HazardFlow.Proofs.Ownership.LastOwner
import HazardFlow.Proofs.Refusals
import HazardFlow.Proofs.ReaderCount
import HazardFlow.Proofs.Pool.Choosing
import HazardFlow.Proofs.Pool.Releasing
import HazardFlow.Proofs.Pool.Creating
import HazardFlow.Proofs.Parameters
import HazardFlow.Proofs.Splitting
import HazardFlow.Proofs.Pool.Granting
import HazardFlow.Proofs.Pool.Explaining
import HazardFlow.Proofs.Schedule.Launching
import HazardFlow.Proofs.Schedule.Sparing
import HazardFlow.Proofs.Plant.Setup
