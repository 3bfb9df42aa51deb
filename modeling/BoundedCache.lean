import BoundedCache.Lifecycle.History
import BoundedCache.Load.Pool
import BoundedCache.Report
import BoundedCache.Session
import BoundedCache.Settings
import BoundedCache.Proofs.Enumeration
import BoundedCache.Proofs.Slab
import BoundedCache.Proofs.Chain
import BoundedCache.Proofs.Generation
import BoundedCache.Proofs.Sequence
import BoundedCache.Proofs.Layout
import BoundedCache.Proofs.Tenure
import BoundedCache.Proofs.Policy.Effect
import BoundedCache.Proofs.Policy.Ordered
import BoundedCache.Proofs.Policy.Frequency
import BoundedCache.Proofs.Policy.Lap
import BoundedCache.Proofs.Policy.SecondChance
import BoundedCache.Proofs.Policy.Random
import BoundedCache.Proofs.Policy.Contract
import BoundedCache.Proofs.Policy.Generation
import BoundedCache.Proofs.Policy.Register
import BoundedCache.Proofs.Policy.Recency
import BoundedCache.Proofs.Store.Agreement
import BoundedCache.Proofs.Store.Operations
import BoundedCache.Proofs.Store.Consistency
import BoundedCache.Proofs.Store.Limits
import BoundedCache.Proofs.Store.Exactness
import BoundedCache.Proofs.Store.Recency
import BoundedCache.Proofs.Store.Inclusion
import BoundedCache.Proofs.Replay
import BoundedCache.Proofs.Tally
import BoundedCache.Proofs.Changes
import BoundedCache.Proofs.Cache.Perform
import BoundedCache.Proofs.Cache.Steps
import BoundedCache.Proofs.Session.History
import BoundedCache.Proofs.Session.Listeners
import BoundedCache.Proofs.Session.Statistics
import BoundedCache.Proofs.Load.Table
import BoundedCache.Proofs.Load.Coordinator
import BoundedCache.Proofs.Load.Desk
import BoundedCache.Proofs.Load.Pool
import BoundedCache.Proofs.Load.Cancellation
import BoundedCache.Proofs.Cache.Moves
import BoundedCache.Proofs.Cache.Acts
import BoundedCache.Proofs.Load.Draining
import BoundedCache.Proofs.Cache.Draining
import BoundedCache.Proofs.Session.Termination
import BoundedCache.Proofs.Load.Winding
import BoundedCache.Proofs.Cache.Closed
import BoundedCache.Proofs.Session.Unavailable
import BoundedCache.Proofs.Load.Heading
import BoundedCache.Proofs.Cache.Lingering
import BoundedCache.Proofs.Load.Fate
import BoundedCache.Proofs.Load.Calling
import BoundedCache.Proofs.Cache.Turning
import BoundedCache.Proofs.Cache.Settling
import BoundedCache.Proofs.Session.Frozen
import BoundedCache.Proofs.Lifecycle
import BoundedCache.Proofs.Store.Dating
import BoundedCache.Proofs.Document
import BoundedCache.Proofs.Config
import BoundedCache.Proofs.Policy.Drain
import BoundedCache.Proofs.Policy.Usage
import BoundedCache.Proofs.Policy.Stamps
import BoundedCache.Proofs.Policy.Ranks
import BoundedCache.Proofs.Policy.Hand
import BoundedCache.Proofs.Policy.Dense
import BoundedCache.Proofs.Store.Victims
import BoundedCache.Proofs.Store.Clearing
import BoundedCache.Proofs.Store.Staying
import BoundedCache.Proofs.Store.Chronicle
import BoundedCache.Proofs.Policy.Remaining
import BoundedCache.Proofs.Errands
import BoundedCache.Proofs.Store.Sweeping
import BoundedCache.Proofs.Cache.Coursing
import BoundedCache.Proofs.Session.Coursing
import BoundedCache.Proofs.Session.Sweeping
import BoundedCache.Proofs.Reported
import BoundedCache.Proofs.Lasting
import BoundedCache.Proofs.Session.Lasting
import BoundedCache.Proofs.Cache.Batches
import BoundedCache.Proofs.Session.Batches
import BoundedCache.Proofs.Cache.Setting
import BoundedCache.Proofs.Cache.Liveness
import BoundedCache.Proofs.Cache.Calling
import BoundedCache.Proofs.Cache.Landing
import BoundedCache.Proofs.Session.Loading
import BoundedCache.Proofs.Session.Refused
import BoundedCache.Proofs.Cache.Joining
import BoundedCache.Proofs.Cache.Holding
import BoundedCache.Proofs.Session.Holding
import BoundedCache.Proofs.Cache.Answering
import BoundedCache.Proofs.Cache.Advancing
import BoundedCache.Proofs.Cache.Cancelling
import BoundedCache.Proofs.Session.Cancelling
import BoundedCache.Proofs.Rounds
import BoundedCache.Proofs.Cache.Retelling
import BoundedCache.Proofs.Session.Retelling
import BoundedCache.Proofs.Cache.Deeds
import BoundedCache.Proofs.Cache.Narrating
import BoundedCache.Proofs.Session.Order
import BoundedCache.Proofs.Cache.Calming
import BoundedCache.Proofs.Hearing
import BoundedCache.Proofs.Session.Isolation
import BoundedCache.Proofs.Cache.Mirroring
import BoundedCache.Proofs.Cache.Failures
import BoundedCache.Proofs.Session.Metrics
import BoundedCache.Proofs.Cache.Gathering
import BoundedCache.Proofs.Session.Gathering
import BoundedCache.Proofs.Format
