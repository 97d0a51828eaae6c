import RangeKeeper.Balance.Epoch
import RangeKeeper.Balance.Split
import RangeKeeper.Proofs.Replay.Frame
import RangeKeeper.Rehearsal.Action
import RangeKeeper.Rehearsal.Await
import RangeKeeper.Rehearsal.Sink
import RangeKeeper.Routing.Cache
import RangeKeeper.Proofs.Replay.Installs
import RangeKeeper.Proofs.Replay.Chain
import RangeKeeper.Proofs.Replay.InOrder
import RangeKeeper.Proofs.Replay.Ascending
import RangeKeeper.Proofs.Replay.Idle
import RangeKeeper.Proofs.Replay.Accounting
import RangeKeeper.Proofs.Replay.Requests
import RangeKeeper.Proofs.Replay.Stop
import RangeKeeper.Proofs.Interval.Apart
import RangeKeeper.Proofs.Routing.Rank
import RangeKeeper.Proofs.Routing.Sweep
import RangeKeeper.Proofs.Routing.Gaps
import RangeKeeper.Proofs.Routing.Coverage
import RangeKeeper.Proofs.Routing.Lookup
import RangeKeeper.Proofs.Routing.RangeLookup
import RangeKeeper.Proofs.Routing.Keyless
import RangeKeeper.Proofs.Routing.Versions
import RangeKeeper.Proofs.Replay.Transitions
import RangeKeeper.Proofs.Replay.InstallAccounting
import RangeKeeper.Proofs.Replay.Messages
import RangeKeeper.Proofs.Replay.FreshCommit
import RangeKeeper.Proofs.Routing.Outline
import RangeKeeper.Proofs.StableSort
import RangeKeeper.Proofs.Routing.Arrival
import RangeKeeper.Proofs.Routing.Thinning
import RangeKeeper.Proofs.Text.Utf8
import RangeKeeper.Proofs.Text.Order
import RangeKeeper.Proofs.Wire.Codec
import RangeKeeper.Proofs.Wire.Command
import RangeKeeper.Proofs.Wire.Exact
import RangeKeeper.Proofs.Wire.Canonical
import RangeKeeper.Proofs.Wire.Form
import RangeKeeper.Proofs.Wire.Record
import RangeKeeper.Proofs.Double.Order
import RangeKeeper.Proofs.Interval.Split
import RangeKeeper.Proofs.Balance.Split
import RangeKeeper.Proofs.Replay.Reads
import RangeKeeper.Proofs.Balance.Epochs
import RangeKeeper.Proofs.Balance.History
import RangeKeeper.Proofs.Metrics.Series
import RangeKeeper.Proofs.Balance.Delivery
import RangeKeeper.Proofs.Balance.Cancellation
import RangeKeeper.Proofs.Balance.Backoff
import RangeKeeper.Proofs.Replay.Pauses
import RangeKeeper.Proofs.Replay.Paging
import RangeKeeper.Proofs.Replay.Stalls
import RangeKeeper.Proofs.Balance.Regrouping
import RangeKeeper.Proofs.Routing.Batch
import RangeKeeper.Proofs.Balance.LoadLimits
import RangeKeeper.Proofs.Interval.Meet
import RangeKeeper.Proofs.Metrics.Exposition
import RangeKeeper.Proofs.Replay.InstallOrder
import RangeKeeper.Proofs.Balance.Preference
import RangeKeeper.Proofs.Interval.LeftToRight
