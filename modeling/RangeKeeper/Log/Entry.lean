import RangeKeeper.Report

/-!
The units that a committed log hands on: entries at consecutive indexes, and
snapshots, which stand for every entry up to an index.
-/

namespace RangeKeeper

structure LogEntry where
  index : UInt64
  term : UInt64
  data : Bytes
  deriving DecidableEq, Repr, Inhabited

/-- What an entry counts against the budget of a read: its payload, its index
and its term. -/
def LogEntry.size (e : LogEntry) : Nat := 16 + e.data.length

/-- A checkpoint of a range's state machine that replicas pass to each other. -/
structure Snapshot where
  rangeId : RangeId
  version : UInt64
  checkpoint : String
  lastApplied : UInt64
  state : Lifecycle
  deriving DecidableEq, Repr, Inhabited

end RangeKeeper
