import RangeKeeper.Report

/-!
The commands that balancers propose: to split a range at a key, or to change
which stores replicate it. Each is addressed to the store of the leader that
should carry it out and names the version of the range it was worked out for.
-/

namespace RangeKeeper

/-- Names of stores, each once, ascending. -/
abbrev StoreSet := SortedMap StoreId Unit

def StoreSet.ofList (ids : List StoreId) : StoreSet := SortedMap.ofList (ids.map fun id => (id, ()))

/-- Split a range: `splitKey` begins the right part. -/
structure SplitCommand where
  rangeId : RangeId
  toStore : StoreId
  expectedVersion : UInt64
  splitKey : Key
  deriving DecidableEq, Repr

structure ChangeConfigCommand where
  rangeId : RangeId
  toStore : StoreId
  expectedVersion : UInt64
  voters : StoreSet
  learners : StoreSet
  deriving DecidableEq

namespace ChangeConfigCommand

/-- Give up every replica of a range, led by its leader on `store`. -/
def quit (store : StoreId) (range : RangeReport) : ChangeConfigCommand where
  rangeId := range.id
  toStore := store
  expectedVersion := range.version
  voters := .empty
  learners := .empty

def isQuit (c : ChangeConfigCommand) : Bool :=
  c.voters.entries.isEmpty && c.learners.entries.isEmpty

def quittingStore? (c : ChangeConfigCommand) : Option StoreId :=
  if c.isQuit then some c.toStore else none

end ChangeConfigCommand

inductive Command where
  | split (c : SplitCommand)
  | changeConfig (c : ChangeConfigCommand)
  deriving DecidableEq

namespace Command

def kind : Command → String
  | .split _ => "split"
  | .changeConfig _ => "change_config"

def rangeId : Command → RangeId
  | .split c => c.rangeId
  | .changeConfig c => c.rangeId

def toStore : Command → StoreId
  | .split c => c.toStore
  | .changeConfig c => c.toStore

def expectedVersion : Command → UInt64
  | .split c => c.expectedVersion
  | .changeConfig c => c.expectedVersion

end Command

end RangeKeeper
