import RangeKeeper.Fault
import RangeKeeper.Log.Entry

/-!
The work that passes between the two parts of a subscription. The driver hands
the worker entries and installs in the order in which they are to be carried
out; the worker reports back what became of each install.
-/

namespace RangeKeeper

inductive RequestState where
  | pending
  /-- The requester no longer waits for an answer. -/
  | abandoned
  /-- The request was dropped unanswered. -/
  | cancelled
  | failed (cause : Fault)
  | installed (snapshot : Snapshot)
  deriving DecidableEq, Repr

/-- A snapshot to install, fetched from the leader; `ticket` numbers the
request. -/
structure InstallTask where
  snapshot : Snapshot
  leader : String
  ticket : Nat
  deriving DecidableEq, Repr, Inhabited

/-- One item of the apply queue. Installs are numbered by the driver. -/
inductive Task where
  | entry (entry : LogEntry)
  | install (task : InstallTask) (seq : Nat)
  deriving DecidableEq, Repr

def Task.isEntry : Task → Bool
  | .entry _ => true
  | .install _ _ => false

def Task.ticket? : Task → Option Nat
  | .entry _ => none
  | .install task _ => some task.ticket

inductive InstallEvent where
  | installed (seq : Nat) (lastApplied : UInt64)
  /-- `lastApplied` is where the state machine stood before the install. -/
  | aborted (seq : Nat) (lastApplied : UInt64)
  deriving DecidableEq, Repr

end RangeKeeper
