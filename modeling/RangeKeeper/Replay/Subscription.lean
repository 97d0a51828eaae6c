import RangeKeeper.Metrics.Replay
import RangeKeeper.Replay.Task
import RangeKeeper.Retry

/-!
A subscription of one range to its committed log, as one state. Its driver reads
the log and owns the position up to which entries were fetched; its worker calls
the state machine, for one task at a time, and owns the position up to which
entries were applied. Between them stand the apply queue, the switch that
cancels the running task, and the stream of install outcomes. The streams from
outside, of commit indexes and of snapshots to install, are lists of what has
arrived and was not yet looked at.

A snapshot goes before everything: the read in flight and the queued work are
dropped, the running task is cancelled, and reading waits until the install is
settled. After a success reading resumes behind the snapshot once a new commit
index arrives; after a failure it resumes behind the entry that was applied
last, so what was dropped is read again.
-/

namespace RangeKeeper

/-- A read of the log, from the entry `start` on. It may not begin before `due`;
once `reading`, the log has been asked and its answer is awaited. -/
structure Fetch where
  start : UInt64
  due : Instant
  reading : Bool := false
  deriving DecidableEq, Repr

inductive Work where
  | idle
  /-- It holds an entry whose apply failed `failures` times and may be tried
  from `due` on. -/
  | waiting (entry : LogEntry) (failures : Nat) (due : Instant)
  | applying (entry : LogEntry) (failures : Nat)
  /-- It holds an install that the state machine was not yet asked for. -/
  | preparing (task : InstallTask) (seq : Nat)
  | installing (task : InstallTask) (seq : Nat)
  | ended
  deriving DecidableEq, Repr

structure Subscription where
  settings : ReplaySettings
  /-- The index of the last entry handed to the queue, or what an install made
  of it. -/
  lastFetched : UInt64
  /-- The greatest commit index heard of; none before the first and after an
  install. -/
  commit : Option UInt64 := none
  /-- A read of a compacted index disarms reading until the next commit index or
  install outcome. -/
  armed : Bool := true
  /-- The next read follows one that failed or found nothing. -/
  retryFetch : Bool := false
  /-- How many snapshots were taken off their stream; the number of the last
  install. -/
  installSeq : Nat := 0
  pendingInstall : Option Nat := none
  fetch : Option Fetch := none
  driving : Bool := true
  commits : List UInt64 := []
  commitsOpen : Bool := true
  snapshots : List InstallTask := []
  snapshotsOpen : Bool := true
  events : List InstallEvent := []
  queue : List Task := []
  work : Work := .idle
  /-- The switch of the running task. -/
  taskCancelled : Bool := false
  lastApplied : UInt64
  stopped : Bool := false
  /-- Every install request so far, by its ticket. -/
  requests : List RequestState := []
  metrics : ReplayMetrics := {}
  deriving DecidableEq, Repr

namespace Subscription

def start (settings : ReplaySettings) (lastFetched : UInt64) :
    Except SettingsFault Subscription :=
  settings.validate.map fun _ =>
    { settings := settings, lastFetched := lastFetched, lastApplied := lastFetched }

def stop (s : Subscription) : Subscription := { s with stopped := true }

/-- A commit index is published; it arrives while its stream is open and has a
listener. -/
def publish (s : Subscription) (index : UInt64) : Subscription :=
  if s.driving && s.commitsOpen then { s with commits := s.commits ++ [index] } else s

def settle (s : Subscription) (ticket : Nat) (answer : RequestState) : Subscription :=
  { s with
    requests := s.requests.modify ticket fun state =>
      if state = .pending then answer else state }

def cancelRequests (s : Subscription) (tickets : List Nat) : Subscription :=
  tickets.foldl (fun s ticket => s.settle ticket .cancelled) s

/-- A request to install a snapshot; where nobody listens it is cancelled at
once. -/
def request (s : Subscription) (snapshot : Snapshot) (leader : String) : Subscription :=
  let ticket := s.requests.length
  if s.driving && s.snapshotsOpen then
    { s with
      requests := s.requests ++ [.pending]
      snapshots := s.snapshots ++ [⟨snapshot, leader, ticket⟩] }
  else { s with requests := s.requests ++ [.cancelled] }

def abandon (s : Subscription) (ticket : Nat) : Subscription := s.settle ticket .abandoned

def isAbandoned (s : Subscription) (ticket : Nat) : Bool :=
  s.requests[ticket]? == some .abandoned

def isCancelled (s : Subscription) : Bool := s.taskCancelled || s.stopped

/-- Drop the queued work and cancel the running task. Dropped entries are
counted as cancelled. -/
def dropQueue (s : Subscription) : Subscription :=
  { s.cancelRequests (s.queue.filterMap Task.ticket?) with
    queue := []
    taskCancelled := true
    metrics := s.metrics.recordCancelled (s.queue.countP Task.isEntry) }

end Subscription

end RangeKeeper
