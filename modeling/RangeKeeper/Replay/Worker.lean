import RangeKeeper.Replay.Subscription

/-!
The worker of a subscription. It carries out the queued tasks one by one. A
failed apply is tried again, after the pause that the policy sets, before
anything else is looked at. Whether the running task is cancelled is looked at
before the state machine is, at every turn.
-/

namespace RangeKeeper.Subscription

/-- The install is over without success; it is reported and counted as a
failure. -/
def abortInstall (s : Subscription) (task : InstallTask) (seq : Nat) (answer : RequestState) :
    Subscription :=
  { s.settle task.ticket answer with
    work := .idle
    events := s.events ++ [.aborted seq s.lastApplied]
    metrics := s.metrics.recordInstallFailure }

def take (s : Subscription) (now : Instant) : Task → Subscription
  | .entry e => { s with work := .waiting e 0 now, taskCancelled := false }
  | .install task seq => { s with work := .preparing task seq, taskCancelled := false }

def giveUpApply (s : Subscription) : Subscription :=
  { s with work := .idle, metrics := s.metrics.recordCancelled 1 }

/-- What the worker does by itself at this moment, if anything. -/
def workerStep? (s : Subscription) (now : Instant) : Option Subscription :=
  match s.work with
  | .ended => none
  | .idle =>
    if s.stopped then some { s with work := .ended }
    else match s.queue with
      | [] => none
      | task :: rest => some ({ s with queue := rest }.take now task)
  | .waiting _ _ _ | .applying _ _ => if s.isCancelled then some s.giveUpApply else none
  | .preparing task seq | .installing task seq =>
    if s.isCancelled || s.isAbandoned task.ticket then some (s.abortInstall task seq .cancelled)
    else none

def onApplied (s : Subscription) (now : Instant) (entry : LogEntry) (failures : Nat) :
    Except Fault Unit → Subscription
  | .ok () =>
    { s with
      work := .idle
      lastApplied := entry.index
      metrics := s.metrics.recordApplied entry.index }
  | .error _ =>
    let pause := (RetryPolicy.ofSettings s.settings).delay (failures + 1)
    { s with
      work := .waiting entry (failures + 1) (now + pause.toNanos)
      metrics := s.metrics.recordApplyFailure }

/-- The answer of the state machine to an install. The outcome is on its way to
the driver before the requester hears of it. -/
def onInstalled (s : Subscription) (task : InstallTask) (seq : Nat) :
    Except Fault Snapshot → Subscription
  | .ok snapshot =>
    { s.settle task.ticket (.installed snapshot) with
      work := .idle
      lastApplied := snapshot.lastApplied
      events := s.events ++ [.installed seq snapshot.lastApplied]
      metrics := s.metrics.recordInstalled snapshot.lastApplied }
  | .error cause => s.abortInstall task seq (.failed cause)

def beginApply? (s : Subscription) (now : Instant) : Option Subscription :=
  match s.work with
  | .waiting entry failures due =>
    if due ≤ now then some { s with work := .applying entry failures } else none
  | _ => none

def endApply? (s : Subscription) (now : Instant) (answer : Except Fault Unit) :
    Option Subscription :=
  match s.work with
  | .applying entry failures => some (s.onApplied now entry failures answer)
  | _ => none

def beginInstall? (s : Subscription) : Option Subscription :=
  match s.work with
  | .preparing task seq => some { s with work := .installing task seq }
  | _ => none

def endInstall? (s : Subscription) (answer : Except Fault Snapshot) : Option Subscription :=
  match s.work with
  | .installing task seq => some (s.onInstalled task seq answer)
  | _ => none

end RangeKeeper.Subscription
