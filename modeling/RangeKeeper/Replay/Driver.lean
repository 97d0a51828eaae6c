import RangeKeeper.Replay.Subscription

/-!
The driver of a subscription. It looks at one thing at a time, and of several
that are there at install outcomes first, then snapshots, then commit indexes,
and only then at its read. A read is scheduled as soon as one is wanted; at most
one is in flight.
-/

namespace RangeKeeper.Subscription

/-- Entries are committed behind the last one fetched, and nothing stands in the
way of a read. -/
def wantsFetch (s : Subscription) : Bool :=
  s.fetch.isNone && s.pendingInstall.isNone && s.armed &&
    s.commit.any fun commit => decide (s.lastFetched < commit)

/-- Schedule the read of the next entries. After a failure or an empty read it
waits. -/
def scheduleFetch (s : Subscription) (now : Instant) : Subscription :=
  let pause := if s.retryFetch then s.settings.fetchRetryDelay.toNanos else 0
  { s with
    retryFetch := false
    fetch := some { start := s.lastFetched + 1, due := now + pause } }

def onCommit (s : Subscription) (index : UInt64) : Subscription :=
  { s with commit := some (s.commit.elim index (max · index)), armed := true }

def onSnapshot (s : Subscription) (task : InstallTask) : Subscription :=
  let seq := s.installSeq + 1
  { s.dropQueue with
    fetch := none
    installSeq := seq
    pendingInstall := some seq
    queue := [.install task seq] }

/-- Only the outcome of the install that reading waits for counts. -/
def onEvent (s : Subscription) : InstallEvent → Subscription
  | .installed seq lastApplied =>
    if s.pendingInstall = some seq then
      { s with
        pendingInstall := none
        lastFetched := lastApplied
        commit := none
        armed := true
        retryFetch := false }
    else s
  | .aborted seq lastApplied =>
    if s.pendingInstall = some seq then
      { s with
        pendingInstall := none
        lastFetched := lastApplied
        armed := true
        retryFetch := false }
    else s

/-- Of the entries read, those whose index exceeds every index before them, from
`last` on. -/
def accept : (last : UInt64) → List LogEntry → List LogEntry
  | _, [] => []
  | last, e :: rest => if e.index ≤ last then accept last rest else e :: accept e.index rest

def lastIndexOf (last : UInt64) (entries : List LogEntry) : UInt64 :=
  entries.foldl (fun _ e => e.index) last

def onFetched (s : Subscription) (answer : Except Fault (List LogEntry)) : Subscription :=
  let s := { s with fetch := none }
  match answer with
  | .error cause =>
    if cause.isCompaction then
      { s with metrics := s.metrics.recordFetchFailure true, armed := false }
    else { s with metrics := s.metrics.recordFetchFailure false, retryFetch := true }
  | .ok entries =>
    let accepted := accept s.lastFetched entries
    let last := lastIndexOf s.lastFetched accepted
    { s with
      lastFetched := last
      metrics := s.metrics.recordFetch accepted.length last
      retryFetch := s.retryFetch || accepted.isEmpty
      queue := s.queue ++ accepted.map .entry }

/-- The driver leaves. What it dropped is cancelled, and nobody listens to the
streams any more. -/
def leave (s : Subscription) : Subscription :=
  let s := s.dropQueue.cancelRequests (s.snapshots.map InstallTask.ticket)
  { s with driving := false, fetch := none, commits := [], snapshots := [], events := [] }

/-- What the driver does by itself at this moment, if anything. -/
def driverStep? (s : Subscription) (now : Instant) : Option Subscription :=
  if !s.driving then none
  else if s.stopped then some s.leave
  else if s.wantsFetch then some (s.scheduleFetch now)
  else match s.events, s.snapshots, s.commits with
    | event :: rest, _, _ => some ({ s with events := rest }.onEvent event)
    | [], task :: rest, _ => some ({ s with snapshots := rest }.onSnapshot task)
    | [], [], index :: rest => some ({ s with commits := rest }.onCommit index)
    | [], [], [] => none

def beginRead? (s : Subscription) (now : Instant) : Option Subscription :=
  match s.fetch with
  | none => none
  | some f =>
    if !f.reading && decide (f.due ≤ now) then
      some { s with fetch := some { f with reading := true } }
    else none

def endRead? (s : Subscription) (answer : Except Fault (List LogEntry)) : Option Subscription :=
  if s.fetch.any (·.reading) then some (s.onFetched answer) else none

end RangeKeeper.Subscription
