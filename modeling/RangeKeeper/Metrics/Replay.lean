import RangeKeeper.Metrics.Series
import RangeKeeper.Report

/-!
What one subscription to a committed log counts. `consecutiveApplyFailures` is
the signal of a stuck range: it grows while the state machine keeps refusing,
and the next successful apply or install sets it back to zero. Indexes are shown
as signed words, whatever their size.
-/

namespace RangeKeeper

structure ReplayMetrics where
  fetches : UInt64 := 0
  fetchFailures : UInt64 := 0
  compactedReads : UInt64 := 0
  entriesFetched : UInt64 := 0
  entriesApplied : UInt64 := 0
  applyFailures : UInt64 := 0
  appliesCancelled : UInt64 := 0
  snapshotsInstalled : UInt64 := 0
  installFailures : UInt64 := 0
  consecutiveApplyFailures : Int64 := 0
  lastFetchedIndex : Int64 := 0
  lastAppliedIndex : Int64 := 0
  deriving DecidableEq, Repr, Inhabited

namespace ReplayMetrics

/-- A read handed on `entries` entries, the last of them at `lastFetched`. -/
def recordFetch (m : ReplayMetrics) (entries : Nat) (lastFetched : UInt64) : ReplayMetrics :=
  { m with
    fetches := m.fetches + 1
    entriesFetched := m.entriesFetched + UInt64.ofNat entries
    lastFetchedIndex := lastFetched.toInt64 }

def recordFetchFailure (m : ReplayMetrics) (compacted : Bool) : ReplayMetrics :=
  { m with
    fetches := m.fetches + 1
    fetchFailures := m.fetchFailures + 1
    compactedReads := m.compactedReads + if compacted then 1 else 0 }

def recordApplied (m : ReplayMetrics) (index : UInt64) : ReplayMetrics :=
  { m with
    entriesApplied := m.entriesApplied + 1
    consecutiveApplyFailures := 0
    lastAppliedIndex := index.toInt64 }

def recordApplyFailure (m : ReplayMetrics) : ReplayMetrics :=
  { m with
    applyFailures := m.applyFailures + 1
    consecutiveApplyFailures := m.consecutiveApplyFailures + 1 }

def recordCancelled (m : ReplayMetrics) (entries : Nat) : ReplayMetrics :=
  { m with appliesCancelled := m.appliesCancelled + UInt64.ofNat entries }

/-- An installed snapshot moves both indexes to its own. -/
def recordInstalled (m : ReplayMetrics) (index : UInt64) : ReplayMetrics :=
  { m with
    snapshotsInstalled := m.snapshotsInstalled + 1
    consecutiveApplyFailures := 0
    lastFetchedIndex := index.toInt64
    lastAppliedIndex := index.toInt64 }

def recordInstallFailure (m : ReplayMetrics) : ReplayMetrics :=
  { m with installFailures := m.installFailures + 1 }

/-- At least `threshold` failures in a row; a threshold of zero is never
reached. -/
def isStalled (m : ReplayMetrics) (threshold : UInt64) : Bool :=
  decide (0 < threshold) && decide (threshold ≤ m.consecutiveApplyFailures.toUInt64)

def counters (m : ReplayMetrics) : List Counter :=
  [⟨"wal_fetches_total", "WAL fetch attempts", m.fetches⟩,
    ⟨"wal_fetch_failures_total", "Failed WAL fetches", m.fetchFailures⟩,
    ⟨"wal_compacted_reads_total", "WAL fetches that hit a compacted index", m.compactedReads⟩,
    ⟨"wal_entries_fetched_total", "Entries queued for apply", m.entriesFetched⟩,
    ⟨"wal_entries_applied_total", "Entries applied", m.entriesApplied⟩,
    ⟨"wal_apply_failures_total", "Failed apply attempts", m.applyFailures⟩,
    ⟨"wal_applies_cancelled_total", "Pending applies dropped before running",
      m.appliesCancelled⟩,
    ⟨"wal_snapshots_installed_total", "Snapshots installed", m.snapshotsInstalled⟩,
    ⟨"wal_install_failures_total", "Snapshot installs that failed or were cancelled",
      m.installFailures⟩]

def gauges (m : ReplayMetrics) : List Gauge :=
  [⟨"wal_consecutive_apply_failures", "Failed apply attempts since the last success",
      m.consecutiveApplyFailures⟩,
    ⟨"wal_last_fetched_index", "Highest fetched index", m.lastFetchedIndex⟩,
    ⟨"wal_last_applied_index", "Highest applied index", m.lastAppliedIndex⟩]

def render (m : ReplayMetrics) (range : RangeId) : String :=
  let labels := labelText "range_id" range.render
  String.join (m.counters.map (·.render labels)) ++ String.join (m.gauges.map (·.render labels))

end ReplayMetrics

end RangeKeeper
