import RangeKeeper.Balance.Command
import RangeKeeper.Log.Entry
import RangeKeeper.Settings
import RangeKeeper.Wire.Codec

/-!
The wire forms of reports, log entries, snapshots, settings and commands: the
fields in the order of their declaration, alternatives numbered in the order of
theirs.
-/

namespace RangeKeeper.Wire

open Codec

def interval : Codec Interval :=
  ((option bytes).both (option bytes)).map (fun p => ⟨p.1, p.2⟩) fun b => (b.lower, b.upper)

def rangeId : Codec RangeId :=
  (word64.both word64).map (fun p => ⟨p.1, p.2⟩) fun r => (r.id, r.epoch)

def role : Codec Role := choice Role.all

def lifecycle : Codec Lifecycle := choice Lifecycle.all

def figures : Codec Figures := sortedMap text double

def hint : Codec LoadHint :=
  (text.both (figures.both (option bytes))).map
    (fun (hintType, load, splitKey) => ⟨hintType, load, splitKey⟩)
    fun h => (h.hintType, h.load, h.splitKey)

def rangeReport : Codec RangeReport :=
  (rangeId.both (interval.both (role.both (word64.both (lifecycle.both hint.list))))).map
    (fun (id, interval, role, version, state, hints) =>
      ⟨id, interval, role, version, state, hints⟩)
    fun r => (r.id, r.interval, r.role, r.version, r.state, r.hints)

def storeReport : Codec StoreReport :=
  (text.both (rangeReport.list.both figures)).map
    (fun (store, ranges, stats) => ⟨store, ranges, stats⟩)
    fun s => (s.store, s.ranges, s.stats)

def logEntry : Codec LogEntry :=
  (word64.both (word64.both bytes)).map
    (fun (index, term, data) => ⟨index, term, data⟩)
    fun e => (e.index, e.term, e.data)

def snapshot : Codec Snapshot :=
  (rangeId.both (word64.both (text.both (word64.both lifecycle)))).map
    (fun (rangeId, version, checkpoint, lastApplied, state) =>
      ⟨rangeId, version, checkpoint, lastApplied, state⟩)
    fun s => (s.rangeId, s.version, s.checkpoint, s.lastApplied, s.state)

def backoffSettings : Codec BackoffSettings :=
  (duration.both (duration.both double)).map
    (fun (initial, max, multiplier) => ⟨initial, max, multiplier⟩)
    fun s => (s.initial, s.max, s.multiplier)

def replaySettings : Codec ReplaySettings :=
  (word64.both (duration.both ((option backoffSettings).both word64))).map
    (fun (budget, delay, backoff, threshold) => ⟨budget, delay, backoff, threshold⟩)
    fun s => (s.maxFetchBytes, s.fetchRetryDelay, s.applyBackoff, s.stallThreshold)

def splitSettings : Codec SplitSettings :=
  (text.both (word64.both (double.both (double.both double)))).map
    (fun (hintType, awaiting, cpu, density, latency) =>
      ⟨hintType, awaiting, cpu, density, latency⟩)
    fun s => (s.hintType, s.maxAwaiting, s.cpuLimit, s.densityThreshold, s.latencyThreshold)

def controlSettings : Codec ControlSettings :=
  (duration.both duration).map (fun p => ⟨p.1, p.2⟩) fun s => (s.interval, s.retryDelay)

/-- A set of stores is written ascending; it is read in any order and with
repetitions. -/
def storeSet : Codec StoreSet :=
  text.list.map StoreSet.ofList SortedMap.keys

def splitCommand : Codec SplitCommand :=
  (rangeId.both (text.both (word64.both bytes))).map
    (fun (id, store, version, key) => ⟨id, store, version, key⟩)
    fun c => (c.rangeId, c.toStore, c.expectedVersion, c.splitKey)

def changeConfigCommand : Codec ChangeConfigCommand :=
  (rangeId.both (text.both (word64.both (storeSet.both storeSet)))).map
    (fun (id, store, version, voters, learners) => ⟨id, store, version, voters, learners⟩)
    fun c => (c.rangeId, c.toStore, c.expectedVersion, c.voters, c.learners)

def command : Codec Command :=
  (splitCommand.either changeConfigCommand).map
    (fun
      | .inl c => .split c
      | .inr c => .changeConfig c)
    fun
      | .split c => .inl c
      | .changeConfig c => .inr c

end RangeKeeper.Wire

namespace RangeKeeper.Command

def toBytes (c : Command) : Bytes := Wire.command.write c

def ofBytes? (bs : Bytes) : Except Fault Command := (Wire.command.decode bs).mapError .wire

end RangeKeeper.Command
