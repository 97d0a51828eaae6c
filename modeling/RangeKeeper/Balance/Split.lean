import RangeKeeper.Balance.Balancer
import RangeKeeper.Settings

/-!
Splitting by load. A range is worth a split when many writes hit it while its
storage still answers quickly: two leaders then take more than one, whereas a
range whose storage is saturated would gain nothing. Each limit is the
comparison that rules a range out, so a figure that is no number is never ruled
out.
-/

namespace RangeKeeper.SplitBalancer

def densityMetric : String := "ioDensity"

/-- The figure for the latency of the storage, in nanoseconds. -/
def latencyMetric : String := "ioLatencyNanos"

/-- A range that is worth a split, how busy it is and where to split it. -/
structure Candidate where
  range : RangeReport
  density : Double
  splitKey : Key

/-- The busier candidate first, the smaller range id among equally busy ones. A
density that is no number counts as equal to any other. -/
def Candidate.order (a b : Candidate) : Ordering :=
  ((b.density.order? a.density).getD .eq).then (compare a.range.id b.range.id)

/-- The ranges that the store leads, in their normal state, with their first
hint of the configured type. Each of them counts as waiting for a split. -/
def awaiting (settings : SplitSettings) (report : StoreReport) : List (RangeReport × LoadHint) :=
  (report.leaderRanges.filter fun r => decide (r.state = .normal)).filterMap fun r =>
    (r.hint? settings.hintType).map fun h => (r, h)

def withinLimits (settings : SplitSettings) (hint : LoadHint) : Bool :=
  !((hint.loadOrZero densityMetric).le settings.densityThreshold ||
    settings.latencyThreshold.le (hint.loadOrZero latencyMetric))

def candidate? (settings : SplitSettings) (range : RangeReport) (hint : LoadHint) :
    Option Candidate :=
  if withinLimits settings hint then
    (hint.usableSplitKey.filter fun k => range.interval.isSplittable k).map fun k =>
      ⟨range, hint.loadOrZero densityMetric, k⟩
  else none

/-- The candidates of a store in the order of preference, equal ones as they are
listed. -/
def candidates (settings : SplitSettings) (report : StoreReport) : List Candidate :=
  ((awaiting settings report).filterMap fun entry => candidate? settings entry.1 entry.2).mergeSort
    fun a b => (a.order b).isLE

def pick (settings : SplitSettings) (store : StoreId) (report : StoreReport) : Option Command :=
  if settings.cpuLimit.le report.cpuUsage then none
  else if settings.maxAwaiting.toNat ≤ (awaiting settings report).length then none
  else (candidates settings report).head?.map fun best =>
    .split ⟨best.range.id, store, best.range.version, best.splitKey⟩

/-- Ask for a split of the busiest range that `store` leads. -/
def propose (settings : SplitSettings) (store : StoreId) (reports : List StoreReport) :
    Option Command :=
  (reportOf? reports store).bind (pick settings store)

end RangeKeeper.SplitBalancer

namespace RangeKeeper

def Balancer.split? (store : StoreId) (settings : SplitSettings) :
    Except SettingsFault Balancer :=
  settings.validate.map fun _ =>
    { name := "range_split", store := store, propose := SplitBalancer.propose settings store }

end RangeKeeper
