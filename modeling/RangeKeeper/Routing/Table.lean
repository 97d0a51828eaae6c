import RangeKeeper.Report

/-!
Routing tables: which leader replica owns which interval of keys. A table is
filed by interval and so lists its owners from left to right. What stands in a
table is free; the resolver fills it with intervals that do not overlap.
-/

namespace RangeKeeper

structure Owner where
  report : RangeReport
  store : StoreId
  deriving Inhabited

/-- Owners by the interval they are filed under. -/
abbrev RoutingTable := SortedMap Interval Owner

/-- File each owner under its own interval; a later one replaces an earlier one
there. -/
def RoutingTable.ofOwners (owners : List Owner) : RoutingTable :=
  owners.foldl (fun table o => table.insert o.report.interval o) .empty

abbrev ReportsByStore := List (StoreId × List RangeReport)

/-- Join the heartbeats of one store, in the order they came in. -/
def groupByStore (reports : List StoreReport) : ReportsByStore :=
  (reports.foldl
    (fun (groups : SortedMap StoreId (List RangeReport)) r =>
      groups.upsert r.store fun present => present.getD [] ++ r.ranges)
    .empty).entries

end RangeKeeper
