import RangeKeeper.Routing.Table

/-!
Resolution of contradicting reports into one routing table. Only leader replicas
whose interval is not empty are candidates. They are taken in the order of
`Owner.rank`, from left to right, and one is accepted when it does not overlap
the one accepted before it; a candidate that does is dropped whole, never
trimmed. Because accepted intervals are apart and ascend, the last accepted one
is the only one that a later candidate can overlap.
-/

namespace RangeKeeper

/-- The order of precedence: by lower end, then the smaller id, the smaller
epoch, the greater version, the smaller interval and the smaller store name. -/
def Owner.rank (a b : Owner) : Ordering :=
  (compareLowers a.report.interval.lower b.report.interval.lower)
    |>.then (compare a.report.id.id b.report.id.id)
    |>.then (compare a.report.id.epoch b.report.id.epoch)
    |>.then (compare b.report.version a.report.version)
    |>.then (a.report.interval.order b.report.interval)
    |>.then (compare a.store b.store)

def allReplicas (listing : ReportsByStore) : List Owner :=
  listing.flatMap fun group => group.2.map fun r => ⟨r, group.1⟩

def candidates (listing : ReportsByStore) : List Owner :=
  (allReplicas listing).filter fun o => o.report.isLeader && !o.report.interval.isEmpty

/-- The candidates by precedence; those of equal rank keep the order of the
listing. -/
def ranked (listing : ReportsByStore) : List Owner :=
  (candidates listing).mergeSort fun a b => (a.rank b).isLE

/-- Accept what does not overlap the interval accepted last. -/
def sweep : (last : Option Interval) → List Owner → List Owner
  | _, [] => []
  | last, o :: rest =>
    if last.any (·.overlaps o.report.interval) then sweep last rest
    else o :: sweep (some o.report.interval) rest

def resolve (listing : ReportsByStore) : RoutingTable :=
  .ofOwners (sweep none (ranked listing))

end RangeKeeper
