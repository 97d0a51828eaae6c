import RangeKeeper.Routing.Resolve

/-!
The gaps that a routing table leaves, and the view of the key space that pairs a
table with its gaps. The gaps are found by one pass over the intervals,
remembering where the last one ended.
-/

namespace RangeKeeper

/-- The uncovered intervals right of `cursor`, where an absent `cursor` stands
before every key. -/
def gapsFrom (cursor : Option Key) : List Interval → List Interval
  | [] => [⟨cursor, none⟩]
  | b :: rest =>
    let before := if compareLowers cursor b.lower = .lt then [⟨cursor, b.lower⟩] else []
    match b.upper with
    | none => before
    | some e => before ++ gapsFrom (some e) rest

def RoutingTable.gaps (table : RoutingTable) : List Interval := gapsFrom none table.keys

def findGaps (listing : ReportsByStore) : List Interval := (resolve listing).gaps

def fullyCoveredRoute? (listing : ReportsByStore) : Option RoutingTable :=
  let table := resolve listing
  if table.gaps.isEmpty then some table else none

structure KeySpaceView where
  route : RoutingTable
  gaps : List Interval

namespace KeySpaceView

/-- The view before anything was reported: all of the key space is one gap. -/
def unreported : KeySpaceView := ⟨.empty, [.full]⟩

instance : Inhabited KeySpaceView := ⟨unreported⟩

def ofListing (listing : ReportsByStore) : KeySpaceView :=
  let table := resolve listing
  ⟨table, table.gaps⟩

def ofReports (reports : List StoreReport) : KeySpaceView := ofListing (groupByStore reports)

def isFullyCovered (v : KeySpaceView) : Bool := v.gaps.isEmpty

def fullyCoveredRoute? (v : KeySpaceView) : Option RoutingTable :=
  if v.isFullyCovered then some v.route else none

end KeySpaceView

end RangeKeeper
