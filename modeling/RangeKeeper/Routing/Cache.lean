import RangeKeeper.Routing.Lookup
import RangeKeeper.Routing.View

/-!
The route cache keeps the view that was resolved last and answers from it. A
batch of keys is routed against one view: every position of the batch is noted
under the range that owns its key, or among the unrouted ones.
-/

namespace RangeKeeper

structure RoutingDecision where
  rangeId : RangeId
  store : StoreId
  isLocal : Bool
  deriving DecidableEq, Repr

/-- The positions of a batch by owning range, and those that no range owns. -/
structure BatchRoute where
  byRange : SortedMap RangeId (List Nat) := .empty
  unrouted : List Nat := []

namespace KeySpaceView

def decide? (v : KeySpaceView) (k : Key) (asking : StoreId) : Option RoutingDecision :=
  (v.route.findByKey? k).map fun o => ⟨o.report.id, o.store, o.store == asking⟩

def addToBatch (v : KeySpaceView) (batch : BatchRoute) (position : Nat) (k : Key) : BatchRoute :=
  match v.route.findByKey? k with
  | some o =>
    { batch with
      byRange := batch.byRange.upsert o.report.id fun noted => noted.getD [] ++ [position] }
  | none => { batch with unrouted := batch.unrouted ++ [position] }

def routeBatch (v : KeySpaceView) (keys : List Key) : BatchRoute :=
  keys.zipIdx.foldl (fun batch entry => v.addToBatch batch entry.2 entry.1) {}

end KeySpaceView

/-- The view that lookups are answered from until the next update. -/
structure RouteCache where
  view : KeySpaceView := .unreported

namespace RouteCache

def update (_ : RouteCache) (reports : List StoreReport) : RouteCache :=
  ⟨.ofReports reports⟩

def updateListing (_ : RouteCache) (listing : ReportsByStore) : RouteCache :=
  ⟨.ofListing listing⟩

def findByKey? (c : RouteCache) (k : Key) : Option Owner := c.view.route.findByKey? k

def findByInterval (c : RouteCache) (q : Interval) : List Owner := c.view.route.findByInterval q

def decide? (c : RouteCache) (k : Key) (asking : StoreId) : Option RoutingDecision :=
  c.view.decide? k asking

def routeBatch (c : RouteCache) (keys : List Key) : BatchRoute := c.view.routeBatch keys

end RouteCache

end RangeKeeper
