import RangeKeeper.Routing.Table

/-!
Looking up keys and intervals in a routing table by its order alone. The owner
of a key can only be the last one filed at or before the interval that begins
with the key. The owners within an interval are those filed from there on, up to
the interval's upper end.
-/

namespace RangeKeeper

namespace RoutingTable

def findByKey? (table : RoutingTable) (k : Key) : Option Owner :=
  ((table.floor? ⟨some k, none⟩).filter fun e => e.1.containsKey k).map Prod.snd

/-- Nothing filed at or past the empty interval at the upper end can begin
before that end. -/
def upperLimit (q : Interval) : SortedMap.Limit Interval :=
  match q.upper with
  | none => .unlimited
  | some e => .excluded ⟨some e, some e⟩

/-- The last interval filed at or before the lower end belongs to the answer
only if it reaches past that end. -/
def lowerLimit (table : RoutingTable) (q : Interval) : SortedMap.Limit Interval :=
  match q.lower with
  | none => .unlimited
  | some s =>
    match table.floor? ⟨some s, some s⟩ with
    | none => .unlimited
    | some (b, _) => if compareUppers b.upper (some s) = .gt then .included b else .excluded b

def findByInterval (table : RoutingTable) (q : Interval) : List Owner :=
  if table.entries.isEmpty || q.isEmpty then []
  else (table.between (table.lowerLimit q) (upperLimit q)).map Prod.snd

end RoutingTable

end RangeKeeper
