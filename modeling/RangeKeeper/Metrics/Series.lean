import RangeKeeper.SortedMap

/-!
Counters and gauges, and their exposition text: two comment lines for a family,
then one line for each sample, with its labels in braces. Counts are 64-bit
words and wrap around; label values are written as they are.
-/

namespace RangeKeeper

def familyHeader (name help kind : String) : String :=
  "# HELP " ++ name ++ " " ++ help ++ "\n# TYPE " ++ name ++ " " ++ kind ++ "\n"

/-- One sample; a sample without labels has no braces. -/
def sampleLine (name labels value : String) : String :=
  if labels = "" then name ++ " " ++ value ++ "\n"
  else name ++ "\x7b" ++ labels ++ "\x7d " ++ value ++ "\n"

def labelText (name value : String) : String := name ++ "=\"" ++ value ++ "\""

/-- A count that only grows, up to wrapping around. -/
structure Counter where
  name : String
  help : String
  value : UInt64 := 0
  deriving DecidableEq, Repr

namespace Counter

def add (c : Counter) (n : UInt64) : Counter := { c with value := c.value + n }

def render (c : Counter) (labels : String) : String :=
  familyHeader c.name c.help "counter" ++ sampleLine c.name labels (toString c.value)

end Counter

structure Gauge where
  name : String
  help : String
  value : Int64 := 0
  deriving DecidableEq, Repr

namespace Gauge

def add (g : Gauge) (n : Int64) : Gauge := { g with value := g.value + n }

def set (g : Gauge) (n : Int64) : Gauge := { g with value := n }

def render (g : Gauge) (labels : String) : String :=
  familyHeader g.name g.help "gauge" ++ sampleLine g.name labels (toString g.value.toInt)

end Gauge

/-- A count for each tuple of label values that was ever counted, listed in
ascending order. -/
structure LabeledCounter (n : Nat) where
  name : String
  help : String
  labelNames : Vector String n
  series : SortedMap (Vector String n) UInt64 := .empty

namespace LabeledCounter

variable {n : Nat}

def increment (c : LabeledCounter n) (values : Vector String n) : LabeledCounter n :=
  { c with series := c.series.upsert values fun present => present.getD 0 + 1 }

/-- The count of one series, zero if it was never counted. -/
def get (c : LabeledCounter n) (values : Vector String n) : UInt64 :=
  (c.series.find? values).getD 0

def total (c : LabeledCounter n) : UInt64 := c.series.values.foldr (· + ·) 0

def labelsText (c : LabeledCounter n) (values : Vector String n) : String :=
  ",".intercalate (List.zipWith labelText c.labelNames.toList values.toList)

def render (c : LabeledCounter n) : String :=
  familyHeader c.name c.help "counter" ++
    String.join (c.series.entries.map fun e =>
      sampleLine c.name (c.labelsText e.1) (toString e.2))

end LabeledCounter

end RangeKeeper
