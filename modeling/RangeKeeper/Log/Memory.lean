import RangeKeeper.Fault
import RangeKeeper.Log.Entry

/-!
A committed log in memory. Its entries stand at consecutive indexes from the
first one still kept; compaction moves that first index forward, also past the
end of the log. A read gives a run of committed entries within a budget of
bytes, but at least one entry if there is any. Reads can be made to fail, or to
find nothing, a number of times. Commit indexes go to a listener, if there is
one, in the order in which they are published.
-/

namespace RangeKeeper

structure MemoryLog where
  /-- The index of the first entry kept, or of the next one to come. -/
  firstIndex : UInt64 := 1
  entries : List LogEntry := []
  committed : UInt64 := 0
  failingReads : Nat := 0
  laggingReads : Nat := 0
  /-- The index that each read so far began with. -/
  fetchStarts : List UInt64 := []
  /-- The commit indexes that the listener, if there is one, has not yet looked
  at. -/
  published : Option (List UInt64) := none
  deriving Repr, Inhabited

namespace MemoryLog

def nextIndex (log : MemoryLog) : UInt64 := log.firstIndex + UInt64.ofNat log.entries.length

def lastIndex (log : MemoryLog) : UInt64 := log.nextIndex - 1

/-- Append an entry of the first term, and say at which index. -/
def append (log : MemoryLog) (data : Bytes) : UInt64 × MemoryLog :=
  (log.nextIndex, { log with entries := log.entries ++ [⟨log.nextIndex, 1, data⟩] })

/-- The payload of an entry that is appended without one: its own index in
words. -/
def generatedPayload (index : UInt64) : Bytes := Utf8.encode s!"entry-{index}"

def generated (log : MemoryLog) (count : Nat) : List LogEntry :=
  (List.range count).map fun i =>
    let index := log.nextIndex + UInt64.ofNat i
    ⟨index, 1, generatedPayload index⟩

/-- Append `count` generated entries, and say at which index the last one is;
without any the answer is 0. -/
def appendMany (log : MemoryLog) (count : Nat) : UInt64 × MemoryLog :=
  let log := { log with entries := log.entries ++ log.generated count }
  (if count = 0 then 0 else log.lastIndex, log)

/-- From now on someone listens for commit indexes, in place of any listener
before. -/
def listen (log : MemoryLog) : MemoryLog := { log with published := some [] }

def hear (log : MemoryLog) : List UInt64 × MemoryLog :=
  (log.published.getD [], { log with published := log.published.map fun _ => [] })

/-- Everything up to `index` is committed, and the index goes to the
listener. -/
def commit (log : MemoryLog) (index : UInt64) : MemoryLog :=
  { log with
    committed := max log.committed index
    published := log.published.map (· ++ [index]) }

def compact (log : MemoryLog) (index : UInt64) : MemoryLog :=
  { log with
    entries := log.entries.dropWhile fun e => decide (e.index ≤ index)
    firstIndex := max log.firstIndex (index + 1) }

/-- The longest run whose sizes, added to `used`, stay within the budget. -/
def takeWithin (budget : Nat) : (used : Nat) → List LogEntry → List LogEntry
  | _, [] => []
  | used, e :: rest =>
    if budget < used + e.size then [] else e :: takeWithin budget (used + e.size) rest

/-- The first entry whatever its size, then as many as the budget allows. -/
def batch (budget : Nat) : List LogEntry → List LogEntry
  | [] => []
  | e :: rest => e :: takeWithin budget e.size rest

/-- The committed entries from `start` on, as far as one read hands them out. -/
def retrieve (log : MemoryLog) (start budget : UInt64) : Except LogFault (List LogEntry) :=
  if start < log.firstIndex then .error (.compacted start log.firstIndex)
  else .ok (batch budget.toNat
    (log.entries.filter fun e => decide (start ≤ e.index) && decide (e.index ≤ log.committed)))

/-- One read: it is noted, and fails or finds nothing while it was asked to. -/
def read (log : MemoryLog) (start budget : UInt64) :
    Except LogFault (List LogEntry) × MemoryLog :=
  let log := { log with fetchStarts := log.fetchStarts ++ [start] }
  if 0 < log.failingReads then
    (.error (.readFailed "injected read failure"),
      { log with failingReads := log.failingReads - 1 })
  else if 0 < log.laggingReads then
    (.ok [], { log with laggingReads := log.laggingReads - 1 })
  else (log.retrieve start budget, log)

end MemoryLog

end RangeKeeper
