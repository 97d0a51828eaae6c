import RangeKeeper.Interval
import RangeKeeper.SortedMap
import RangeKeeper.Double

/-!
What stores report about themselves. A store is one process that hosts replicas
of many ranges; its heartbeat lists every replica with the interval it serves,
its role and, from leaders, figures on their load together with a key at which
to split. Reports of different stores may contradict each other; nothing here
decides between them.
-/

namespace RangeKeeper

abbrev StoreId := String

abbrev Figures := SortedMap String Double

/-- The identity of a range. The same `id` created again gets a new `epoch`. -/
structure RangeId where
  id : UInt64
  epoch : UInt64
  deriving DecidableEq, Repr, Inhabited

namespace RangeId

def render (r : RangeId) : String := s!"{r.epoch}_{r.id}"

def order (a b : RangeId) : Ordering := (compare a.id b.id).then (compare a.epoch b.epoch)

instance : Ord RangeId := ⟨order⟩

theorem compare_def (a b : RangeId) : compare a b = a.order b := rfl

theorem order_eq_eq {a b : RangeId} : a.order b = .eq ↔ a = b := by
  rw [order, Ordering.then_eq_eq, Std.LawfulEqOrd.compare_eq_iff_eq,
    Std.LawfulEqOrd.compare_eq_iff_eq]
  cases a; cases b; simp

instance : Std.OrientedOrd RangeId where
  eq_swap {a b} := by
    rw [compare_def, compare_def, order, order, Ordering.swap_then, ← Std.OrientedOrd.eq_swap,
      ← Std.OrientedOrd.eq_swap]

instance : Std.TransOrd RangeId where
  isLE_trans {a b c} hab hbc := by
    simp only [compare_def, order, Ordering.isLE_then_iff_and] at *
    obtain ⟨hab, hab'⟩ := hab
    obtain ⟨hbc, hbc'⟩ := hbc
    refine ⟨Std.TransOrd.isLE_trans hab hbc, ?_⟩
    rcases hab' with hab' | hab'
    · exact .inl (Std.TransCmp.lt_of_lt_of_isLE hab' hbc)
    · rcases hbc' with hbc' | hbc'
      · exact .inl (Std.TransCmp.lt_of_isLE_of_lt hab hbc')
      · exact .inr (Std.TransOrd.isLE_trans hab' hbc')

instance : Std.LawfulEqOrd RangeId where
  eq_of_compare h := order_eq_eq.mp h

end RangeId

inductive Role where
  | leader
  | follower
  | candidate
  | learner
  deriving DecidableEq, Repr, Inhabited

namespace Role

def all : List Role := [.leader, .follower, .candidate, .learner]

def render : Role → String
  | .leader => "leader"
  | .follower => "follower"
  | .candidate => "candidate"
  | .learner => "learner"

end Role

inductive Lifecycle where
  | normal
  | configChanging
  | preparedMerging
  | waitingForMerge
  | merged
  | removed
  | purged
  deriving DecidableEq, Repr, Inhabited

namespace Lifecycle

def all : List Lifecycle :=
  [.normal, .configChanging, .preparedMerging, .waitingForMerge, .merged, .removed, .purged]

def render : Lifecycle → String
  | .normal => "normal"
  | .configChanging => "config_changing"
  | .preparedMerging => "prepared_merging"
  | .waitingForMerge => "waiting_for_merge"
  | .merged => "merged"
  | .removed => "removed"
  | .purged => "purged"

end Lifecycle

/-- Figures on the load of a range, perhaps with a key at which to split it. -/
structure LoadHint where
  hintType : String
  load : Figures
  splitKey : Option Key
  deriving Inhabited

namespace LoadHint

/-- A figure that is not reported counts as zero. -/
def loadOrZero (h : LoadHint) (metric : String) : Double := (h.load.find? metric).getD .zero

/-- The empty key splits nothing off, so it is no suggestion. -/
def usableSplitKey (h : LoadHint) : Option Key := h.splitKey.filter (· ≠ [])

end LoadHint

/-- One replica of a range as its store reports it. -/
structure RangeReport where
  id : RangeId
  interval : Interval
  role : Role
  version : UInt64
  state : Lifecycle
  hints : List LoadHint
  deriving Inhabited

namespace RangeReport

def isLeader (r : RangeReport) : Bool := decide (r.role = .leader)

def hint? (r : RangeReport) (hintType : String) : Option LoadHint :=
  r.hints.find? fun h => h.hintType == hintType

end RangeReport

structure StoreReport where
  store : StoreId
  ranges : List RangeReport
  stats : Figures
  deriving Inhabited

namespace StoreReport

def cpuStat : String := "cpu.usage"

/-- The share of the processor in use, zero when it is not reported. -/
def cpuUsage (s : StoreReport) : Double := (s.stats.find? cpuStat).getD .zero

def leaderRanges (s : StoreReport) : List RangeReport := s.ranges.filter (·.isLeader)

end StoreReport

def reportOf? (reports : List StoreReport) (id : StoreId) : Option StoreReport :=
  reports.find? fun s => s.store == id

end RangeKeeper
