import RangeKeeper.Text.Utf8

/-!
Half-open intervals `[lower, upper)` of keys, either side possibly open. An
absent lower end means that the interval begins before every key, an absent
upper end that it goes on past every key, so the same absence compares as the
least lower end and as the greatest upper end. Intervals are ordered by their
lower ends and then by their upper ends, which is the order of the key space
from left to right. Nothing here demands that an interval holds a key: an
inverted one is an ordinary value, and `isEmpty` tells it apart.
-/

namespace RangeKeeper

/-- The keys from `lower`, which belongs to the interval, up to `upper`, which
does not. -/
structure Interval where
  lower : Option Key
  upper : Option Key
  deriving DecidableEq, Repr, Inhabited

/-- An absent lower end stands before every key. -/
def compareLowers : Option Key → Option Key → Ordering
  | none, none => .eq
  | none, some _ => .lt
  | some _, none => .gt
  | some a, some b => Key.order a b

/-- An absent upper end stands after every key. -/
def compareUppers : Option Key → Option Key → Ordering
  | none, none => .eq
  | none, some _ => .gt
  | some _, none => .lt
  | some a, some b => Key.order a b

namespace Interval

def full : Interval := ⟨none, none⟩

/-- The lower end lies strictly below the upper one; an open side always
qualifies. -/
def isValid (b : Interval) : Bool :=
  match b.lower, b.upper with
  | some s, some e => decide (s < e)
  | _, _ => true

def isEmpty (b : Interval) : Bool := !b.isValid

/-- A key at the lower end is inside, a key at the upper end is outside. -/
def containsKey (b : Interval) (k : Key) : Bool :=
  b.lower.all (fun s => decide (s ≤ k)) && b.upper.all (fun e => decide (k < e))

def contains (outer inner : Interval) : Bool :=
  compareLowers outer.lower inner.lower != .gt && compareUppers inner.upper outer.upper != .gt

/-- The greater lower end and the lesser upper end; empty when the two are
apart. -/
def intersect (a b : Interval) : Interval where
  lower := if compareLowers a.lower b.lower = .lt then b.lower else a.lower
  upper := if compareUppers a.upper b.upper = .gt then b.upper else a.upper

def overlaps (a b : Interval) : Bool := !(a.intersect b).isEmpty

/-- The key is inside and not the lower end itself, so both sides of a cut at it
are left non-empty. -/
def isSplittable (b : Interval) (k : Key) : Bool :=
  b.lower.all (fun s => decide (s < k)) && b.containsKey k

/-- Cut the interval in two; the key itself goes to the right part. -/
def splitAt (b : Interval) (k : Key) : Option (Interval × Interval) :=
  if b.isSplittable k then some (⟨b.lower, some k⟩, ⟨some k, b.upper⟩) else none

/-- Left to right: by lower end, then by upper end. -/
def order (a b : Interval) : Ordering :=
  (compareLowers a.lower b.lower).then (compareUppers a.upper b.upper)

instance : Ord Interval := ⟨order⟩

def sort (bs : List Interval) : List Interval := bs.mergeSort fun a b => (a.order b).isLE

/-- The ends in brackets, with keys as text; an open side is an infinity. -/
def render (b : Interval) : String :=
  (match b.lower with
    | some s => "[" ++ Utf8.lossy s
    | none => "(-inf") ++
  match b.upper with
  | some e => ", " ++ Utf8.lossy e ++ ")"
  | none => ", +inf)"

theorem compare_def (a b : Interval) : compare a b = a.order b := rfl

end Interval

theorem compareLowers_swap (a b : Option Key) : compareLowers a b = (compareLowers b a).swap := by
  cases a <;> cases b
  case some.some a b => exact Key.order_swap a b
  all_goals rfl

theorem compareUppers_swap (a b : Option Key) : compareUppers a b = (compareUppers b a).swap := by
  cases a <;> cases b
  case some.some a b => exact Key.order_swap a b
  all_goals rfl

theorem compareLowers_eq_eq {a b : Option Key} : compareLowers a b = .eq ↔ a = b := by
  cases a <;> cases b <;> simp [compareLowers, Key.order_eq_eq]

theorem compareUppers_eq_eq {a b : Option Key} : compareUppers a b = .eq ↔ a = b := by
  cases a <;> cases b <;> simp [compareUppers, Key.order_eq_eq]

theorem compareLowers_lt_trans {a b c : Option Key} (hab : compareLowers a b = .lt)
    (hbc : compareLowers b c = .lt) : compareLowers a c = .lt := by
  cases a <;> cases b <;> cases c <;> simp_all [compareLowers, Key.order_eq_lt]
  exact List.lt_trans hab hbc

theorem compareUppers_lt_trans {a b c : Option Key} (hab : compareUppers a b = .lt)
    (hbc : compareUppers b c = .lt) : compareUppers a c = .lt := by
  cases a <;> cases b <;> cases c <;> simp_all [compareUppers, Key.order_eq_lt]
  exact List.lt_trans hab hbc

namespace Interval

theorem order_eq_lt {a b : Interval} :
    a.order b = .lt ↔ compareLowers a.lower b.lower = .lt ∨
      a.lower = b.lower ∧ compareUppers a.upper b.upper = .lt := by
  rw [order, Ordering.then_eq_lt, compareLowers_eq_eq]

theorem order_eq_eq {a b : Interval} : a.order b = .eq ↔ a = b := by
  rw [order, Ordering.then_eq_eq, compareLowers_eq_eq, compareUppers_eq_eq]
  cases a; cases b; simp

theorem order_lt_trans {a b c : Interval} (hab : a.order b = .lt) (hbc : b.order c = .lt) :
    a.order c = .lt := by
  rw [order_eq_lt] at *
  rcases hab with hab | ⟨hab, hab'⟩ <;> rcases hbc with hbc | ⟨hbc, hbc'⟩
  · exact .inl (compareLowers_lt_trans hab hbc)
  · exact .inl (hbc ▸ hab)
  · exact .inl (hab ▸ hbc)
  · exact .inr ⟨hab.trans hbc, compareUppers_lt_trans hab' hbc'⟩

instance : Std.OrientedOrd Interval where
  eq_swap {a b} := by
    rw [compare_def, compare_def, order, order, Ordering.swap_then, ← compareLowers_swap,
      ← compareUppers_swap]

instance : Std.TransOrd Interval where
  isLE_trans {a b c} hab hbc := by
    simp only [compare_def, Ordering.isLE_iff_eq_lt_or_eq_eq, order_eq_eq] at *
    rcases hab with hab | rfl
    · rcases hbc with hbc | rfl
      · exact .inl (order_lt_trans hab hbc)
      · exact .inl hab
    · exact hbc

instance : Std.LawfulEqOrd Interval where
  eq_of_compare h := order_eq_eq.mp h

end Interval

end RangeKeeper
