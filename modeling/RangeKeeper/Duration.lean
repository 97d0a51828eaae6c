import RangeKeeper.Key

/-!
Spans of time in whole seconds and a remainder of nanoseconds below one second,
so a span has one form only. Moments are nanoseconds since the start of a clock.
-/

namespace RangeKeeper

structure Duration where
  seconds : UInt64
  nanos : Fin 1000000000
  deriving DecidableEq, Repr, Inhabited

/-- A moment: nanoseconds since the clock started. -/
abbrev Instant := Nat

namespace Duration

def zero : Duration := ⟨0, 0⟩

def toNanos (d : Duration) : Nat := d.seconds.toNat * 1000000000 + d.nanos.val

def ofNanos (n : Nat) : Duration := ⟨UInt64.ofNat (n / 1000000000), Fin.ofNat _ n⟩

def ofMillis (n : Nat) : Duration := ofNanos (n * 1000000)

def ofSeconds (n : UInt64) : Duration := ⟨n, 0⟩

def isZero (d : Duration) : Bool := d.toNanos == 0

/-- `whole` units and `part` of `per` parts of one, without trailing zeros. -/
def renderIn (unit : String) (whole part per : Nat) : String :=
  let places := (toString per).length - 1
  let digits := (toString (per + part)).toList.drop 1
  let shown := ((digits.take places).reverse.dropWhile (· == '0')).reverse
  toString whole ++ (if shown.isEmpty then "" else "." ++ String.ofList shown) ++ unit

/-- The text of a span, in the greatest of seconds, milliseconds, microseconds
and nanoseconds that does not exceed it. -/
def render (d : Duration) : String :=
  let n := d.nanos.val
  if d.seconds != 0 then renderIn "s" d.seconds.toNat n 1000000000
  else if 1000000 ≤ n then renderIn "ms" (n / 1000000) (n % 1000000) 1000000
  else if 1000 ≤ n then renderIn "µs" (n / 1000) (n % 1000) 1000
  else renderIn "ns" n 0 1

end Duration

/-- The first whole millisecond that is not before a moment: clocks wake
sleepers no finer. -/
def Instant.wake (t : Instant) : Instant := (t + 999999) / 1000000 * 1000000

end RangeKeeper
