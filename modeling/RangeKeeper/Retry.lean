import RangeKeeper.Settings

/-!
How long to wait before an apply is tried again: not at all, or a span that
grows by a constant factor with each failure in a row and stays at a maximum
once it would exceed it.
-/

namespace RangeKeeper

inductive RetryPolicy where
  | immediate
  | backoff (settings : BackoffSettings)
  deriving DecidableEq, Repr

namespace RetryPolicy

def ofSettings (s : ReplaySettings) : RetryPolicy :=
  match s.applyBackoff with
  | none => .immediate
  | some b => .backoff b

/-- The pause after `failures` failures in a row. The exponent stops at 64, and
a product that is not a finite number below the maximum gives the maximum. -/
def delay : RetryPolicy → (failures : Nat) → Duration
  | .immediate, _ => .zero
  | .backoff s, failures =>
    let nanos := (Double.ofNat s.initial.toNanos).mul (s.multiplier.power (min (failures - 1) 64))
    if !nanos.isFinite || (Double.ofNat s.max.toNanos).le nanos then s.max
    else Duration.ofNanos nanos.toWord.toNat

end RetryPolicy

end RangeKeeper
