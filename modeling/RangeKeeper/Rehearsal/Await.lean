import RangeKeeper.Duration

/-!
Waiting for a condition by asking again and again. The condition is asked while
the time that a stopwatch shows is below the limit, and once more when it no
longer is; the last answer counts.
-/

namespace RangeKeeper

/-- Ask until the condition holds or the stopwatch, read before each question,
reaches the limit. The result comes with the number of questions asked; `asked`
were asked before, and at most `fuel` more are asked within the limit. -/
def awaitFrom (stopwatch : Nat → Instant) (limit : Instant) (condition : Nat → Bool) (asked : Nat) :
    (fuel : Nat) → Bool × Nat
  | 0 => (condition (asked + 1), asked + 1)
  | fuel + 1 =>
    if stopwatch asked < limit then
      if condition (asked + 1) then (true, asked + 1)
      else awaitFrom stopwatch limit condition (asked + 1) fuel
    else (condition (asked + 1), asked + 1)

def awaitCondition (stopwatch : Nat → Instant) (limit : Duration) (condition : Nat → Bool)
    (most : Nat) : Bool × Nat :=
  awaitFrom stopwatch limit.toNanos condition 0 most

def eventuallyLimit : Duration := Duration.ofSeconds 5

end RangeKeeper
