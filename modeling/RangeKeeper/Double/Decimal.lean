import RangeKeeper.Double

/-!
The shortest decimal text of a double-precision number. Every real number in a
small interval around a finite number rounds to it; the text shows the multiple
of the coarsest power of ten that lies in this interval, and of two such
multiples the nearer, the greater in a tie. It is written with all its places:
no exponent, and no decimal point behind a whole number.
-/

namespace RangeKeeper.Double

/-- A decimal numeral `digits · 10 ^ power`. -/
structure Decimal where
  digits : Nat
  power : Int
  deriving DecidableEq, Repr

/-- Compare `a · 2 ^ p` with `b · 10 ^ k`, by clearing the negative powers. -/
def orderScaled (a : Nat) (p : Int) (b : Nat) (k : Int) : Ordering :=
  compare (a * Nat.pow 2 p.toNat * Nat.pow 10 (-k).toNat)
    (b * Nat.pow 10 k.toNat * Nat.pow 2 (-p).toNat)

/-- The numeral lies between the midpoints to the neighbouring numbers; the
midpoints count where ties go to this number. At a power of two the neighbour
below is only half as far. -/
def readsBack (x : Double) (d : Decimal) : Bool :=
  let m := x.significand
  let q := x.exponent
  let narrow := m = fractionUnit ∧ -1074 < q
  let below := orderScaled (if narrow then 4 * m - 1 else 4 * m - 2) (q - 2) d.digits d.power
  let above := orderScaled (4 * m + 2) (q - 2) d.digits d.power
  if m % 2 = 0 then below != .gt && above != .lt else below == .lt && above == .gt

/-- The two multiples of `10 ^ k` around a finite number that is not zero, of
those the ones that read back, and of these the nearer. -/
def onGrid? (x : Double) (k : Int) : Option Decimal :=
  let m := x.significand
  let q := x.exponent
  let floor :=
    (m * Nat.pow 2 q.toNat * Nat.pow 10 (-k).toNat) /
      (Nat.pow 10 k.toNat * Nat.pow 2 (-q).toNat)
  let lower : Decimal := ⟨floor, k⟩
  let upper : Decimal := ⟨floor + 1, k⟩
  let lowerNearer := orderScaled (2 * m) q (2 * floor + 1) k == .lt
  if x.readsBack lower && (lowerNearer || !x.readsBack upper) then some lower
  else if x.readsBack upper then some upper
  else none

/-- The coarsest grid first. No number reaches `10 ^ 309`, and the grid of
`10 ^ -324` is finer than the interval of any number. -/
def shortest (x : Double) : Decimal :=
  ((List.range 634).findSome? fun (i : Nat) => x.onGrid? (309 - (i : Int))).getD ⟨0, 0⟩

def Decimal.render (d : Decimal) : String :=
  let text := toString d.digits
  if 0 ≤ d.power then text ++ String.ofList (List.replicate d.power.toNat '0')
  else
    let places := (-d.power).toNat
    let padded := List.replicate (places + 1 - text.length) '0' ++ text.toList
    String.ofList (padded.take (padded.length - places)) ++ "." ++
      String.ofList (padded.drop (padded.length - places))

/-- The text of a number: NaN has no sign, a zero keeps its own. -/
def render (x : Double) : String :=
  if x.isNaN then "NaN"
  else
    let body :=
      if x.isInfinite then "inf"
      else if x.magnitude = 0 then "0"
      else x.shortest.render
    if x.isNegative then "-" ++ body else body

end RangeKeeper.Double
