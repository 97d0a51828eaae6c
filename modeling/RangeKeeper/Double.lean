import RangeKeeper.Key

/-!
Double-precision numbers as their 64 bits. A number travels and is compared as
bits, so a NaN keeps its payload and every statement about comparisons is a
statement about integers. A finite number is `± m · 2 ^ q`; products and
conversions are formed exactly on `m` and `q` and then rounded once, to the
nearest number and in a tie to the even one.
-/

namespace RangeKeeper

/-- The bits of a double-precision number: sign, eleven bits of exponent, 52 of
fraction. -/
structure Double where
  bits : UInt64
  deriving DecidableEq, Repr, Inhabited

namespace Double

def signBit : Nat := Nat.pow 2 63
def fractionUnit : Nat := Nat.pow 2 52

/-- The bits without the sign; infinity is the least that is not finite, every
NaN is above it. -/
def infinityMagnitude : Nat := 2047 * fractionUnit

def isNegative (x : Double) : Bool := decide (signBit ≤ x.bits.toNat)

def magnitude (x : Double) : Nat := x.bits.toNat % signBit

def isNaN (x : Double) : Bool := decide (infinityMagnitude < x.magnitude)

def isFinite (x : Double) : Bool := decide (x.magnitude < infinityMagnitude)

def isInfinite (x : Double) : Bool := decide (x.magnitude = infinityMagnitude)

def ofMagnitude (negative : Bool) (magnitude : Nat) : Double :=
  ⟨UInt64.ofNat (magnitude + if negative then signBit else 0)⟩

def zero : Double := ⟨0⟩
def one : Double := ofMagnitude false (1023 * fractionUnit)
def infinity (negative : Bool) : Double := ofMagnitude negative infinityMagnitude
def nan : Double := ofMagnitude false (infinityMagnitude + Nat.pow 2 51)

/-- Numbers other than NaN are ordered as these integers are; both zeros have
rank zero. -/
def rank (x : Double) : Int := if x.isNegative then -x.magnitude else x.magnitude

/-- Where `x` stands against `y`; a NaN stands nowhere. -/
def order? (x y : Double) : Option Ordering :=
  if x.isNaN || y.isNaN then none else some (compare x.rank y.rank)

def lt (x y : Double) : Bool := x.order? y == some .lt

def le (x y : Double) : Bool := x.order? y == some .lt || x.order? y == some .eq

/-- The `m` of `± m · 2 ^ q`, for a finite number. -/
def significand (x : Double) : Nat :=
  if x.magnitude < fractionUnit then x.magnitude
  else fractionUnit + x.magnitude % fractionUnit

/-- The `q` of `± m · 2 ^ q`, for a finite number. -/
def exponent (x : Double) : Int :=
  if x.magnitude < fractionUnit then -1074 else (x.magnitude / fractionUnit : Nat) - 1075

/-- The natural number nearest to `n / 2 ^ k`, in a tie the even one. -/
def roundShift (n k : Nat) : Nat :=
  let whole := n / Nat.pow 2 k
  let twice := 2 * (n % Nat.pow 2 k)
  if twice < Nat.pow 2 k then whole
  else if Nat.pow 2 k < twice then whole + 1
  else whole + whole % 2

/-- The number nearest to `± m · 2 ^ q`. The quantum is `2 ^ t`: the leading bit
of the result is 52 places above it, except that no quantum is finer than
`2 ^ -1074`. -/
def ofScaled (negative : Bool) (m : Nat) (q : Int) : Double :=
  if m = 0 then ofMagnitude negative 0
  else
    let t := max (m.log2 + q - 52) (-1074)
    let s := if t ≤ q then m * Nat.pow 2 (q - t).toNat else roundShift m (t - q).toNat
    ofMagnitude negative (min ((t + 1074).toNat * fractionUnit + s) infinityMagnitude)

def ofNat (n : Nat) : Double := ofScaled false n 0

def mul (x y : Double) : Double :=
  let negative := x.isNegative != y.isNegative
  if x.isNaN || y.isNaN then nan
  else if x.isInfinite || y.isInfinite then
    if x.magnitude = 0 ∨ y.magnitude = 0 then nan else infinity negative
  else ofScaled negative (x.significand * y.significand) (x.exponent + y.exponent)

/-- Multiply `acc` by the `n`-th power of `x`, squaring `x` for each binary
digit of `n` and rounding every product. -/
def powerFrom (acc x : Double) (n : Nat) : Double :=
  let acc := if n % 2 = 1 then acc.mul x else acc
  if n / 2 = 0 then acc else powerFrom acc (x.mul x) (n / 2)
  termination_by n
  decreasing_by omega

def power (x : Double) (n : Nat) : Double := powerFrom one x n

/-- Drop the fraction and keep within the 64-bit words: what is below zero or a
NaN becomes zero, what is too great the greatest word. -/
def toWord (x : Double) : UInt64 :=
  if x.isNaN || x.isNegative then 0
  else
    let whole :=
      if 0 ≤ x.exponent then x.significand * Nat.pow 2 x.exponent.toNat
      else x.significand / Nat.pow 2 (-x.exponent).toNat
    UInt64.ofNat (min whole (Nat.pow 2 64 - 1))

end Double

end RangeKeeper
