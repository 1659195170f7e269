import SensorCache.Number.Double

/-!
# The shortest digits of a number

Of the decimals that round to a given number, `Double.shortest` finds one with the fewest digits,
and of those the nearest. The reals that round to `m · 2 ^ e` lie between the midpoints to its two
neighbours, the midpoints included exactly when `m` is even. A grid of decimals has a point in that
interval only if one of the number's two neighbours on the grid is, so it is enough to try those
two for one digit, two digits and so on; seventeen digits always suffice.
-/

namespace SensorCache

/-- The decimal `digits · 10 ^ exponent`. -/
structure Decimal where
  digits : Nat
  exponent : Int
  deriving DecidableEq, Inhabited

namespace Decimal

/-- How many decimal digits a natural number has; zero has one. -/
def width (n : Nat) : Nat := (Nat.toDigits 10 n).length

/-- The power of ten of the leading digit. -/
def magnitude (d : Decimal) : Int := d.exponent + (width d.digits : Int) - 1

def tenPow (n : Int) : Nat := Nat.pow 10 n.toNat

/-- Takes trailing zeros off the digits, at most `n` of them. -/
def stripZeros : Nat → Decimal → Decimal
  | 0, d => d
  | n + 1, d =>
    if d.digits != 0 && d.digits % 10 == 0 then stripZeros n ⟨d.digits / 10, d.exponent + 1⟩ else d

end Decimal

namespace Double

open Decimal

/-- The reals that round to a number: all in quarters of its last place, with the ends if
`closed`. -/
structure Interval where
  low : Nat
  mid : Nat
  high : Nat
  closed : Bool

def interval (x : Double) : Interval where
  low := if x.significand == 0x10000000000000 && x.exponent != -1074 then 4 * x.significand - 1
    else 4 * x.significand - 2
  mid := 4 * x.significand
  high := 4 * x.significand + 2
  closed := x.significand % 2 == 0

/-- The least `p` with `a / b < 10 ^ (p + 1)`, for a positive quotient. -/
def leadingPower (a b : Nat) : Int :=
  if b ≤ a then (width (a / b) : Int) - 1 else -((width ((b - 1) / a) : Nat) : Int)

/-- Whether `n · 10 ^ k` lies in the interval, given in units of `a / b`. -/
def Interval.holds (s : Interval) (a b : Nat) (n : Nat) (k : Int) : Bool :=
  let point := n * tenPow k * b
  let unit := a * tenPow (-k)
  if s.closed then s.low * unit ≤ point && point ≤ s.high * unit
  else s.low * unit < point && point < s.high * unit

/-- The better of the two neighbours of `mid` on the grid of multiples of `10 ^ k`. -/
def Interval.onGrid? (s : Interval) (a b : Nat) (k : Int) : Option Nat :=
  let unit := a * tenPow (-k)
  let step := tenPow k * b
  let lower := s.mid * unit / step
  let upper := lower + 1
  let below := s.mid * unit - lower * step
  let above := upper * step - s.mid * unit
  match s.holds a b lower k, s.holds a b upper k with
  | true, true =>
    if below < above || (below == above && lower % 2 == 0) then some lower else some upper
  | true, false => some lower
  | false, true => some upper
  | false, false => none

/-- Tries grids from `10 ^ k` downwards, `n` of them. -/
def Interval.search (s : Interval) (a b : Nat) : Nat → Int → Decimal
  | 0, k => ⟨0, k⟩
  | n + 1, k =>
    match s.onGrid? a b k with
    | some d => ⟨d, k⟩
    | none => s.search a b n (k - 1)

/-- The shortest decimal that rounds to the magnitude of `x`, without trailing zeros. -/
def shortest (x : Double) : Decimal :=
  if x.isZero then ⟨0, 0⟩
  else
    -- a quarter of the last place is `a / b`
    let a := twoPow (x.exponent - 2)
    let b := twoPow (2 - x.exponent)
    let s := x.interval
    let d := s.search a b 18 (leadingPower (s.mid * a) b)
    stripZeros (width d.digits) d

end Double

end SensorCache
