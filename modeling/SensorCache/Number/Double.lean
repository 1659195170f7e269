/-!
# Binary floating-point numbers

The finite numbers of the 64-bit binary format, as a sign, a significand and a power of two, with
rounding done in exact arithmetic on natural numbers: a positive rational `num / den` goes to the
nearest number of the format, a tie to the even significand, and one too large has none.
-/

namespace SensorCache

/-- The finite number `± significand · 2 ^ exponent`. Each has one form: the significand has all
its 53 bits unless the exponent is the least one. The bounds of these are `2 ^ 52` and `2 ^ 53`. -/
structure Double where
  negative : Bool
  significand : Nat
  exponent : Int
  significand_lt : significand < 0x20000000000000
  exponent_ge : -1074 ≤ exponent
  exponent_le : exponent ≤ 971
  normal : 0x10000000000000 ≤ significand ∨ exponent = -1074
  deriving DecidableEq

namespace Double

/-- The number of the given parts, if they are in the one form. -/
def ofParts? (negative : Bool) (significand : Nat) (exponent : Int) : Option Double :=
  if h : (significand < 0x20000000000000 ∧ -1074 ≤ exponent) ∧
      (exponent ≤ 971 ∧ (0x10000000000000 ≤ significand ∨ exponent = -1074)) then
    some ⟨negative, significand, exponent, h.1.1, h.1.2, h.2.1, h.2.2⟩
  else none

def zero (negative : Bool) : Double :=
  ⟨negative, 0, -1074, by decide, by decide, by decide, Or.inr rfl⟩

instance : Inhabited Double := ⟨zero false⟩

def isZero (x : Double) : Bool := x.significand == 0

/-- `2 ^ n` for `0 ≤ n`, and one below. -/
def twoPow (n : Int) : Nat := Nat.pow 2 n.toNat

/-- The magnitude is the quotient `num x / den x`. -/
def num (x : Double) : Nat := x.significand * twoPow x.exponent

def den (x : Double) : Nat := twoPow (-x.exponent)

theorem den_pos (x : Double) : 0 < x.den := Nat.pow_pos (by decide)

def neg (x : Double) : Double := { x with negative := !x.negative }

/-- The whole number nearest to `a / b`, an even one where two are. -/
def roundQuotient (a b : Nat) : Nat :=
  let q := a / b
  let r := a % b
  if 2 * r > b || (2 * r == b && q % 2 == 1) then q + 1 else q

/-- `a / b` in units of `2 ^ e`, as a quotient again. -/
def inUnits (a b : Nat) (e : Int) : Nat × Nat := (a * twoPow (-e), b * twoPow e)

/-- The exponent of the numbers of the format around `a / b`. -/
def exponentFor (a b : Nat) : Int :=
  let guess : Int := (Nat.log2 a : Int) - (Nat.log2 b : Int) - 53
  let (p, q) := inUnits a b guess
  max (-1074) (if 0x20000000000000 * q ≤ p then guess + 1 else guess)

/-- The number of the format nearest to `± a / b`, ties to even; none if it is past the greatest. -/
def round? (negative : Bool) (a b : Nat) : Option Double :=
  if a == 0 then some (zero negative)
  else
    let e := exponentFor a b
    let (p, q) := inUnits a b e
    let m := roundQuotient p q
    if m < 0x20000000000000 then ofParts? negative m e
    else ofParts? negative 0x10000000000000 (e + 1)

def mul? (x y : Double) : Option Double :=
  round? (x.negative != y.negative) (x.num * y.num) (x.den * y.den)

/-- The quotient of `x` by a `y` that is not zero. -/
def div? (x y : Double) : Option Double :=
  round? (x.negative != y.negative) (x.num * y.den) (x.den * y.num)

/-- The number nearest to a natural one. -/
def ofNat? (n : Nat) : Option Double := round? false n 1

end Double

end SensorCache
