import SensorCache.Number.Shortest

/-!
# Decimal numerals

A numeral is the text of a number: a sign, whole digits, and perhaps a fraction and an exponent.
`Numeral.toDouble?` is its binary value and `Double.numeral` the numeral a number is written as.

The binary value is found in two roundings. The first digits of the numeral that fit in 64 bits
make a whole number, the rest only count as powers of ten; that whole number is rounded to a
`Double`, then multiplied or divided by a rounded power of ten. Numerals of up to fifteen digits
with a small exponent come out as the nearest number, longer ones may be off in the last place.
-/

namespace SensorCache

/-- Digits are numbers below ten. A missing exponent and a missing fraction are kept apart from
empty ones, since `1` and `1.0` are different numerals. -/
structure Numeral where
  negative : Bool
  whole : List Nat
  fraction : Option (List Nat)
  exponent : Option (Bool × List Nat)
  deriving DecidableEq, Inhabited

namespace Numeral

def digitChar (d : Nat) : Char := Char.ofNat (d + 48)

/-- The value of the digits read after `start`. -/
def value (start : Nat) (digits : List Nat) : Nat := digits.foldl (fun n d => 10 * n + d) start

/-- The digits of a natural number. -/
def digitsOf (n : Nat) : List Nat := (Nat.toDigits 10 n).map fun c => c.toNat - 48

/-- Reads digits while the number stays below `0x10000000000000000`; gives the number and how many
digits it took. -/
def gather : Nat → Nat → List Nat → Nat × Nat
  | n, taken, [] => (n, taken)
  | n, taken, d :: r =>
    if 10 * n + d < 0x10000000000000000 then gather (10 * n + d) (taken + 1) r else (n, taken)

/-- The natural number that a numeral without sign, fraction and exponent is, below `bound`. -/
def toNat? (bound : Nat) (n : Numeral) : Option Nat :=
  match n.negative, n.fraction, n.exponent with
  | false, none, none =>
    let v := value 0 n.whole
    if v < bound then some v else none
  | _, _, _ => none

/-- The exponent of the greatest power of ten that is a number. -/
@[irreducible] def greatestPower : Nat := 308

/-- `f` times ten to the power `e`, by at most `steps` divisions by the greatest power of ten and one
more operation. Past the greatest number there is no value; below the least it is zero. -/
def scale : Nat → Double → Int → Option Double
  | 0, f, _ => some (Double.zero f.negative)
  | steps + 1, f, e =>
    if e.natAbs ≤ greatestPower then
      (Double.ofNat? (Nat.pow 10 e.natAbs)).bind fun p => if 0 ≤ e then f.mul? p else f.div? p
    else if f.isZero then some f
    else if 0 ≤ e then none
    else
      match (Double.ofNat? (Nat.pow 10 greatestPower)).bind f.div? with
      | some g => scale steps g (e + greatestPower)
      | none => none

/-- Exponents are kept within 32 bits. -/
def clampExponent (e : Int) : Int := max (-2147483648) (min 2147483647 e)

/-- The binary number the numeral stands for; none if its magnitude is too large. -/
def toDouble? (n : Numeral) : Option Double :=
  let (whole, taken) := gather 0 0 n.whole
  let dropped : Int := n.whole.length - taken
  let (all, places) := gather whole 0 (n.fraction.getD [])
  let shift : Int := dropped - places
  let sign (x : Double) : Double := if n.negative then x.neg else x
  let finish (e : Int) : Option Double :=
    ((Double.ofNat? all).bind fun f => scale 5 f e).map sign
  match n.exponent with
  | none => finish shift
  | some (down, digits) =>
    let e := value 0 digits
    if 2147483647 < e then
      if all != 0 && !down then none else some (Double.zero n.negative)
    else finish (clampExponent (if down then shift - e else shift + e))

def fractionChars : Option (List Nat) → List Char
  | none => []
  | some f => '.' :: f.map digitChar

def exponentChars : Option (Bool × List Nat) → List Char
  | none => []
  | some (down, e) => 'e' :: (if down then '-' else '+') :: e.map digitChar

/-- The characters of a numeral. -/
def chars (n : Numeral) : List Char :=
  (if n.negative then ['-'] else []) ++
    (n.whole.map digitChar ++ (fractionChars n.fraction ++ exponentChars n.exponent))

end Numeral

namespace Double

/-- Where numbers are written out in full and how the others are: positional notation from
`leastPositional` to `greatestPositional` as powers of ten of the leading digit, with at least one
digit on either side of the point. -/
structure Layout where
  leastPositional : Int
  greatestPositional : Int

/-- Coordinates are positional from 0.00001 up to sixteen whole digits. -/
def layout : Layout := ⟨-5, 15⟩

/-- The exponent part of scientific notation. Its sign is written only for a large number's `+`
and a small one's `-`, never left out. -/
def exponentPart (e : Int) : Option (Bool × List Nat) :=
  some (e < 0, Numeral.digitsOf e.natAbs)

/-- The numeral a number is written as: its shortest digits, positional or scientific by
`layout`. -/
def numeral (x : Double) : Numeral :=
  let d := x.shortest
  let digits := Numeral.digitsOf d.digits
  let m := d.magnitude
  if layout.leastPositional ≤ m && m ≤ layout.greatestPositional then
    if 0 ≤ d.exponent then
      ⟨x.negative, digits ++ List.replicate d.exponent.toNat 0, some [0], none⟩
    else if 0 ≤ m then
      ⟨x.negative, digits.take (m.toNat + 1), some (digits.drop (m.toNat + 1)), none⟩
    else
      ⟨x.negative, [0], some (List.replicate ((-m).toNat - 1) 0 ++ digits), none⟩
  else
    match digits with
    | [] => ⟨x.negative, [0], none, none⟩
    | lead :: rest =>
      ⟨x.negative, [lead], if rest.isEmpty then none else some rest, exponentPart m⟩

end Double

end SensorCache
