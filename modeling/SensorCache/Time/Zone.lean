import SensorCache.Time.Moment

/-!
# Time zones

A zone is an offset from UTC and the transitions at which the offset changes. A local time may
belong to several instants, around a transition that turns clocks back, or to none, in the gap of
one that turns them forward.
-/

namespace SensorCache.Time

/-- Offsets are seconds east of UTC; `transitions` lists the UTC second from which each new offset
holds, in ascending order. -/
structure Zone where
  offset : Int
  transitions : List (Int × Int)
  deriving DecidableEq, Inhabited

namespace Zone

/-- UTC itself. -/
def utc : Zone := ⟨0, []⟩

/-- The last offset of `l` in force at a UTC second, and `before` ahead of them all. -/
def offsetFrom (before : Int) : List (Int × Int) → Int → Int
  | [], _ => before
  | (t, o) :: r, s => if s < t then before else offsetFrom o r s

/-- The offset in force at a UTC second. -/
def offsetAt (z : Zone) (s : Int) : Int := offsetFrom z.offset z.transitions s

/-- Every offset the zone ever has. -/
def offsets (z : Zone) : List Int := z.offset :: z.transitions.map (·.2)

/-- The UTC seconds at which the zone's clocks show the local second `l`. -/
def instants (z : Zone) (l : Int) : List Int :=
  (z.offsets.map (l - ·)).filter fun s => z.offsetAt s + s == l

/-- The earliest instant at which the zone's clocks show a local time. -/
def earliest? (z : Zone) (l : Moment) : Option Moment :=
  ((z.instants l.unixSeconds).min?).map fun s => Moment.ofUnix s l.nano

/-- What the zone's clocks show. -/
def localOf (z : Zone) (m : Moment) : Moment := m.addOffset (z.offsetAt m.unixSeconds)

/-! ## Zones of which only the offsets are known -/

/-- The second after `a` and not after `b` from which the offset is that of `b`, when it changes
once in between; `n` halvings are enough for `2 ^ n` seconds. -/
def changeBetween (offset : Int → Int) : Nat → Int → Int → Int
  | 0, _, b => b
  | n + 1, a, b =>
    let m := (a + b) / 2
    if offset m = offset b then changeBetween offset n a m else changeBetween offset n m b

/-- The transitions within some days from the second `s` on, at most one a day. -/
def transitionsFrom (offset : Int → Int) : Nat → Int → List (Int × Int)
  | 0, _ => []
  | days + 1, s =>
    let e := s + secondsPerDay
    let rest := transitionsFrom offset days e
    if offset s = offset e then rest else (changeBetween offset 17 s e, offset e) :: rest

/-- The zone with the offsets that are told for each second, within some days from `s` on. -/
def ofOffsets (offset : Int → Int) (days : Nat) (s : Int) : Zone :=
  ⟨offset s, transitionsFrom offset days s⟩

end Zone

end SensorCache.Time
