import SensorCache.Time.Calendar
import SensorCache.Time.Span

/-!
# Moments

A moment is a day and a time of day, the time in seconds and nanoseconds. A leap second is written
as the second before it with a thousand million nanoseconds or more, so moments are in order of
day, second and nanosecond. Adding a span counts seconds without leap seconds: only a sum that
starts in one sees it, and then it either stays in it or leaves it by its end.
-/

namespace SensorCache.Time

def nanosPerSecond : Nat := 1000000000

def secondsPerDay : Nat := 86400

/-- A day counted from 1970-01-01, a second of it and a nanosecond, which is past the thousand
millionth in a leap second. -/
structure Moment where
  day : Int
  second : Nat
  nano : Nat
  deriving DecidableEq, Inhabited

namespace Moment

/-- Whether a moment is a UTC time that can be named: in range, and with leap seconds only at the
end of a minute. -/
def valid (m : Moment) : Bool :=
  dayInRange m.day && m.second < secondsPerDay &&
    (m.nano < nanosPerSecond || (m.nano < 2 * nanosPerSecond && m.second % 60 == 59))

def lt (a b : Moment) : Bool :=
  a.day < b.day || (a.day == b.day &&
    (a.second < b.second || (a.second == b.second && a.nano < b.nano)))

/-- Seconds since 1970-01-01, a leap second counted with the second before it. -/
def unixSeconds (m : Moment) : Int := m.day * secondsPerDay + m.second

def ofUnix (seconds : Int) (nano : Nat) : Moment :=
  ⟨seconds / secondsPerDay, (seconds % secondsPerDay).toNat, nano⟩

/-- Moves a moment by whole seconds and keeps its nanoseconds, also those of a leap second. -/
def addOffset (m : Moment) (seconds : Int) : Moment := ofUnix (m.unixSeconds + seconds) m.nano

/-- Adds a span to a moment outside a leap second. -/
def addPlain (m : Moment) (d : Span) : Moment :=
  let nano := m.nano + d.subNanos
  if nano < nanosPerSecond then ofUnix (m.unixSeconds + d.seconds) nano
  else ofUnix (m.unixSeconds + d.seconds + 1) (nano - nanosPerSecond)

/-- A moment some time later. -/
def add (m : Moment) (d : Span) : Moment :=
  if nanosPerSecond ≤ m.nano then
    if 0 < d.seconds || 2 * nanosPerSecond ≤ m.nano + d.subNanos then
      addPlain { m with nano := m.nano - nanosPerSecond } d
    else { m with nano := m.nano + d.subNanos }
  else addPlain m d

def inRange (m : Moment) : Bool := dayInRange m.day

/-- A moment some time later, if it is in range. -/
def add? (m : Moment) (d : Span) : Option Moment :=
  let r := m.add d
  if r.inRange then some r else none

/-- Whole seconds from `a` to a `b` that is not before it. A leap second between the two on one day
counts. -/
def secondsUntil (a b : Moment) : Int :=
  let days := (b.day - a.day) * secondsPerDay
  let seconds : Int := (b.second : Int) - a.second
  let seconds :=
    if a.second < b.second && nanosPerSecond ≤ a.nano then seconds + 1
    else if b.second < a.second && nanosPerSecond ≤ b.nano then seconds - 1
    else seconds
  days + seconds + ((b.nano : Int) - a.nano) / nanosPerSecond

end Moment

end SensorCache.Time
