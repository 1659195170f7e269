import SensorCache.Time.Zone

/-!
# Daily firings

Something due every day at a local time of day, a little later by a jitter that stays the same.
`nextFiring?` gives the first firing after a given moment. It looks at three local dates from
today's, since a time of day may be missing from one of them; should all three miss it, the firing
comes a day after the given moment.
-/

namespace SensorCache.Time

/-- A local time of day; its nanosecond is past the thousand millionth in a leap second. -/
structure TimeOfDay where
  second : Nat
  nano : Nat
  deriving DecidableEq, Inhabited

/-- Longer delays than this count as none. -/
def greatestJitter : Span := ⟨9223372036854775807000000⟩

/-- A delay as it is added to a firing. -/
def usableJitter (j : Span) : Span := if greatestJitter < j then ⟨0⟩ else j

namespace Daily

/-- What looking at one date can come to. -/
inductive Candidate where
  | due (firing : Moment)
  | tooEarly
  | outOfRange

/-- The firing of local date `day`, judged against `now`. -/
def candidate (z : Zone) (now : Moment) (t : TimeOfDay) (jitter : Span) (day : Int) : Candidate :=
  match z.earliest? ⟨day, t.second, t.nano⟩ with
  | none => .tooEarly
  | some m =>
    if !m.inRange then .tooEarly
    else
      match m.add? jitter with
      | none => .outOfRange
      | some m => if now.lt m then .due m else .tooEarly

/-- The first firing due among `n` local dates from `day` on, or else a day after `now`. -/
def search (z : Zone) (now : Moment) (t : TimeOfDay) (jitter : Span) : Nat → Int → Option Moment
  | 0, _ => now.add? (Span.ofSeconds secondsPerDay)
  | n + 1, day =>
    if !dayInRange day then now.add? (Span.ofSeconds secondsPerDay)
    else
      match candidate z now t jitter day with
      | .due m => some m
      | .outOfRange => none
      | .tooEarly => search z now t jitter n (day + 1)

end Daily

/-- The first firing strictly after `now`, as a UTC moment; none where it cannot be named. -/
def nextFiring? (z : Zone) (now : Moment) (t : TimeOfDay) (jitter : Span) : Option Moment :=
  let today := (z.localOf now).day
  if !dayInRange today then none else Daily.search z now t (usableJitter jitter) 3 today

end SensorCache.Time
