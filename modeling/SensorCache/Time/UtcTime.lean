import SensorCache.Time.Moment
import SensorCache.Text.Blank

/-!
# UTC times and their text

A time is written as `2024-06-30T12:00:00Z`, with three, six or nine digits of a second where they
are needed, the year with its sign outside 0 to 9999, and second 60 for a leap second.

Times are read more freely: fields need no padding, blanks may stand before every number and mark,
`T`, `t` or a blank parts date and time, digits past the ninth of a second are dropped, and the
offset is `Z`, `UTC`, or hours and minutes up to a day. Each reader takes its part off the front of
the text and gives what is left.
-/

namespace SensorCache.Time

open SensorCache.Text

/-- A time that can be named. -/
abbrev UtcTime := { m : Moment // m.valid = true }

/-! ## Writing -/

/-- The last `n` decimal digits of a number. -/
def fixedDigits : Nat → Nat → List Char
  | 0, _ => []
  | n + 1, v => fixedDigits n (v / 10) ++ [Char.ofNat (v % 10 + 48)]

/-- The digits of `n`, at least four. -/
def atLeastFour (n : Nat) : List Char := if n < 10000 then fixedDigits 4 n else Nat.toDigits 10 n

def yearText (y : Int) : List Char :=
  if 0 ≤ y && y ≤ 9999 then fixedDigits 4 y.toNat
  else (if y < 0 then '-' else '+') :: atLeastFour y.natAbs

/-- The fraction of a second in as few of three, six or nine digits as are exact. -/
def fractionText (nano : Nat) : List Char :=
  if nano == 0 then []
  else if nano % 1000000 == 0 then '.' :: fixedDigits 3 (nano / 1000000)
  else if nano % 1000 == 0 then '.' :: fixedDigits 6 (nano / 1000)
  else '.' :: fixedDigits 9 nano

def Moment.dateText (m : Moment) : List Char :=
  let d := Date.ofDays m.day
  yearText d.year ++ '-' :: fixedDigits 2 d.month ++ '-' :: fixedDigits 2 d.day

def Moment.clockText (m : Moment) : List Char :=
  let leap := nanosPerSecond ≤ m.nano
  fixedDigits 2 (m.second / 3600) ++ ':' :: fixedDigits 2 (m.second / 60 % 60) ++
    ':' :: fixedDigits 2 (m.second % 60 + if leap then 1 else 0) ++
    fractionText (if leap then m.nano - nanosPerSecond else m.nano)

def UtcTime.text (t : UtcTime) : List Char := t.1.dateText ++ 'T' :: t.1.clockText ++ ['Z']

/-! ## Reading -/

def digitsValue (s : List Char) : Nat := s.foldl (fun n c => 10 * n + (c.toNat - 48)) 0

/-- The number in the first digits of the text, one to `most` of them. -/
def readNumber (most : Nat) (s : List Char) : Option (Nat × List Char) :=
  let digits := (s.take most).takeWhile Char.isDigit
  if digits.isEmpty then none else some (digitsValue digits, s.drop digits.length)

/-- A number of one or two digits, blanks allowed before it. -/
def readField (s : List Char) : Option (Nat × List Char) := readNumber 2 (trimStart s)

/-- A given mark, blanks allowed before it. -/
def readMark (c : Char) (s : List Char) : Option (List Char) :=
  match trimStart s with
  | d :: r => if d = c then some r else none
  | [] => none

/-- A year of up to four digits, or of any number of them after a sign. -/
def readYear (s : List Char) : Option (Int × List Char) :=
  match trimStart s with
  | '-' :: r => (readNumber r.length r).map fun (n, rest) => (-(n : Int), rest)
  | '+' :: r => (readNumber r.length r).map fun (n, rest) => ((n : Int), rest)
  | s => (readNumber 4 s).map fun (n, rest) => ((n : Int), rest)

def readDate (s : List Char) : Option (Date × List Char) := do
  let (year, s) ← readYear s
  let s ← readMark '-' s
  let (month, s) ← readField s
  let s ← readMark '-' s
  let (day, s) ← readField s
  let d : Date := ⟨year, month, day⟩
  if d.valid && dayInRange d.toDays then return (d, s) else none

/-- The fraction after a second, in nanoseconds; digits past the ninth are dropped. -/
def readFraction (s : List Char) : Option (Nat × List Char) :=
  match s with
  | '.' :: r =>
    let digits := r.takeWhile Char.isDigit
    if digits.isEmpty then none
    else
      let kept := digits.take 9
      some (digitsValue kept * Nat.pow 10 (9 - kept.length), r.drop digits.length)
  | s => some (0, s)

/-- A time of day as second and nanosecond; second 60 is a leap second. -/
def readClock (s : List Char) : Option ((Nat × Nat) × List Char) := do
  let (hour, s) ← readField s
  let s ← readMark ':' s
  let (minute, s) ← readField s
  let s ← readMark ':' s
  let (second, s) ← readField s
  let (nano, s) ← readFraction s
  if 23 < hour || 59 < minute || 60 < second then none
  else if second == 60 then
    return ((hour * 3600 + minute * 60 + 59, nano + nanosPerSecond), s)
  else return ((hour * 3600 + minute * 60 + second, nano), s)

/-- Two digits as a number. -/
def readPair (s : List Char) : Option (Nat × List Char) :=
  match s with
  | a :: b :: r =>
    if a.isDigit && b.isDigit then some (digitsValue [a, b], r) else none
  | _ => none

/-- Hours and minutes of an offset, in seconds; colons and blanks may part them. -/
def readOffsetClock (s : List Char) : Option (Nat × List Char) := do
  let (hours, s) ← readPair s
  let (minutes, s) ← readPair (s.dropWhile fun c => c = ':' || isBlank c)
  if 59 < minutes || 23 < hours then none else return (hours * 3600 + minutes * 60, s)

/-- An offset from UTC in seconds, blanks allowed before it. -/
def readOffset (s : List Char) : Option (Int × List Char) :=
  let s := trimStart s
  if (s.take 3).map Char.toUpper = ['U', 'T', 'C'] then some (0, s.drop 3)
  else
    match s with
    | [] => none
    | c :: r =>
      if c = 'Z' || c = 'z' then some (0, r)
      else if c = '+' then (readOffsetClock r).map fun (n, rest) => ((n : Int), rest)
      else if c = '-' || c = '\u2212' then
        (readOffsetClock r).map fun (n, rest) => (-(n : Int), rest)
      else none

/-- The time a text names, brought to UTC. -/
def UtcTime.parse? (s : List Char) : Option UtcTime := do
  let (date, s) ← readDate s
  let s ← match s with
    | c :: r => if c = 'T' || c = 't' || c = ' ' then some r else none
    | [] => none
  let ((second, nano), s) ← readClock s
  let (offset, s) ← readOffset s
  if !allBlank s then none
  else
    let m := Moment.addOffset ⟨date.toDays, second, nano⟩ (-offset)
    if h : m.valid = true then return ⟨m, h⟩ else none

end SensorCache.Time
