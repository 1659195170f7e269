import SensorCache.Text.Blank
import SensorCache.Time.Daily

/-!
# Times of day as text

Hours and minutes, or hours, minutes and seconds, between colons and with two digits each at most.
Blanks around the text and before a number are ignored. A second 60 is the leap second after
second 59.
-/

namespace SensorCache.Time

open Text

/-- Takes a number of one or two digits off, after blanks. -/
def clockNumber? (s : List Char) : Option (Nat × List Char) :=
  match trimStart s with
  | a :: r =>
    if !a.isDigit then none
    else
      match r with
      | b :: t =>
        if b.isDigit then some (10 * (a.toNat - 48) + (b.toNat - 48), t) else some (a.toNat - 48, r)
      | [] => some (a.toNat - 48, [])
  | [] => none

/-- The numbers of a text, which colons divide; there is one at least, and `n` more at most. -/
def clockNumbers? : Nat → List Char → Option (List Nat)
  | 0, s => do
    let (v, r) ← clockNumber? s
    if r.isEmpty then some [v] else none
  | n + 1, s => do
    let (v, r) ← clockNumber? s
    match r with
    | [] => some [v]
    | c :: r => if c == ':' then (v :: ·) <$> clockNumbers? n r else none

/-- The time with the given numbers, if there is one. -/
def TimeOfDay.ofNumbers? (h m s : Nat) : Option TimeOfDay :=
  if 24 ≤ h || 60 ≤ m || 61 ≤ s then none
  else if s = 60 then some ⟨3600 * h + 60 * m + 59, nanosPerSecond⟩
  else some ⟨3600 * h + 60 * m + s, 0⟩

/-- The time of day that a text names. -/
def TimeOfDay.parse? (s : List Char) : Option TimeOfDay := do
  match ← clockNumbers? 2 (trim s) with
  | [h, m] => TimeOfDay.ofNumbers? h m 0
  | [h, m, s] => TimeOfDay.ofNumbers? h m s
  | _ => none

end SensorCache.Time
