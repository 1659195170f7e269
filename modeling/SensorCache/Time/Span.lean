/-!
# Spans of time

A span is a length of time in whole nanoseconds. `Span.text` writes it in the largest of seconds,
milliseconds, microseconds and nanoseconds of which it has at least one, with as many decimals as it
takes.
-/

namespace SensorCache.Time

structure Span where
  nanos : Nat
  deriving DecidableEq, Inhabited

namespace Span

def ofSeconds (s : Nat) : Span := ⟨s * 1000000000⟩

def ofMillis (ms : Nat) : Span := ⟨ms * 1000000⟩

/-- Whole seconds. -/
def seconds (d : Span) : Nat := d.nanos / 1000000000

/-- Nanoseconds beyond the whole seconds. -/
def subNanos (d : Span) : Nat := d.nanos % 1000000000

/-- No time at all. -/
def zero : Span := ⟨0⟩

instance : Add Span := ⟨fun a b => ⟨a.nanos + b.nanos⟩⟩

instance : LT Span := ⟨fun a b => a.nanos < b.nanos⟩

instance : LE Span := ⟨fun a b => a.nanos ≤ b.nanos⟩

instance (a b : Span) : Decidable (a < b) := inferInstanceAs (Decidable (a.nanos < b.nanos))

instance (a b : Span) : Decidable (a ≤ b) := inferInstanceAs (Decidable (a.nanos ≤ b.nanos))

/-- The digits of a fraction of `10 ^ places`, without trailing zeros. -/
def decimals (places part : Nat) : String :=
  let digits := (Nat.toDigits 10 (Nat.pow 10 places + part)).drop 1
  let kept := (digits.reverse.dropWhile (· = '0')).reverse
  if kept.isEmpty then "" else "." ++ String.ofList kept

def text (d : Span) : String :=
  if 1000000000 ≤ d.nanos then toString d.seconds ++ decimals 9 d.subNanos ++ "s"
  else if 1000000 ≤ d.nanos then
    toString (d.nanos / 1000000) ++ decimals 6 (d.nanos % 1000000) ++ "ms"
  else if 1000 ≤ d.nanos then toString (d.nanos / 1000) ++ decimals 3 (d.nanos % 1000) ++ "µs"
  else toString d.nanos ++ "ns"

end Span

end SensorCache.Time
