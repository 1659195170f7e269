/-!
# Lines of a text

A line ends at a line feed, or at the end of the text; a carriage return right before its line
feed belongs to the ending. The piece after the last line feed is a line only if it is not empty,
so a text ended by a line feed has as many lines as line feeds.

`lines` works on characters and `byteLines` on bytes, for files that may not hold text.
-/

namespace SensorCache.Text

/-- Takes the carriage return of an ending off a line that a line feed closed. -/
def dropReturn {α : Type} [BEq α] (cr : α) (line : List α) : List α :=
  match line.reverse with
  | c :: r => if c == cr then r.reverse else line
  | [] => []

/-- The lines of `s`, after the characters `pending` of the line already begun, last first. -/
def linesFrom {α : Type} [BEq α] (lf cr : α) : List α → List α → List (List α)
  | pending, [] => if pending.isEmpty then [] else [pending.reverse]
  | pending, c :: r =>
    if c == lf then dropReturn cr pending.reverse :: linesFrom lf cr [] r
    else linesFrom lf cr (c :: pending) r

def lines (s : List Char) : List (List Char) := linesFrom '\n' '\r' [] s

def byteLines (s : List UInt8) : List (List UInt8) := linesFrom 10 13 [] s

/-- Each line followed by its line feed. -/
def unlines : List (List Char) → List Char
  | [] => []
  | l :: r => l ++ '\n' :: unlines r

theorem unlines_append (a b : List (List Char)) : unlines (a ++ b) = unlines a ++ unlines b := by
  induction a with
  | nil => rfl
  | cons l r ih => simp [unlines, ih]

/-- The text before and after the first character that satisfies `p`, which is left out. -/
def splitFirst? (p : Char → Bool) : List Char → Option (List Char × List Char)
  | [] => none
  | c :: r => if p c then some ([], r) else (splitFirst? p r).map fun (a, b) => (c :: a, b)

theorem splitFirst?_append {p : Char → Bool} {a : List Char} (h : ∀ c ∈ a, p c = false) (s : Char)
    (hs : p s = true) (b : List Char) : splitFirst? p (a ++ s :: b) = some (a, b) := by
  induction a with
  | nil => simp [splitFirst?, hs]
  | cons c r ih =>
    have hc : p c = false := h c (by simp)
    have hr := ih fun x hx => h x (by simp [hx])
    simp [splitFirst?, hc, hr]

end SensorCache.Text
