/-!
# The characters of a YAML text

A text is read as a list of cells: its characters with their places. A line break is one cell, be it
one character or two, and all breaks that YAML does not tell apart are a line feed there. A byte
order mark before the text is dropped.
-/

namespace SensorCache.Yaml

structure Cell where
  char : Char
  line : Nat
  column : Nat
  /-- How many characters come before it. -/
  index : Nat
  deriving DecidableEq, Inhabited

/-- The characters that a text may have. -/
def allowed (c : Char) : Bool :=
  let n := c.toNat
  n == 0x09 || n == 0x0A || n == 0x0D || (0x20 ≤ n && n ≤ 0x7E) || n == 0x85 ||
    (0xA0 ≤ n && n ≤ 0xD7FF) || (0xE000 ≤ n && n ≤ 0xFFFD) || 0x10000 ≤ n

def byteOrderMark : Char := '\ufeff'

/-- How the break that a character makes is kept, if it makes one. -/
def breakOf? (c : Char) : Option Char :=
  let n := c.toNat
  if n == 0x0A || n == 0x0D || n == 0x85 then some '\n'
  else if n == 0x2028 || n == 0x2029 then some c
  else none

def isBreak (c : Char) : Bool := c == '\n' || c == '\u2028' || c == '\u2029'

def isBlank (c : Char) : Bool := c == ' ' || c == '\t'

/-- The cells of a text that goes on at a place; none if it has a character that is not allowed. -/
def cellsFrom (line column index : Nat) : List Char → Option (List Cell)
  | [] => some []
  | '\r' :: '\n' :: r => do
    return ⟨'\n', line, column, index⟩ :: (← cellsFrom (line + 1) 0 (index + 2) r)
  | c :: r =>
    if !allowed c then none
    else
      match breakOf? c with
      | some b => do return ⟨b, line, column, index⟩ :: (← cellsFrom (line + 1) 0 (index + 1) r)
      | none => do return ⟨c, line, column, index⟩ :: (← cellsFrom line (column + 1) (index + 1) r)

/-- The cells of a text. -/
def cells? : List Char → Option (List Cell)
  | [] => some []
  | c :: r => if c == byteOrderMark then cellsFrom 0 0 0 r else cellsFrom 0 0 0 (c :: r)

/-- Whether a word ends before these cells: at a blank, a break or the end of the text. -/
def wordEnds : List Cell → Bool
  | [] => true
  | c :: _ => isBlank c.char || isBreak c.char

/-- Whether three equal characters that mark the start or the end of a document stand here. -/
def atMark (mark : Char) : List Cell → Bool
  | a :: b :: c :: r =>
    a.column == 0 && a.char == mark && b.char == mark && c.char == mark && wordEnds r
  | _ => false

def atDocumentMark (s : List Cell) : Bool := atMark '-' s || atMark '.' s

end SensorCache.Yaml
