import SensorCache.Text.Hex
import SensorCache.Yaml.Cell

/-!
# Scalars of YAML

The three ways to write a scalar. Plain and quoted scalars are words with gaps between them: a gap
within a line stays as it is, one line break becomes a space, and of several the first is dropped. A
block scalar has lines of its own with an indentation that is not part of it; it is literal, or
folded like the others but for lines that begin with a blank.

Each reader takes its scalar off the front of the cells.
-/

namespace SensorCache.Yaml

/-- How a scalar is written. -/
inductive Style where
  | plain
  | quoted
  | literal
  | folded
  deriving DecidableEq, Inhabited

/-! ## Gaps -/

/-- What stands between two words: blanks, or, in a broken gap, line breaks. The first break is
missing where it was escaped. -/
structure Gap where
  blanks : List Char
  broken : Bool
  first : Option Char
  more : List Char
  deriving DecidableEq, Inhabited

namespace Gap

def empty : Gap := ⟨[], false, none, []⟩

def isEmpty (g : Gap) : Bool := g.blanks.isEmpty && !g.broken

/-- After an escaped line break. -/
def escaped : Gap := ⟨[], true, none, []⟩

def blank (g : Gap) (c : Char) : Gap := if g.broken then g else { g with blanks := g.blanks ++ [c] }

def lineBreak (g : Gap) (c : Char) : Gap :=
  if g.broken then { g with more := g.more ++ [c] } else ⟨[], true, some c, []⟩

/-- What is left of a gap in the scalar. -/
def folded (g : Gap) : List Char :=
  if g.broken then
    match g.first with
    | some '\n' => if g.more.isEmpty then [' '] else g.more
    | first => first.toList ++ g.more
  else g.blanks

end Gap

/-! ## Plain scalars -/

def isFlowIndicator (c : Char) : Bool :=
  c == ',' || c == '[' || c == ']' || c == '\x7b' || c == '\x7d'

/-- A colon right before one of these is refused inside brackets. -/
def refusesColon : List Cell → Bool
  | c :: _ => isFlowIndicator c.char || c.char == '?'
  | [] => false

/-- Whether a plain scalar ends before the cell `c`. -/
def plainEnds (flow : Bool) (indent : Int) (gap : Gap) (c : Cell) (r : List Cell) : Bool :=
  (!gap.isEmpty && ((!flow && (c.column : Int) < indent) || c.char == '#')) ||
    atDocumentMark (c :: r) || (c.char == ':' && wordEnds r) || (flow && isFlowIndicator c.char)

/-- Goes on with a plain scalar, whose text so far is given last character first: its text, and
whether it ended after a line break. -/
def plainFrom (flow : Bool) (indent : Int) (text : List Char) (gap : Gap) :
    List Cell → Option (List Char × Bool × List Cell)
  | [] => some (text.reverse, gap.broken, [])
  | c :: r =>
    if isBlank c.char then
      if gap.broken && (c.column : Int) < indent && c.char == '\t' then none
      else plainFrom flow indent text (gap.blank c.char) r
    else if isBreak c.char then plainFrom flow indent text (gap.lineBreak c.char) r
    else if flow && c.char == ':' && refusesColon r then none
    else if plainEnds flow indent gap c r then some (text.reverse, gap.broken, c :: r)
    else plainFrom flow indent (c.char :: (gap.folded.reverse ++ text)) .empty r

/-- A plain scalar; in a block its further lines are indented by `indent` at least. -/
def plain (flow : Bool) (indent : Int) (s : List Cell) : Option (List Char × Bool × List Cell) :=
  plainFrom flow indent [] .empty s

/-! ## Quoted scalars -/

/-- The character of a short escape. -/
def shortEscape? (c : Char) : Option Char :=
  match c with
  | '0' => some (Char.ofNat 0)
  | 'a' => some (Char.ofNat 7)
  | 'b' => some (Char.ofNat 8)
  | 't' | '\t' => some '\t'
  | 'n' => some '\n'
  | 'v' => some (Char.ofNat 11)
  | 'f' => some (Char.ofNat 12)
  | 'r' => some '\r'
  | 'e' => some (Char.ofNat 27)
  | ' ' | '"' | '/' | '\\' => some c
  | 'N' => some (Char.ofNat 0x85)
  | '_' => some (Char.ofNat 0xA0)
  | 'L' => some '\u2028'
  | 'P' => some '\u2029'
  | _ => none

/-- How many digits follow a letter that begins a long escape. -/
def escapeDigits? (c : Char) : Option Nat :=
  match c with
  | 'x' => some 2
  | 'u' => some 4
  | 'U' => some 8
  | _ => none

/-- The number of hexadecimal digits. -/
def hexNumber? (digits : List Char) : Option Nat :=
  digits.foldlM (fun n c => (Text.hexValue? c).map (16 * n + ·)) 0

/-- The character of a long escape with `n` digits. -/
def longEscape? (n : Nat) (s : List Cell) : Option Char :=
  let digits := (s.take n).map Cell.char
  match if digits.length = n then hexNumber? digits else none with
  | some v => if v.isValidChar then some (Char.ofNat v) else none
  | none => none

/-- Goes on with a scalar between double quotes, up to the closing one. -/
def doubleQuotedFrom (text : List Char) (gap : Gap) : List Cell → Option (List Char × List Cell)
  | [] => none
  | c :: r =>
    let joined := gap.folded.reverse ++ text
    if isBlank c.char then doubleQuotedFrom text (gap.blank c.char) r
    else if isBreak c.char then doubleQuotedFrom text (gap.lineBreak c.char) r
    else if atDocumentMark (c :: r) then none
    else if c.char == '"' then some (joined.reverse, r)
    else if c.char == '\\' then
      match r with
      | [] => none
      | e :: r =>
        if isBreak e.char then doubleQuotedFrom joined .escaped r
        else
          match escapeDigits? e.char with
          | some n =>
            match longEscape? n r with
            | some d => doubleQuotedFrom (d :: joined) .empty (r.drop n)
            | none => none
          | none =>
            match shortEscape? e.char with
            | some d => doubleQuotedFrom (d :: joined) .empty r
            | none => none
    else doubleQuotedFrom (c.char :: joined) .empty r
termination_by s => s.length
decreasing_by all_goals simp +arith

/-- Goes on with a scalar between single quotes; such a quote is written twice in it. -/
def singleQuotedFrom (text : List Char) (gap : Gap) : List Cell → Option (List Char × List Cell)
  | [] => none
  | c :: r =>
    let joined := gap.folded.reverse ++ text
    if isBlank c.char then singleQuotedFrom text (gap.blank c.char) r
    else if isBreak c.char then singleQuotedFrom text (gap.lineBreak c.char) r
    else if atDocumentMark (c :: r) then none
    else if c.char == '\'' then
      match r with
      | [] => some (joined.reverse, [])
      | d :: r =>
        if d.char == '\'' then singleQuotedFrom ('\'' :: joined) .empty r
        else some (joined.reverse, d :: r)
    else singleQuotedFrom (c.char :: joined) .empty r

/-- A quoted scalar after its opening quote. -/
def quoted (mark : Char) (s : List Cell) : Option (List Char × List Cell) :=
  if mark == '"' then doubleQuotedFrom [] .empty s else singleQuotedFrom [] .empty s

/-! ## Block scalars -/

/-- What becomes of the line breaks at the end of a block scalar. -/
inductive Chomp where
  | strip
  | clip
  | keep
  deriving DecidableEq, Inhabited

def chompOf? (c : Char) : Option Chomp :=
  if c == '-' then some .strip else if c == '+' then some .keep else none

/-- The chomping sign and the indentation after the mark of a block scalar, in either order. -/
def blockSigns (s : List Cell) : Option (Chomp × Option Nat × List Cell) :=
  match s with
  | [] => some (.clip, none, [])
  | c :: r =>
    match chompOf? c.char with
    | some k =>
      match r with
      | d :: t =>
        if d.char.isDigit then if d.char == '0' then none else some (k, Text.hexValue? d.char, t)
        else some (k, none, r)
      | [] => some (k, none, [])
    | none =>
      if c.char.isDigit then
        if c.char == '0' then none
        else
          match r with
          | d :: t =>
            match chompOf? d.char with
            | some k => some (k, Text.hexValue? c.char, t)
            | none => some (.clip, Text.hexValue? c.char, r)
          | [] => some (.clip, Text.hexValue? c.char, [])
      else some (.clip, none, s)

/-- Takes the rest of a line that may hold only a comment. -/
def restOfLine (s : List Cell) : Option (List Cell) :=
  match s.dropWhile fun c => isBlank c.char with
  | [] => some []
  | c :: r =>
    if c.char == '#' then some ((r.dropWhile fun c => !isBreak c.char).drop 1)
    else if isBreak c.char then some r
    else none

/-- A block scalar that is being read. -/
structure Block where
  literal : Bool
  /-- The indentation of its lines, zero while it is not known. -/
  indent : Nat
  /-- The least indentation that its lines may have. -/
  least : Nat
  /-- The widest indentation so far. -/
  widest : Nat
  /-- The text so far, last character first. -/
  text : List Char
  /-- The break of the last line. -/
  lineBreak : Option Char
  /-- The breaks of the empty lines after it. -/
  more : List Char
  /-- The last line began with a blank. -/
  afterBlank : Bool
  /-- A line has begun. -/
  inLine : Bool
  deriving Inhabited

namespace Block

/-- What stands between the last line and one that begins with `c`. -/
def between (b : Block) (c : Char) : List Char :=
  if !b.literal && b.lineBreak == some '\n' && !b.afterBlank && !isBlank c then
    if b.more.isEmpty then [' '] else b.more
  else b.lineBreak.toList ++ b.more

/-- Begins a line with the character `c`. -/
def beginLine (b : Block) (c : Char) : Block :=
  { b with
    text := c :: ((b.between c).reverse ++ b.text)
    lineBreak := none
    more := []
    afterBlank := isBlank c
    inLine := true }

/-- The indentation, once a line with more than blanks begins at `column`. -/
def settled (b : Block) (column : Nat) : Nat :=
  if b.indent = 0 then max (max b.widest column) b.least else b.indent

/-- Whether a blank at `column` is part of the indentation. -/
def indents (b : Block) (column : Nat) : Bool := b.indent = 0 || column < b.indent

/-- Reads lines up to the first that is indented less. -/
def read (b : Block) : List Cell → Option (Block × List Cell)
  | [] => some (b, [])
  | c :: r =>
    if b.inLine then
      if isBreak c.char then read { b with lineBreak := some c.char, inLine := false } r
      else read { b with text := c.char :: b.text } r
    else if b.indents c.column && c.char == ' ' then read b r
    else if b.indents c.column && c.char == '\t' then none
    else if isBreak c.char then
      read { b with more := b.more ++ [c.char], widest := max b.widest c.column } r
    else
      let indent := b.settled c.column
      if c.column = indent then read ({ b with indent := indent }.beginLine c.char) r
      else some (b, c :: r)

/-- The text with what is left of the breaks at its end. -/
def chomped (b : Block) (k : Chomp) : List Char :=
  b.text.reverse ++
    match k with
    | .strip => []
    | .clip => b.lineBreak.toList
    | .keep => b.lineBreak.toList ++ b.more

end Block

/-- A block scalar after its mark, in a block that is indented by `indent`. -/
def block (literal : Bool) (indent : Int) (s : List Cell) : Option (List Char × List Cell) := do
  let (chomp, increment, s) ← blockSigns s
  let s ← restOfLine s
  let least := max (indent + 1).toNat 1
  let known := match increment with
    | some n => (max indent 0).toNat + n
    | none => 0
  let (b, s) ← Block.read ⟨literal, known, least, 0, [], none, [], false, false⟩ s
  return (b.chomped chomp, s)

end SensorCache.Yaml
