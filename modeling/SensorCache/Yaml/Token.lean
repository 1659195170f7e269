import SensorCache.Yaml.Scalar

/-!
# Tokens of YAML

The tokens of a text in its order, with the starts and ends of blocks that its indentation stands
for. Whether something is the key of a block is known only at the colon behind it, so the lexer
remembers where a key may have begun, and puts the tokens before it in later.

A text has no tokens if it breaks a rule of the lexer: a tab in an indentation, a key of several
lines, a scalar that is not closed and the like.
-/

namespace SensorCache.Yaml

inductive Token where
  | version (major minor : Nat)
  /-- What tags that begin with the handle stand for. -/
  | tagHandle (handle start : List Char)
  | documentStart
  | documentEnd
  | blockSequence
  | blockMapping
  | blockEnd
  | flowSequence
  | flowSequenceEnd
  | flowMapping
  | flowMappingEnd
  | entry
  | comma
  | key
  | value
  | alias (name : List Char)
  | anchor (name : List Char)
  | tag (handle suffix : List Char)
  | scalar (style : Style) (text : List Char)
  deriving DecidableEq, Inhabited

/-! ## Names, tags and directives -/

/-- The characters of names of anchors and handles. -/
def isNameChar (c : Char) : Bool := c.isAlphanum || c == '_' || c == '-'

/-- The longest run of characters that satisfy `p`, and what follows it. -/
def spanCells (p : Char → Bool) (s : List Cell) : List Char × List Cell :=
  ((s.takeWhile fun c => p c.char).map Cell.char, s.dropWhile fun c => p c.char)

/-- What may follow the name of an anchor. -/
def endsName (s : List Cell) : Bool :=
  wordEnds s || (s.head?.any fun c =>
    c.char == '?' || c.char == ':' || c.char == ',' || c.char == ']' || c.char == '\x7d' ||
      c.char == '%' || c.char == '@' || c.char.toNat == 0x60)

/-- The name of an anchor or alias. -/
def anchorName (s : List Cell) : Option (List Char × List Cell) :=
  let (name, r) := spanCells isNameChar s
  if name.isEmpty || !endsName r then none else some (name, r)

/-- The characters of a tag that stand for themselves. -/
def isTagChar (verbatim : Bool) (c : Char) : Bool :=
  isNameChar c || ";/?:@&=+$.!~*'()".toList.contains c ||
    (verbatim && (c == ',' || c == '[' || c == ']'))

/-- How many bytes a character of a tag has that begins with the byte `b`. -/
def escapeWidth? (b : Nat) : Option Nat :=
  if b < 0x80 then some 1
  else if 0xC0 ≤ b && b < 0xE0 then some 2
  else if 0xE0 ≤ b && b < 0xF0 then some 3
  else if 0xF0 ≤ b && b < 0xF8 then some 4
  else none

/-- Takes a byte that is written with a percent sign off. -/
def percentByte? : List Cell → Option (Nat × List Cell)
  | p :: a :: b :: r => do
    if p.char != '%' then none
    return (16 * (← Text.hexValue? a.char) + (← Text.hexValue? b.char), r)
  | _ => none

/-- Takes `n` more bytes of a character off. -/
def percentTail? : Nat → List Cell → Option (List Char × List Cell)
  | 0, s => some ([], s)
  | n + 1, s => do
    let (b, s) ← percentByte? s
    if b < 0x80 || 0xC0 ≤ b then none
    let (more, s) ← percentTail? n s
    return (Char.ofNat b :: more, s)

/-- The characters of a tag, with the bytes of escaped ones, in `n` turns at most. -/
def tagText (verbatim : Bool) : Nat → List Cell → Option (List Char × List Cell)
  | 0, s => some ([], s)
  | n + 1, s =>
    match s with
    | [] => some ([], [])
    | c :: r =>
      if c.char == '%' then do
        let (b, s) ← percentByte? s
        let (tail, s) ← percentTail? ((← escapeWidth? b) - 1) s
        let (more, s) ← tagText verbatim n s
        return (Char.ofNat b :: tail ++ more, s)
      else if isTagChar verbatim c.char then do
        let (more, s) ← tagText verbatim n r
        return (c.char :: more, s)
      else some ([], s)

def tagChars (verbatim : Bool) (s : List Cell) : Option (List Char × List Cell) :=
  tagText verbatim (s.length + 1) s

/-- A handle: an exclamation mark, or a name between two. The second may be missing. -/
def tagHandle : List Cell → Option (List Char × List Cell)
  | c :: r =>
    if c.char != '!' then none
    else
      let (name, r) := spanCells isNameChar r
      match r with
      | d :: t => if d.char == '!' then some ('!' :: name ++ ['!'], t) else some ('!' :: name, r)
      | [] => some ('!' :: name, [])
  | [] => none

/-- Whether a handle is closed by a mark of its own. -/
def isClosedHandle (h : List Char) : Bool := 1 < h.length && h.getLast? == some '!'

/-- The handle and the suffix of a tag. The tag of one exclamation mark has no handle. -/
def tagParts (s : List Cell) : Option (Token × List Cell) :=
  match s with
  | _ :: o :: r =>
    if o.char == '<' then do
      let (suffix, r) ← tagChars true r
      match r with
      | c :: r => if c.char == '>' && !suffix.isEmpty then some (.tag [] suffix, r) else none
      | [] => none
    else short
  | _ => short
where
  short : Option (Token × List Cell) := do
    let (handle, r) ← tagHandle s
    let (suffix, r) ← tagChars false r
    if isClosedHandle handle then
      if suffix.isEmpty then none else some (.tag handle suffix, r)
    else if handle.length = 1 && suffix.isEmpty then some (.tag [] ['!'], r)
    else some (.tag ['!'] (handle.drop 1 ++ suffix), r)

/-- A tag, with what has to follow it. -/
def tag (flow : Bool) (s : List Cell) : Option (Token × List Cell) := do
  let (t, r) ← tagParts s
  if wordEnds r || (flow && r.head?.any fun c => c.char == ',') then some (t, r) else none

/-- A number of a version, which has at most nine digits. -/
def versionNumber (s : List Cell) : Option (Nat × List Cell) :=
  let (digits, r) := spanCells Char.isDigit s
  if digits.isEmpty || 9 < digits.length then none
  else some (digits.foldl (fun n c => 10 * n + (c.toNat - 48)) 0, r)

def skipBlanks (s : List Cell) : List Cell := s.dropWhile fun c => isBlank c.char

/-- A directive after its percent sign, with the rest of its line. -/
def directive (s : List Cell) : Option (Token × List Cell) := do
  let (name, r) := spanCells isNameChar s
  if name.isEmpty || !wordEnds r then none
  let (t, r) ← content (String.ofList name) (skipBlanks r)
  return (t, ← restOfLine r)
where
  content (name : String) (r : List Cell) : Option (Token × List Cell) :=
    if name == "YAML" then do
      let (major, r) ← versionNumber r
      if !r.head?.any fun c => c.char == '.' then none
      let (minor, r) ← versionNumber (r.drop 1)
      return (.version major minor, r)
    else if name == "TAG" then do
      let (handle, r) ← tagHandle r
      if !isClosedHandle handle && handle.length != 1 then none
      if !r.head?.any fun c => isBlank c.char then none
      let (start, r) ← tagChars true (skipBlanks r)
      if start.isEmpty || !wordEnds r then none
      return (.tagHandle handle start, r)
    else none

/-! ## The lexer -/

/-- Where a key may have begun. -/
structure KeyStart where
  /-- Nothing but a key can stand there. -/
  required : Bool
  /-- How many tokens come before it. -/
  tokens : Nat
  cell : Cell
  deriving DecidableEq, Inhabited

structure Lexer where
  rest : List Cell
  /-- The column of the innermost block, and those of the blocks around it. -/
  indent : Int
  indents : List Int
  /-- For each open bracket, and first for the text around all, where a key may have begun; the
  innermost comes first. -/
  keys : List (Option KeyStart)
  /-- A key may begin here. -/
  keyAllowed : Bool
  /-- The tokens so far, the last first. -/
  tokens : List Token
  deriving Inhabited

namespace Lexer

def new (s : List Cell) : Lexer := ⟨s, -1, [], [none], true, []⟩

/-- Whether the lexer is inside brackets. -/
def inFlow (x : Lexer) : Bool := 1 < x.keys.length

def emit (x : Lexer) (t : Token) : Lexer := { x with tokens := t :: x.tokens }

/-- Puts a token after the first `n`. -/
def emitAfter (x : Lexer) (n : Nat) (t : Token) : Lexer :=
  let later := x.tokens.length - n
  { x with tokens := x.tokens.take later ++ t :: x.tokens.drop later }

/-- Skips blanks, comments and line breaks. Tabs are blanks only where no key may begin, which is
again allowed in a block after a line break. -/
def skipIdle (flow : Bool) : Bool → Bool → List Cell → Bool × List Cell
  | allowed, _, [] => (allowed, [])
  | allowed, comment, c :: r =>
    if isBreak c.char then skipIdle flow (allowed || !flow) false r
    else if comment then skipIdle flow allowed true r
    else if c.column == 0 && c.char == byteOrderMark then skipIdle flow allowed false r
    else if c.char == ' ' || (c.char == '\t' && (flow || !allowed)) then
      skipIdle flow allowed false r
    else if c.char == '#' then skipIdle flow allowed true r
    else (allowed, c :: r)

/-- Whether a key that began at `k` cannot go on to `c`: it has one line of at most 1024
characters. -/
def isStale (k : KeyStart) (c : Cell) : Bool :=
  k.cell.line < c.line || k.cell.index + 1024 < c.index

/-- Forgets where keys began that cannot go on to `c`. -/
def dropStale (x : Lexer) (c : Cell) : Option Lexer := do
  let keys ← x.keys.mapM fun k =>
    match k with
    | some s => if isStale s c then if s.required then none else some none else some k
    | none => some none
  return { x with keys := keys }

/-- Forgets where the innermost key began. -/
def dropKey (x : Lexer) : Option Lexer :=
  match x.keys with
  | some s :: ks => if s.required then none else some { x with keys := none :: ks }
  | _ => some x

/-- Remembers that a key may begin with the next token, at `c`. -/
def saveKey (x : Lexer) (c : Cell) : Option Lexer :=
  if x.keyAllowed then do
    let x ← x.dropKey
    let start : KeyStart := ⟨!x.inFlow && x.indent == c.column, x.tokens.length, c⟩
    return { x with keys := some start :: x.keys.drop 1 }
  else some x

/-- Ends the blocks that are indented more than `column`, of which there are at most `n`. -/
def unrollTo (column : Int) : Nat → Lexer → Lexer
  | 0, x => x
  | n + 1, x =>
    if column < x.indent then
      unrollTo column n
        { x.emit .blockEnd with indent := x.indents.headD (-1), indents := x.indents.drop 1 }
    else x

def unroll (x : Lexer) (column : Int) : Lexer :=
  if x.inFlow then x else unrollTo column (x.indents.length + 1) x

/-- Begins a block at a column, if that is indented more; its token comes after the first `n`. -/
def roll (x : Lexer) (column : Nat) (n : Nat) (t : Token) : Lexer :=
  if x.inFlow || (column : Int) ≤ x.indent then x
  else { x.emitAfter n t with indent := column, indents := x.indent :: x.indents }

/-- Emits a token and goes on with `r`. -/
def take (x : Lexer) (t : Token) (r : List Cell) (allowed : Bool) : Lexer :=
  { x.emit t with rest := r, keyAllowed := allowed }

/-! ### Tokens by their first character -/

def documentMark (x : Lexer) (t : Token) (r : List Cell) : Option Lexer := do
  let x ← (x.unroll (-1)).dropKey
  return x.take t r false

def openBracket (x : Lexer) (t : Token) (c : Cell) (r : List Cell) : Option Lexer := do
  let x ← x.saveKey c
  return { x with keys := none :: x.keys }.take t r true

def closeBracket (x : Lexer) (t : Token) (r : List Cell) : Option Lexer := do
  let x ← x.dropKey
  return { x with keys := if x.inFlow then x.keys.drop 1 else x.keys }.take t r false

def comma (x : Lexer) (r : List Cell) : Option Lexer := do
  return (← x.dropKey).take .comma r true

/-- The mark of an entry of a block; inside brackets it is left to those who read the tokens. -/
def blockEntry (x : Lexer) (c : Cell) (r : List Cell) : Option Lexer := do
  if !x.inFlow && !x.keyAllowed then none
  let x := x.roll c.column x.tokens.length .blockSequence
  return (← x.dropKey).take .entry r true

/-- The mark of a key that may have several lines. -/
def explicitKey (x : Lexer) (c : Cell) (r : List Cell) : Option Lexer := do
  if !x.inFlow && !x.keyAllowed then none
  let x := x.roll c.column x.tokens.length .blockMapping
  return (← x.dropKey).take .key r (!x.inFlow)

/-- The colon between a key and its value. -/
def colon (x : Lexer) (c : Cell) (r : List Cell) : Option Lexer :=
  match x.keys with
  | some s :: ks =>
    let x := ({ x with keys := none :: ks }.emitAfter s.tokens .key)
    some ((x.roll s.cell.column s.tokens .blockMapping).take .value r false)
  | _ =>
    if !x.inFlow && !x.keyAllowed then none
    else some ((x.roll c.column x.tokens.length .blockMapping).take .value r (!x.inFlow))

def anchored (x : Lexer) (t : List Char → Token) (c : Cell) (r : List Cell) : Option Lexer := do
  let x ← x.saveKey c
  let (name, r) ← anchorName r
  return x.take (t name) r false

def tagged (x : Lexer) (c : Cell) (r : List Cell) : Option Lexer := do
  let x ← x.saveKey c
  let (t, r) ← tag x.inFlow (c :: r)
  return x.take t r false

def blockScalar (x : Lexer) (c : Cell) (r : List Cell) : Option Lexer := do
  let x ← x.dropKey
  let literal := c.char == '|'
  let (text, r) ← block literal x.indent r
  return x.take (.scalar (if literal then .literal else .folded) text) r true

def quotedScalar (x : Lexer) (c : Cell) (r : List Cell) : Option Lexer := do
  let x ← x.saveKey c
  let (text, r) ← quoted c.char r
  return x.take (.scalar .quoted text) r false

def plainScalar (x : Lexer) (c : Cell) (r : List Cell) : Option Lexer := do
  let x ← x.saveKey c
  let (text, broken, r) ← plain x.inFlow (x.indent + 1) (c :: r)
  return x.take (.scalar .plain text) r broken

/-- The characters with which no plain scalar begins, unless a word goes on after them. -/
def indicators : List Char := "-?:,[]\x7b\x7d#&*!|>'\"%@".toList ++ [Char.ofNat 0x60]

/-- Whether a plain scalar begins with `c`. -/
def beginsPlain (flow : Bool) (c : Cell) (r : List Cell) : Bool :=
  (!isBlank c.char && !indicators.contains c.char) ||
    (c.char == '-' && !r.head?.any fun d => isBlank d.char) ||
    (!flow && (c.char == '?' || c.char == ':') && !wordEnds r)

/-- The token that begins with `c`. -/
def token (x : Lexer) (c : Cell) (r : List Cell) : Option Lexer :=
  let flow := x.inFlow
  let alone := flow || wordEnds r
  if c.column == 0 && c.char == '%' then do
    let x ← (x.unroll (-1)).dropKey
    let (t, r) ← directive r
    return x.take t r false
  else if atMark '-' (c :: r) then x.documentMark .documentStart (r.drop 2)
  else if atMark '.' (c :: r) then x.documentMark .documentEnd (r.drop 2)
  else if c.char == '[' then x.openBracket .flowSequence c r
  else if c.char == '\x7b' then x.openBracket .flowMapping c r
  else if c.char == ']' then x.closeBracket .flowSequenceEnd r
  else if c.char == '\x7d' then x.closeBracket .flowMappingEnd r
  else if c.char == ',' then x.comma r
  else if c.char == '-' && wordEnds r then x.blockEntry c r
  else if c.char == '?' && alone then x.explicitKey c r
  else if c.char == ':' && alone then x.colon c r
  else if c.char == '*' then x.anchored .alias c r
  else if c.char == '&' then x.anchored .anchor c r
  else if c.char == '!' then x.tagged c r
  else if (c.char == '|' || c.char == '>') && !flow then x.blockScalar c r
  else if c.char == '\'' || c.char == '"' then x.quotedScalar c r
  else if beginsPlain flow c r then x.plainScalar c r
  else none

/-- Goes on to the end of the text, with at most `n` more tokens. -/
def run : Nat → Lexer → Option (List Token)
  | 0, _ => none
  | n + 1, x =>
    let (allowed, rest) := skipIdle x.inFlow x.keyAllowed false x.rest
    match rest with
    | [] => do
      let x ← (x.unroll (-1)).dropKey
      return x.tokens.reverse
    | c :: r => do
      let x ← { x with keyAllowed := allowed }.dropStale c
      run n (← (x.unroll c.column).token c r)

end Lexer

/-- The tokens of a text. Each takes a cell at least. -/
def tokens? (s : List Cell) : Option (List Token) := Lexer.run (s.length + 1) (.new s)

end SensorCache.Yaml
