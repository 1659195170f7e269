import SensorCache.Json.Basic

/-!
# Reading JSON

`Json.parse?` accepts exactly the texts of RFC 8259: no leading zeros, no control characters in
strings, no trailing commas, only the four JSON blanks between tokens. The reader descends on what
is left of the text, which every step makes shorter.
-/

namespace SensorCache.Json

/-- The blanks JSON allows between tokens. -/
def isSpace (c : Char) : Bool := c == ' ' || c == '\n' || c == '\r' || c == '\t'

def skipSpace (s : List Char) : List Char := s.dropWhile isSpace

/-! ## Strings

The body of a string is read into pieces, plain characters and the 16-bit units of `\u` escapes,
and the pieces are then joined to characters.
-/

/-- A piece of a string's body. -/
inductive Piece where
  | char (c : Char)
  | unit (n : Nat)
  deriving DecidableEq

def hexUnit? (a b c d : Char) : Option Nat := do
  let a ← Text.hexValue? a
  let b ← Text.hexValue? b
  let c ← Text.hexValue? c
  let d ← Text.hexValue? d
  return ((a * 16 + b) * 16 + c) * 16 + d

/-- The character of a one-letter escape. -/
def shortEscape? (c : Char) : Option Char :=
  if c = '"' || c = '\\' || c = '/' then some c
  else if c = 'n' then some '\n'
  else if c = 'r' then some '\r'
  else if c = 't' then some '\t'
  else if c = 'b' then some '\x08'
  else if c = 'f' then some '\x0c'
  else none

/-- The pieces up to the closing quote, and what follows it. -/
def readPieces : List Char → Option (List Piece × List Char)
  | [] => none
  | '"' :: r => some ([], r)
  | '\\' :: 'u' :: a :: b :: c :: d :: r => do
    let n ← hexUnit? a b c d
    let (ps, rest) ← readPieces r
    return (.unit n :: ps, rest)
  | '\\' :: e :: r => do
    let c ← shortEscape? e
    let (ps, rest) ← readPieces r
    return (.char c :: ps, rest)
  | c :: r =>
    if c.toNat < 32 || c = '\\' then none
    else (readPieces r).map fun (ps, rest) => (.char c :: ps, rest)

/-- Joins pieces to characters. A high surrogate must be followed by a low one, and a low one must
follow a high one. -/
def joinPieces : List Piece → Option (List Char)
  | [] => some []
  | .char c :: r => (joinPieces r).map (c :: ·)
  | .unit hi :: .unit lo :: r =>
    if 0xD800 ≤ hi && hi < 0xDC00 then
      if 0xDC00 ≤ lo && lo < 0xE000 then
        (joinPieces r).map (Char.ofNat (0x10000 + (hi - 0xD800) * 0x400 + (lo - 0xDC00)) :: ·)
      else none
    else if 0xDC00 ≤ hi && hi < 0xE000 then none
    else (joinPieces (.unit lo :: r)).map (Char.ofNat hi :: ·)
  | .unit n :: r =>
    if 0xD800 ≤ n && n < 0xE000 then none else (joinPieces r).map (Char.ofNat n :: ·)

/-- A string after its opening quote. -/
def readString (s : List Char) : Option (Option (List Char) × List Char) :=
  (readPieces s).map fun (ps, rest) => (joinPieces ps, rest)

/-! ## Numbers -/

/-- The digits at the front of a text. -/
def readDigits (s : List Char) : List Nat × List Char :=
  ((s.takeWhile Char.isDigit).map fun c => c.toNat - 48, s.dropWhile Char.isDigit)

/-- The whole digits of a number: a lone zero, or digits that do not begin with one. -/
def readWhole (s : List Char) : Option (List Nat × List Char) :=
  match readDigits s with
  | ([], _) => none
  | (0 :: _ :: _, _) => none
  | (ds, r) => some (ds, r)

def readFraction : List Char → Option (Option (List Nat) × List Char)
  | '.' :: r =>
    match readDigits r with
    | ([], _) => none
    | (ds, rest) => some (some ds, rest)
  | s => some (none, s)

def readExponentDigits (down : Bool) (s : List Char) :
    Option (Option (Bool × List Nat) × List Char) :=
  match readDigits s with
  | ([], _) => none
  | (ds, rest) => some (some (down, ds), rest)

def readExponent : List Char → Option (Option (Bool × List Nat) × List Char)
  | c :: r =>
    if c = 'e' || c = 'E' then
      match r with
      | '+' :: r => readExponentDigits false r
      | '-' :: r => readExponentDigits true r
      | r => readExponentDigits false r
    else some (none, c :: r)
  | [] => some (none, [])

def readMagnitude (negative : Bool) (s : List Char) : Option (Numeral × List Char) := do
  let (whole, s) ← readWhole s
  let (fraction, s) ← readFraction s
  let (exponent, s) ← readExponent s
  return (⟨negative, whole, fraction, exponent⟩, s)

def readNumber : List Char → Option (Numeral × List Char)
  | '-' :: r => readMagnitude true r
  | s => readMagnitude false s

/-! ## Values

Inside brackets the reader goes on only with a rest no longer than what followed the bracket, as
every rest is; the comparison is what makes the recursion end.
-/

/-- The value of a bare word. -/
def readWord (s : List Char) : Option (Json × List Char) :=
  match s with
  | 't' :: 'r' :: 'u' :: 'e' :: r => some (.bool true, r)
  | 'f' :: 'a' :: 'l' :: 's' :: 'e' :: r => some (.bool false, r)
  | 'n' :: 'u' :: 'l' :: 'l' :: r => some (.null, r)
  | _ => none

mutual

/-- A value at the very front of the text, and what follows it. -/
def readValue (s : List Char) : Option (Json × List Char) :=
  match s with
  | '"' :: r => (readString r).map fun (t, rest) => (.string t, rest)
  | '[' :: r =>
    match skipSpace r with
    | ']' :: rest => some (.array [], rest)
    | t =>
      if t.length ≤ r.length then (readElements t).map fun (es, rest) => (.array es, rest)
      else none
  | '\x7b' :: r =>
    match skipSpace r with
    | '\x7d' :: rest => some (.object [], rest)
    | t =>
      if t.length ≤ r.length then (readMembers t).map fun (ms, rest) => (.object ms, rest)
      else none
  | c :: _ =>
    if c.isDigit || c = '-' then (readNumber s).map fun (n, rest) => (.number n, rest)
    else readWord s
  | [] => none
termination_by 2 * s.length
decreasing_by all_goals (simp only [List.length_cons]; omega)

/-- The elements of an array up to its closing bracket, at least one. -/
def readElements (s : List Char) : Option (List Json × List Char) :=
  match readValue s with
  | none => none
  | some (v, r) =>
    match skipSpace r with
    | ']' :: rest => some ([v], rest)
    | ',' :: r =>
      if (skipSpace r).length < s.length then
        (readElements (skipSpace r)).map fun (vs, rest) => (v :: vs, rest)
      else none
    | _ => none
termination_by 2 * s.length + 1
decreasing_by all_goals omega

/-- The members of an object up to its closing brace, at least one. -/
def readMembers (s : List Char) : Option (List (Option (List Char) × Json) × List Char) :=
  match s with
  | '"' :: body =>
    match readString body with
    | none => none
    | some (k, r) =>
      match skipSpace r with
      | ':' :: r =>
        if (skipSpace r).length ≤ body.length then
          match readValue (skipSpace r) with
          | none => none
          | some (v, r) =>
            match skipSpace r with
            | '\x7d' :: rest => some ([(k, v)], rest)
            | ',' :: r =>
              if (skipSpace r).length ≤ body.length then
                (readMembers (skipSpace r)).map fun (ms, rest) => ((k, v) :: ms, rest)
              else none
            | _ => none
        else none
      | _ => none
  | _ => none
termination_by 2 * s.length + 1
decreasing_by all_goals (simp only [List.length_cons]; omega)

end

/-- The value a whole text is, blanks around it allowed. -/
def parse? (s : List Char) : Option Json :=
  match readValue (skipSpace s) with
  | some (v, rest) => if (skipSpace rest).isEmpty then some v else none
  | none => none

end SensorCache.Json
