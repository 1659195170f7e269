import SensorCache.Number.Numeral
import SensorCache.Text.Hex

/-!
# JSON values and their text

`Json.text` writes a value without any blanks. A string escapes the quote, the backslash and the
characters below U+0020, the five with a short escape by that and the others by `\u00` and two
lower-case hexadecimal digits. All else is written as it is.
-/

namespace SensorCache

/-- A JSON value as it is written: numbers keep their numeral and objects their order and repeated
keys. A string is `none` when its escapes leave half of a surrogate pair alone: it is JSON, but no
text. -/
inductive Json where
  | null
  | bool (b : Bool)
  | number (n : Numeral)
  | string (s : Option (List Char))
  | array (elements : List Json)
  | object (members : List (Option (List Char) × Json))
  deriving Inhabited

namespace Json

def ofText (s : String) : Json := .string (some s.toList)

/-- How a character stands in a string. -/
def escape (c : Char) : List Char :=
  if c = '"' then ['\\', '"']
  else if c = '\\' then ['\\', '\\']
  else if c = '\n' then ['\\', 'n']
  else if c = '\r' then ['\\', 'r']
  else if c = '\t' then ['\\', 't']
  else if c.toNat = 8 then ['\\', 'b']
  else if c.toNat = 12 then ['\\', 'f']
  else if c.toNat < 32 then ['\\', 'u', '0', '0',
    Text.hexDigit (c.toNat / 16), Text.hexDigit (c.toNat % 16)]
  else [c]

def quoted : Option (List Char) → List Char
  | some s => '"' :: s.flatMap escape ++ ['"']
  | none => "\"\\ud800\"".toList

mutual

/-- The compact text of a value. -/
def text : Json → List Char
  | .null => "null".toList
  | .bool true => "true".toList
  | .bool false => "false".toList
  | .number n => n.chars
  | .string s => quoted s
  | .array es => '[' :: elementsText es ++ [']']
  | .object ms => '\x7b' :: membersText ms ++ ['\x7d']

def elementsText : List Json → List Char
  | [] => []
  | [v] => text v
  | v :: w :: r => text v ++ ',' :: elementsText (w :: r)

def membersText : List (Option (List Char) × Json) → List Char
  | [] => []
  | [(k, v)] => quoted k ++ ':' :: text v
  | (k, v) :: m :: r => quoted k ++ ':' :: text v ++ ',' :: membersText (m :: r)

end

end Json

end SensorCache
