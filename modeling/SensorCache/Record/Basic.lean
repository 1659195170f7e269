import SensorCache.Entity.Basic
import SensorCache.Text.Lines

/-!
# Record lines

A cache file holds one record a line: the key of an entity, a tab and the entity's body. A file is
read as a log, in which a later record takes the place of an earlier one with its key. Lines that
are blank or no record are passed over.
-/

namespace SensorCache.Record

open Text

/-- Why an entity cannot be written as a record. -/
structure Refusal where
  id : String
  reason : String
  deriving DecidableEq, Inhabited

def separator : Char := '\t'

/-- Whether a key can stand before the separator of its line. -/
def keyAllowed (k : String) : Bool :=
  !k.isEmpty && k.toList.all fun c => c != separator && c != '\n' && c != '\r'

def refusal (k : String) : Refusal :=
  ⟨k, "record id must be non-empty and free of tabs and newlines"⟩

variable {α : Type} [Entity α]

/-- The line of an entity with an allowed key, without its ending. -/
def line (e : α) : List Char := (Entity.key e).toList ++ separator :: Entity.body e

/-- The line of an entity, if its key allows one. -/
def encode (e : α) : Except Refusal (List Char) :=
  if keyAllowed (Entity.key e) then .ok (line e) else .error (refusal (Entity.key e))

/-- The record of a line, if it is one. -/
def ofLine? (α : Type) [Entity α] (l : List Char) : Option (String × α) :=
  if allBlank l then none
  else
    match splitFirst? (· == separator) l with
    | none => none
    | some (id, body) => ((Json.parse? body).bind Entity.ofJson?).map fun e => (String.ofList id, e)

/-- The records of a text in the order of its lines. -/
def readAll (α : Type) [Entity α] (s : List Char) : List (String × α) :=
  (lines s).filterMap (ofLine? α)

/-- The entities of a text by id, the last of each. -/
def decode (α : Type) [Entity α] (s : List Char) : Keyed α := Keyed.ofList (readAll α s)

end SensorCache.Record
