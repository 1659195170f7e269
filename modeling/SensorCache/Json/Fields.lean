import SensorCache.Json.Basic
import SensorCache.Keyed

/-!
# Fields of JSON values

Short ways to build JSON values, and to take values of other types out of them. There are two ways
to look into an object. A record is a value with known fields: none may stand twice, and an array
may take the place of the object. A loose object is asked for one member at a time, and what is not
there, or is something else, has a default.
-/

namespace SensorCache

namespace Json

/-! ## Building -/

def texts (l : List String) : Json := .array (l.map ofText)

def optionalText : Option String → Json
  | some s => ofText s
  | none => .null

/-- An object with the fields that are present. -/
def fields (l : List (String × Option Json)) : Json :=
  .object (l.filterMap fun (k, v) => v.map fun v => (some k.toList, v))

/-- An object with fields that are all present. -/
def ofFields (l : List (String × Json)) : Json := .object (l.map fun (k, v) => (some k.toList, v))

/-- A whole number as a numeral. -/
def ofInt (n : Int) : Json := .number ⟨n < 0, Numeral.digitsOf n.natAbs, none, none⟩

/-- A natural number as a numeral. -/
def natural (n : Nat) : Json := .number ⟨false, Numeral.digitsOf n, none, none⟩

/-- A value that may be missing, with `null` for that. -/
def optional {α : Type} (write : α → Json) : Option α → Json
  | some a => write a
  | none => .null

/-! ## Values -/

def toText? : Json → Option String
  | .string (some s) => some (String.ofList s)
  | _ => none

/-- A whole number that is written without a fraction or an exponent. -/
def toInt? : Json → Option Int
  | .number ⟨negative, whole, none, none⟩ =>
    let n : Int := Numeral.value 0 whole
    some (if negative then -n else n)
  | _ => none

/-- A value that may be `null`. -/
def nullable? {α : Type} (read : Json → Option α) : Json → Option (Option α)
  | .null => some none
  | v => (read v).map some

def list? {α : Type} (read : Json → Option α) : Json → Option (List α)
  | .array es => es.mapM read
  | _ => none

/-! ## Records -/

/-- The member called `name`. None at all is fine, two are not. -/
def member? (name : List Char) (ms : List (Option (List Char) × Json)) : Option (Option Json) :=
  match ms.filter fun m => m.1 == some name with
  | [] => some none
  | [m] => some (some m.2)
  | _ => none

/-- The values of the named fields, of an object by name or of an array by position. Names must be
texts, and an array may stop early but not go on. -/
def record? (names : List String) : Json → Option (List (Option Json))
  | .object ms =>
    if ms.all fun m => m.1.isSome then names.mapM fun n => member? n.toList ms else none
  | .array es =>
    if es.length ≤ names.length then
      some (es.map some ++ List.replicate (names.length - es.length) none)
    else none
  | _ => none

/-- A field that has to be there. -/
def required? {α : Type} (read : Json → Option α) : Option Json → Option α
  | some v => read v
  | none => none

/-- A field with a value of its own where it is missing. -/
def defaulting? {α : Type} (missing : α) (read : Json → Option α) : Option Json → Option α
  | some v => read v
  | none => some missing

/-- An object as a map; of two members with one name the later is kept. -/
def keyed? {α : Type} (read : Json → Option α) : Json → Option (Keyed α)
  | .object ms => do
    let es ← ms.mapM fun (k, v) => do
      let k ← k
      let v ← read v
      return (String.ofList k, v)
    return Keyed.ofList es
  | _ => none

/-! ## Loose objects -/

/-- The first member of an object with a key; one that is `null` counts as missing. -/
def get? (j : Json) (k : String) : Option Json :=
  match j with
  | .object ms =>
    match ms.find? fun m => m.1 == some k.toList with
    | some (_, .null) => none
    | some (_, v) => some v
    | none => none
  | _ => none

def getText (j : Json) (k : String) (missing : String := "") : String :=
  ((j.get? k).bind toText?).getD missing

def getInt? (j : Json) (k : String) : Option Int := (j.get? k).bind toInt?

def getNat? (j : Json) (k : String) : Option Nat := (j.getInt? k).map Int.toNat

def getNat (j : Json) (k : String) (missing : Nat := 0) : Nat := (j.getNat? k).getD missing

/-- Whether a member is `true`. -/
def getFlag (j : Json) (k : String) : Bool :=
  match j.get? k with
  | some (.bool b) => b
  | _ => false

/-- The elements of a member that is an array. -/
def getList (j : Json) (k : String) : List Json :=
  match j.get? k with
  | some (.array es) => es
  | _ => []

/-- The members of a member that is an object, under their keys. -/
def getMembers (j : Json) (k : String) : List (String × Json) :=
  match j.get? k with
  | some (.object ms) => ms.filterMap fun (k, v) => k.map fun k => (String.ofList k, v)
  | _ => []

end Json

end SensorCache
