import SensorCache.Json.Fields
import SensorCache.Json.Reader
import SensorCache.Time.UtcTime

/-!
# Entities

What the cache holds: the units of observed phenomena, and the offerings of sensors. An entity has
a key, under which it is stored, and a body, the JSON object of its fields.

Bodies are written with all fields in a fixed order, a missing name, period or envelope left out.
They are read more freely: an object may have its fields in any order and others besides, but none
twice, and an array may give the fields in their order.
-/

namespace SensorCache

open Time

/-- The unit of measurement of one observed phenomenon. -/
structure UnitMapping where
  phenomenon : String
  unit : String
  deriving DecidableEq, Inhabited

/-- The time an offering's observations cover. -/
structure Period where
  begins : UtcTime
  ends : UtcTime
  deriving DecidableEq

/-- A point of the plane of a spatial reference system. -/
structure Corner where
  first : Double
  second : Double
  deriving DecidableEq, Inhabited

/-- The bounding box of an offering; the reference system is a number below `0x100000000`. -/
structure Envelope where
  srid : Nat
  lower : Corner
  upper : Corner
  srid_lt : srid < 0x100000000
  deriving DecidableEq

/-- A summary of a sensor's offering. Each observed property has its unit, if it is known. -/
structure Offering where
  identifier : String
  name : Option String
  procedures : List String
  observedProperties : Keyed (Option String)
  featuresOfInterest : List String
  period : Option Period
  envelope : Option Envelope
  deriving DecidableEq, Inhabited

/-- A kind of thing the cache can hold: its name, the key of each and its body. -/
class Entity (α : Type) where
  kind : String
  key : α → String
  toJson : α → Json
  ofJson? : Json → Option α

/-! ## Writing -/

def UnitMapping.toJson (u : UnitMapping) : Json :=
  Json.fields [("phenomenon", some (Json.ofText u.phenomenon)), ("unit", some (Json.ofText u.unit))]

def Period.toJson (p : Period) : Json :=
  Json.fields [("begin", some (.string (some p.begins.text))),
    ("end", some (.string (some p.ends.text)))]

def Corner.toJson (c : Corner) : Json := .array [.number c.first.numeral, .number c.second.numeral]

def Envelope.toJson (e : Envelope) : Json :=
  Json.fields [("srid", some (Json.natural e.srid)), ("lower_corner", some e.lower.toJson),
    ("upper_corner", some e.upper.toJson)]

def Offering.toJson (o : Offering) : Json :=
  Json.fields [("identifier", some (Json.ofText o.identifier)), ("name", o.name.map Json.ofText),
    ("procedures", some (Json.texts o.procedures)),
    ("observed_properties", some (.object (o.observedProperties.entries.map fun (k, u) =>
      (some k.toList, Json.optionalText u)))),
    ("features_of_interest", some (Json.texts o.featuresOfInterest)),
    ("phenomenon_time", o.period.map Period.toJson),
    ("envelope", o.envelope.map Envelope.toJson)]

/-! ## Reading -/

def UnitMapping.ofJson? (j : Json) : Option UnitMapping := do
  match ← Json.record? ["phenomenon", "unit"] j with
  | [phenomenon, unit] =>
    return ⟨← Json.required? Json.toText? phenomenon, ← Json.required? Json.toText? unit⟩
  | _ => none

def UtcTime.ofJson? : Json → Option UtcTime
  | .string (some s) => UtcTime.parse? s
  | _ => none

def Period.ofJson? (j : Json) : Option Period := do
  match ← Json.record? ["begin", "end"] j with
  | [begins, ends] =>
    return ⟨← Json.required? UtcTime.ofJson? begins, ← Json.required? UtcTime.ofJson? ends⟩
  | _ => none

def Double.ofJson? : Json → Option Double
  | .number n => n.toDouble?
  | _ => none

def Corner.ofJson? : Json → Option Corner
  | .array [a, b] => do return ⟨← Double.ofJson? a, ← Double.ofJson? b⟩
  | _ => none

def Envelope.sridOfJson? : Json → Option { n : Nat // n < 0x100000000 }
  | .number n =>
    match n.toNat? 0x100000000 with
    | some v => if h : v < 0x100000000 then some ⟨v, h⟩ else none
    | none => none
  | _ => none

def Envelope.ofJson? (j : Json) : Option Envelope := do
  match ← Json.record? ["srid", "lower_corner", "upper_corner"] j with
  | [srid, lower, upper] =>
    let srid ← Json.required? Envelope.sridOfJson? srid
    return ⟨srid.1, ← Json.required? Corner.ofJson? lower, ← Json.required? Corner.ofJson? upper,
      srid.2⟩
  | _ => none

def Offering.fieldNames : List String :=
  ["identifier", "name", "procedures", "observed_properties", "features_of_interest",
    "phenomenon_time", "envelope"]

def Offering.ofJson? (j : Json) : Option Offering := do
  match ← Json.record? Offering.fieldNames j with
  | [identifier, name, procedures, observed, features, period, envelope] =>
    return {
      identifier := ← Json.required? Json.toText? identifier
      name := ← Json.defaulting? none (Json.nullable? Json.toText?) name
      procedures := ← Json.defaulting? [] (Json.list? Json.toText?) procedures
      observedProperties :=
        ← Json.defaulting? .empty (Json.keyed? (Json.nullable? Json.toText?)) observed
      featuresOfInterest := ← Json.defaulting? [] (Json.list? Json.toText?) features
      period := ← Json.defaulting? none (Json.nullable? Period.ofJson?) period
      envelope := ← Json.defaulting? none (Json.nullable? Envelope.ofJson?) envelope }
  | _ => none

instance : Entity UnitMapping where
  kind := "unit_mappings"
  key u := u.phenomenon
  toJson := UnitMapping.toJson
  ofJson? := UnitMapping.ofJson?

instance : Entity Offering where
  kind := "offerings"
  key o := o.identifier
  toJson := Offering.toJson
  ofJson? := Offering.ofJson?

/-- The compact text of an entity's body. -/
def Entity.body {α : Type} [Entity α] (e : α) : List Char := (Entity.toJson e).text

end SensorCache
