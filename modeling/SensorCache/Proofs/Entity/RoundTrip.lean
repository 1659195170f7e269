import SensorCache.Entity.Basic
import SensorCache.Proofs.Json.Fields
import SensorCache.Proofs.Time.UtcTime

/-!
# Reading back entities

The body of an entity is read as that entity, whatever texts, maps and times are in it and whichever
of its fields are left out. Of the numbers in it each has to read back by itself: that is for the
decimal numerals to say, not for entities (`Double.ReadsBack`).
-/

namespace SensorCache

open Json Time

/-! ## Entities whose numbers read back -/

/-- The numeral of a number stands for that number. -/
def Double.ReadsBack (x : Double) : Prop := x.numeral.toDouble? = some x

instance (x : Double) : Decidable x.ReadsBack := inferInstanceAs (Decidable (_ = _))

/-- All four coordinates of a bounding box read back. -/
def Envelope.ReadsBack (e : Envelope) : Prop :=
  (e.lower.first.ReadsBack ∧ e.lower.second.ReadsBack) ∧
    e.upper.first.ReadsBack ∧ e.upper.second.ReadsBack

instance (e : Envelope) : Decidable e.ReadsBack := inferInstanceAs (Decidable (_ ∧ _))

/-- So do those of an offering that has one. -/
def Offering.ReadsBack (o : Offering) : Prop := ∀ e ∈ o.envelope, e.ReadsBack

/-- A kind whose bodies read back for the entities that `ReadsBack` tells. -/
class LawfulEntity (α : Type) [Entity α] where
  ReadsBack : α → Prop
  proper {a : α} : ReadsBack a → (Entity.toJson a).Proper
  ofJson?_toJson {a : α} : ReadsBack a → Entity.ofJson? (Entity.toJson a) = some a

/-! ## Units -/

theorem UnitMapping.proper_toJson (u : UnitMapping) : u.toJson.Proper := by
  refine proper_fields fun f hf v hv => ?_
  simp only [List.mem_cons, List.not_mem_nil, or_false] at hf
  rcases hf with rfl | rfl <;>
    · cases hv
      exact proper_ofText _

theorem UnitMapping.ofJson?_toJson (u : UnitMapping) : ofJson? u.toJson = some u := by
  have hrecord := record?_fields (show ["phenomenon", "unit"].Nodup by decide)
    (l := [("phenomenon", some (ofText u.phenomenon)), ("unit", some (ofText u.unit))]) rfl
  unfold ofJson? toJson
  rw [hrecord]
  simp [required?, toText?_ofText]

instance : LawfulEntity UnitMapping where
  ReadsBack _ := True
  proper {u} _ := u.proper_toJson
  ofJson?_toJson {u} _ := u.ofJson?_toJson

/-! ## Periods -/

theorem Period.proper_toJson (p : Period) : p.toJson.Proper := by
  refine proper_fields fun f hf v hv => ?_
  simp only [List.mem_cons, List.not_mem_nil, or_false] at hf
  rcases hf with rfl | rfl <;>
    · cases hv
      rfl

theorem Period.ofJson?_toJson (p : Period) : ofJson? p.toJson = some p := by
  have hrecord := record?_fields (show ["begin", "end"].Nodup by decide)
    (l := [("begin", some (.string (some p.begins.text))), ("end", some (.string (some p.ends.text)))])
    rfl
  unfold ofJson? toJson
  rw [hrecord]
  simp [required?, UtcTime.ofJson?, UtcTime.parse?_text]

/-! ## Bounding boxes -/

theorem Corner.proper_toJson (c : Corner) : c.toJson.Proper :=
  ⟨c.first.wellFormed_numeral, c.second.wellFormed_numeral, trivial⟩

theorem Corner.ofJson?_toJson {c : Corner} (h : c.first.ReadsBack ∧ c.second.ReadsBack) :
    ofJson? c.toJson = some c := by
  have h1 : c.first.numeral.toDouble? = some c.first := h.1
  have h2 : c.second.numeral.toDouble? = some c.second := h.2
  simp [ofJson?, toJson, Double.ofJson?, h1, h2]

theorem Envelope.sridOfJson?_natural {n : Nat} (h : n < 0x100000000) :
    sridOfJson? (natural n) = some ⟨n, h⟩ := by
  simp only [sridOfJson?, natural, Numeral.toNat?, Numeral.value_digitsOf, if_pos h, dif_pos h]

theorem Envelope.proper_toJson (e : Envelope) : e.toJson.Proper := by
  refine proper_fields fun f hf v hv => ?_
  simp only [List.mem_cons, List.not_mem_nil, or_false] at hf
  rcases hf with rfl | rfl | rfl <;> cases hv
  · exact proper_natural e.srid
  · exact e.lower.proper_toJson
  · exact e.upper.proper_toJson

theorem Envelope.ofJson?_toJson {e : Envelope} (h : e.ReadsBack) : ofJson? e.toJson = some e := by
  have hrecord := record?_fields (show ["srid", "lower_corner", "upper_corner"].Nodup by decide)
    (l := [("srid", some (natural e.srid)), ("lower_corner", some e.lower.toJson),
      ("upper_corner", some e.upper.toJson)]) rfl
  unfold ofJson? toJson
  rw [hrecord]
  simp [required?, sridOfJson?_natural e.srid_lt, Corner.ofJson?_toJson h.1,
    Corner.ofJson?_toJson h.2]

/-! ## Offerings -/

/-- The fields of an offering's body. -/
def Offering.fieldsOf (o : Offering) : List (String × Option Json) :=
  [("identifier", some (ofText o.identifier)), ("name", o.name.map ofText),
    ("procedures", some (texts o.procedures)),
    ("observed_properties", some (.object (membersOf optionalText o.observedProperties))),
    ("features_of_interest", some (texts o.featuresOfInterest)),
    ("phenomenon_time", o.period.map Period.toJson), ("envelope", o.envelope.map Envelope.toJson)]

theorem Offering.proper_toJson (o : Offering) : o.toJson.Proper := by
  show (fields o.fieldsOf).Proper
  refine proper_fields fun f hf v hv => ?_
  simp only [fieldsOf, List.mem_cons, List.not_mem_nil, or_false] at hf
  rcases hf with rfl | rfl | rfl | rfl | rfl | rfl | rfl
  · cases hv
    exact proper_ofText _
  · obtain ⟨s, -, rfl⟩ := Option.map_eq_some_iff.mp hv
    exact proper_ofText s
  · cases hv
    exact proper_texts _
  · cases hv
    exact membersProper_membersOf proper_optionalText _
  · cases hv
    exact proper_texts _
  · obtain ⟨p, -, rfl⟩ := Option.map_eq_some_iff.mp hv
    exact p.proper_toJson
  · obtain ⟨e, -, rfl⟩ := Option.map_eq_some_iff.mp hv
    exact e.proper_toJson

/-- A field that may be left out comes back. -/
theorem defaulting?_map {α : Type} {w : α → Json} {r : Json → Option α} {a : Option α}
    (h : ∀ x ∈ a, nullable? r (w x) = some (some x)) :
    defaulting? none (nullable? r) (a.map w) = some a := by
  cases a with
  | none => rfl
  | some x => exact h x rfl

theorem nullable?_ofText (s : String) : nullable? toText? (ofText s) = some (some s) :=
  nullable?_optionalText (some s)

theorem Offering.ofJson?_toJson {o : Offering} (h : o.ReadsBack) : ofJson? o.toJson = some o := by
  have hrecord := record?_fields (show fieldNames.Nodup by decide) (l := o.fieldsOf) rfl
  have hname := defaulting?_map (a := o.name) (w := ofText) (r := toText?)
    fun s _ => nullable?_ofText s
  have hperiod := defaulting?_map (a := o.period) (w := Period.toJson) (r := Period.ofJson?)
    fun p _ => congrArg (Option.map some) p.ofJson?_toJson
  have henvelope := defaulting?_map (a := o.envelope) (w := Envelope.toJson)
    (r := Envelope.ofJson?) fun e he => congrArg (Option.map some) (Envelope.ofJson?_toJson (h e he))
  have hprocedures := list?_texts o.procedures
  have hfeatures := list?_texts o.featuresOfInterest
  have hobserved := keyed?_membersOf nullable?_optionalText o.observedProperties
  show ofJson? (fields o.fieldsOf) = some o
  unfold ofJson?
  rw [hrecord]
  simp only [fieldsOf, List.map_cons, List.map_nil, Option.bind_eq_bind, Option.bind_some,
    Option.pure_def, required?, toText?_ofText, hname, hperiod, henvelope]
  simp only [defaulting?, hprocedures, hobserved, hfeatures, Option.bind_some]

instance : LawfulEntity Offering where
  ReadsBack := Offering.ReadsBack
  proper {o} _ := o.proper_toJson
  ofJson?_toJson := Offering.ofJson?_toJson

/-! ## Keys -/

/-- A kind whose bodies are JSON texts, whatever numbers are in them, and are read as entities of
the same key, if as any at all. -/
class KeyedEntity (α : Type) [Entity α] : Prop where
  proper (a : α) : (Entity.toJson a).Proper
  key_eq {a b : α} : Entity.ofJson? (Entity.toJson a) = some b → Entity.key b = Entity.key a

instance : KeyedEntity UnitMapping where
  proper := UnitMapping.proper_toJson
  key_eq {u v} h := by
    rw [Option.some.inj (u.ofJson?_toJson.symm.trans h)]

/-- The identifier of an offering comes back, even if its coordinates do not. -/
theorem Offering.identifier_of_ofJson? {o p : Offering} (h : ofJson? o.toJson = some p) :
    p.identifier = o.identifier := by
  have hrecord := record?_fields (show fieldNames.Nodup by decide) (l := o.fieldsOf) rfl
  unfold ofJson? at h
  rw [show o.toJson = fields o.fieldsOf from rfl, hrecord] at h
  simp only [fieldsOf, List.map_cons, List.map_nil, Option.bind_eq_bind, Option.bind_some,
    Option.pure_def, required?, toText?_ofText, Option.bind_eq_some_iff, Option.some.injEq] at h
  obtain ⟨_, _, _, _, _, _, _, _, _, _, _, _, rfl⟩ := h
  rfl

instance : KeyedEntity Offering where
  proper := Offering.proper_toJson
  key_eq h := Offering.identifier_of_ofJson? h

end SensorCache
