import SensorCache.Proofs.Configuration.Loading
import SensorCache.Proofs.Time.ClockTexts

/-!
# Overriding a configuration

Variables of the environment are asked in order, and the first with a bad value ends it. `Overriding`
says all that can come of it: the switch is refused, or the time is, or every variable that is there
has its way. The daily time is kept as a text that is read again each time; it names a time when it
comes from a file, and also when it comes from a variable, so there is a schedule after any number of
overridings, those included that failed (`overridden_schedules`).
-/

namespace SensorCache.Configuration

open Text Time

variable {lookup : String → Option String} {c : Configuration} {s v : String} {b : Bool}

/-! ## Switches -/

/-- The words for on and for off. -/
def switchWords : Bool → List String
  | true => ["true", "1", "yes", "on"]
  | false => ["false", "0", "no", "off"]

/-- The text is a word for on or off, in small or capital letters and with blanks around it. -/
def Switches (s : String) (b : Bool) : Prop :=
  ∃ before word after, s.toList = before ++ word ++ after ∧ allBlank before = true ∧
    allBlank after = true ∧ String.ofList (word.map Char.toLower) ∈ switchWords b

theorem not_isBlank_of_mem_switchWords {w : String} (hw : w ∈ switchWords b) :
    ∀ c ∈ w.toList, isBlank c = false := by
  have hnone : ∀ w ∈ switchWords b, w.toList.any isBlank = false := by cases b <;> decide
  exact fun c hc => Bool.eq_false_iff.mpr (List.any_eq_false.mp (hnone w hw) c hc)

/-- A blank is no capital letter. -/
theorem toLower_of_isBlank {c : Char} (h : isBlank c = true) : c.toLower = c := by
  unfold Char.toLower
  rw [dif_neg]
  rintro ⟨hlow, hhigh⟩
  have hlow' : 65 ≤ c.toNat := hlow
  have hhigh' : c.toNat ≤ 90 := hhigh
  unfold isBlank at h
  simp only [Bool.or_eq_true, Bool.and_eq_true, decide_eq_true_eq, beq_iff_eq] at h
  omega

theorem switch?_eq_some_iff_mem : Override.switch? s = some b ↔
    String.ofList ((trim s.toList).map Char.toLower) ∈ switchWords b := by
  have hapart : ∀ w ∈ switchWords true, w ∉ switchWords false := by decide
  unfold Override.switch?
  dsimp only
  generalize String.ofList ((trim s.toList).map Char.toLower) = w
  split
  · next hon =>
    have hon' : w ∈ switchWords true := List.contains_iff_mem.mp hon
    cases b <;> simp [hon', hapart w hon']
  · next hon =>
    have hon' : w ∉ switchWords true := fun h => hon (List.contains_iff_mem.mpr h)
    split
    · next hoff =>
      have hoff' : w ∈ switchWords false := List.contains_iff_mem.mp hoff
      cases b <;> simp [hon', hoff']
    · next hoff =>
      have hoff' : w ∉ switchWords false := fun h => hoff (List.contains_iff_mem.mpr h)
      cases b <;> simp [hon', hoff']

theorem switch?_eq_some_iff : Override.switch? s = some b ↔ Switches s b := by
  rw [switch?_eq_some_iff_mem]
  constructor
  · intro h
    obtain ⟨before, after, hs, hbefore, hafter⟩ := exists_trim s.toList
    exact ⟨before, trim s.toList, after, hs, hbefore, hafter, h⟩
  · rintro ⟨before, word, after, hs, hbefore, hafter, h⟩
    -- None of the words has a blank, and small letters are made of no blank.
    have hword : ∀ c ∈ word, isBlank c = false := by
      intro c hc
      have hlower : isBlank c.toLower = false := by
        refine not_isBlank_of_mem_switchWords h _ ?_
        rw [String.toList_ofList]
        exact List.mem_map_of_mem hc
      cases hblank : isBlank c with
      | false => rfl
      | true => rw [toLower_of_isBlank hblank, hblank] at hlower; cases hlower
    rw [hs, trim_padded hbefore hafter (fun c hc => hword c (List.mem_of_mem_head? hc))
      fun c hc => hword c (List.mem_of_mem_getLast? hc)]
    exact h

/-! ## One overriding -/

/-- Where a switch stands that stood at `old` and may be overridden. -/
inductive Turned : Option String → Bool → Bool → Prop where
  | absent {old : Bool} : Turned none old old
  | said {v : String} {old b : Bool} : Switches v b → Turned (some v) old b

/-- Every variable that is there has its way in `c'`, and all else is as in `c`. -/
def Prevails (lookup : String → Option String) (c c' : Configuration) : Prop :=
  ∃ b, Turned (lookup Override.startup.name) c.updateOnStartup b ∧ c' = { c with
    updateOnStartup := b
    updateTime := (lookup Override.time.name).getD c.updateTime
    directory := ((lookup Override.directory.name).map Path.mk).or c.directory }

/-- There is a variable for the switch that is no word for on or off. -/
def SwitchRefused (lookup : String → Option String) (v : String) : Prop :=
  lookup Override.startup.name = some v ∧ ∀ b, ¬Switches v b

/-- There is a variable for the time that names none. -/
def TimeRefused (lookup : String → Option String) (v : String) : Prop :=
  lookup Override.time.name = some v ∧ ∀ t : TimeOfDay, ¬t.NamedBy v.toList

/-- What overriding by an environment can come to: the configuration afterwards and the failure, if
there is one. -/
inductive Overriding (lookup : String → Option String) (c : Configuration) :
    Configuration → Option ConfigurationError → Prop where
  | switchRefused {v : String} : SwitchRefused lookup v →
    Overriding lookup c c (some (.switch Override.startup.name v))
  | timeRefused {v : String} {b : Bool} :
    Turned (lookup Override.startup.name) c.updateOnStartup b → TimeRefused lookup v →
    Overriding lookup c { c with updateOnStartup := b }
      (some (.variableTime Override.time.name v))
  | prevailed {c' : Configuration} : Prevails lookup c c' → (∀ v, ¬TimeRefused lookup v) →
    Overriding lookup c c' none

/-- What the variables after the first come to, when that has turned the switch. -/
theorem overriding_rest (hb : Turned (lookup Override.startup.name) c.updateOnStartup b)
    (asked : List String) :
    Overriding lookup c
      (overrideBy lookup [.time, .directory] { c with updateOnStartup := b } asked).configuration
      (overrideBy lookup [.time, .directory] { c with updateOnStartup := b } asked).failure := by
  have hdirectory : ∀ (c : Configuration) asked,
      (overrideBy lookup [.directory] c asked).configuration = { c with
        directory := ((lookup Override.directory.name).map Path.mk).or c.directory } ∧
      (overrideBy lookup [.directory] c asked).failure = none := by
    intro c asked
    simp only [overrideBy, Override.apply]
    cases lookup Override.directory.name <;> exact ⟨rfl, rfl⟩
  rw [overrideBy]
  cases htime : lookup Override.time.name with
  | none =>
    obtain ⟨hc, hf⟩ := hdirectory { c with updateOnStartup := b } (asked ++ [Override.time.name])
    rw [hc, hf]
    refine .prevailed ⟨b, hb, ?_⟩ fun v hv => ?_
    · rw [htime]
      rfl
    · cases htime.symm.trans hv.1
  | some v =>
    simp only [Override.apply]
    cases hv : TimeOfDay.parse? v.toList with
    | none =>
      refine .timeRefused hb ⟨htime, fun t ht => ?_⟩
      rw [TimeOfDay.parse?_eq_some_iff.mpr ht] at hv
      cases hv
    | some t =>
      obtain ⟨hc, hf⟩ := hdirectory { c with updateOnStartup := b, updateTime := v }
        (asked ++ [Override.time.name])
      rw [hc, hf]
      refine .prevailed ⟨b, hb, ?_⟩ fun w hw => ?_
      · rw [htime]
        rfl
      · cases htime.symm.trans hw.1
        exact hw.2 t (TimeOfDay.parse?_eq_some_iff.mp hv)

/-- Overriding comes to one of these. -/
theorem overriding_override (lookup : String → Option String) (c : Configuration) :
    Overriding lookup c (c.override lookup).configuration (c.override lookup).failure := by
  unfold override Override.all
  rw [overrideBy]
  cases hstartup : lookup Override.startup.name with
  | none =>
    refine overriding_rest (b := c.updateOnStartup) ?_ _
    rw [hstartup]
    exact .absent
  | some v =>
    simp only [Override.apply]
    cases hv : Override.switch? v with
    | none =>
      refine .switchRefused ⟨hstartup, fun b hb => ?_⟩
      rw [switch?_eq_some_iff.mpr hb] at hv
      cases hv
    | some b =>
      refine overriding_rest (b := b) ?_ _
      rw [hstartup]
      exact .said (switch?_eq_some_iff.mp hv)

/-- A switch that was turned was not refused. -/
theorem Turned.not_refused {old : Bool} (h : Turned (lookup Override.startup.name) old b) :
    ¬SwitchRefused lookup v := by
  rintro ⟨hv, hno⟩
  rw [hv] at h
  cases h with
  | said hb => exact hno _ hb

namespace Overriding

variable {c' : Configuration} {f : Option ConfigurationError} (h : Overriding lookup c c' f)
include h

theorem failure_iff : f ≠ none ↔ ∃ v, SwitchRefused lookup v ∨ TimeRefused lookup v := by
  cases h with
  | switchRefused hv => exact ⟨fun _ => ⟨_, .inl hv⟩, fun _ => Option.some_ne_none _⟩
  | timeRefused _ hv => exact ⟨fun _ => ⟨_, .inr hv⟩, fun _ => Option.some_ne_none _⟩
  | prevailed hall htime =>
    refine ⟨fun hne => absurd rfl hne, ?_⟩
    rintro ⟨v, hv | hv⟩
    · obtain ⟨b, hb, -⟩ := hall
      exact absurd hv hb.not_refused
    · exact absurd hv (htime v)

/-- An overriding that fails changes the switch at most, and that as its variable says. -/
theorem of_failure (hf : f ≠ none) : ∃ b, (b = c.updateOnStartup ∨
    Turned (lookup Override.startup.name) c.updateOnStartup b) ∧
      c' = { c with updateOnStartup := b } := by
  cases h with
  | switchRefused _ => exact ⟨c.updateOnStartup, .inl rfl, rfl⟩
  | timeRefused hb _ => exact ⟨_, .inr hb, rfl⟩
  | prevailed _ _ => exact absurd rfl hf

theorem prevails (hf : f = none) : Prevails lookup c c' := by
  cases h with
  | switchRefused _ => cases hf
  | timeRefused _ _ => cases hf
  | prevailed hall _ => exact hall

end Overriding

/-! ## One overriding after the other -/

theorem namedBy_of_timeOfDay {t : TimeOfDay} (h : c.timeOfDay = .ok t) :
    t.NamedBy c.updateTime.toList := by
  unfold timeOfDay at h
  split at h
  · next t' ht =>
    cases h
    exact TimeOfDay.parse?_eq_some_iff.mp ht
  · cases h

/-- After overriding by one environment after the other, whether that failed or not. -/
def overridden (c : Configuration) (lookups : List (String → Option String)) : Configuration :=
  lookups.foldl (fun c lookup => (c.override lookup).configuration) c

theorem Timed.overridden (h : c.Timed) (lookups : List (String → Option String)) :
    (c.overridden lookups).Timed := by
  induction lookups generalizing c with
  | nil => exact h
  | cons lookup lookups ih => exact ih (h.overrideBy Override.all [])

/-- Whatever was accepted as a configuration, and however often environments were tried on it, with
or without success, has a daily time, the one that its text names, and a schedule at that time. Each
overriding fails exactly if there is a variable for the switch that is no word for on or off, or one
for the time that names none. One that fails changes the switch at most, and after one that does not
every variable that is there has its way and all else is as it was. -/
theorem overridden_schedules (h : parse s = .ok c) (lookups : List (String → Option String)) :
    let c' := c.overridden lookups
    (∃ settings, c'.scheduleSettings = .ok settings ∧ c'.timeOfDay = .ok settings.updateTime ∧
      settings.updateTime.NamedBy c'.updateTime.toList) ∧
    ∀ lookup,
      ((c'.override lookup).failure ≠ none ↔ ∃ v, SwitchRefused lookup v ∨ TimeRefused lookup v) ∧
      ((c'.override lookup).failure ≠ none → ∃ b, (b = c'.updateOnStartup ∨
        Turned (lookup Override.startup.name) c'.updateOnStartup b) ∧
          (c'.override lookup).configuration = { c' with updateOnStartup := b }) ∧
      ((c'.override lookup).failure = none →
        Prevails lookup c' (c'.override lookup).configuration) := by
  intro c'
  have htimed : c'.Timed := (timed_of_parse h).overridden lookups
  refine ⟨?_, fun lookup => ?_⟩
  · obtain ⟨settings, hsettings, htime, -⟩ := htimed.scheduleSettings
    exact ⟨settings, hsettings, htime, namedBy_of_timeOfDay htime⟩
  · have hcases := overriding_override lookup c'
    exact ⟨hcases.failure_iff, hcases.of_failure, hcases.prevails⟩

/-- A time with blanks, in a leap second. -/
def paddedText : String :=
  "source:\n  identity: gauges\n  snapshot_dir: export\ncache:\n  update_time: ' 3: 05:60 '\n"

/-- An environment whose word for off is taken, and then whose time is refused. -/
def halfBad (name : String) : Option String :=
  if name = Override.startup.name then some " ofF" else
  if name = Override.time.name then some "noon" else none

/-- After an environment that stops halfway the schedule is that of the padded text. -/
theorem overridden_schedules_halfway :
    ∃ c settings, parse paddedText = .ok c ∧
      ((c.overridden []).override halfBad).failure ≠ none ∧
      (c.overridden [halfBad]).scheduleSettings = .ok settings ∧
      settings.updateTime = ⟨11159, 1000000000⟩ ∧
      (c.overridden [halfBad]).updateOnStartup = false := by
  have hparse : parse paddedText =
      .ok { identity := "gauges", exportDir := ⟨"export"⟩, updateTime := " 3: 05:60 " } := by
    decide +kernel
  have hrefused : TimeRefused halfBad "noon" := by
    have hnoon : TimeOfDay.parse? "noon".toList = none := by decide
    refine ⟨by decide, fun t ht => ?_⟩
    rw [← TimeOfDay.parse?_eq_some_iff, hnoon] at ht
    cases ht
  obtain ⟨⟨settings, hsettings, htime, -⟩, -⟩ := overridden_schedules hparse [halfBad]
  obtain ⟨-, hfails⟩ := overridden_schedules hparse []
  refine ⟨_, settings, hparse, (hfails halfBad).1.mpr ⟨_, .inr hrefused⟩, hsettings, ?_,
    by decide +kernel⟩
  refine Except.ok.inj (htime.symm.trans ?_)
  decide +kernel

end SensorCache.Configuration
