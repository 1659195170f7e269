import Mathlib.Data.List.Find
import SensorCache.Configuration.File
import SensorCache.Proofs.Cache.Ownership
import SensorCache.Proofs.Disk.Elsewhere

/-!
# Loading a configuration

Loading a configuration leaves the disk alone, and what is loaded stays the same whatever happens to
files of names that no configuration file has (`run_load_elsewhere`). A configuration that is loaded
has a daily time, so a scheduler can be made for it.
-/

namespace SensorCache

open Disk

variable {d e m : Disk}

/-! ## Paths to other names -/

/-- A path to a name that is none of `ns`. -/
def Path.Away (ns : List String) (p : Path) : Prop :=
  ∃ q u, p = q / ⟨u⟩ ∧ Path.Plain u ∧ u ∉ ns

namespace Disk.Elsewhere

variable {ns : List String} {p : Path}

theorem toOption_view (h : Elsewhere ns d e) (hp : p.Away ns) :
    (e.view p).toOption = (d.view p).toOption := by
  obtain ⟨q, u, rfl, hu, hns⟩ := hp
  have hview : ∀ n, e.view (q / ⟨u⟩) = .ok n ↔ d.view (q / ⟨u⟩) = .ok n := fun n =>
    h.view_eq_ok hu hns
  cases hd : d.view (q / ⟨u⟩) with
  | ok n => rw [(hview n).mpr hd]
  | error x =>
    cases he : e.view (q / ⟨u⟩) with
    | ok n => cases hd.symm.trans ((hview n).mp he)
    | error y => rfl

/-- A text that was read is read again. -/
theorem run_readText (h : Elsewhere ns d e) (hp : p.Away ns) {s : String}
    (hs : (readText p).run d = (.ok s, m)) : (readText p).run e = (.ok s, e) := by
  obtain ⟨q, u, rfl, hu, hns⟩ := hp
  obtain ⟨b, n, hb, htext⟩ := Attempt.exists_of_run_bind hs
  have hread : (d.perform (.read (q / ⟨u⟩))).1 = .ok b := congrArg Prod.fst hb
  obtain ⟨t, ht⟩ := Disk.read_eq_ok.mp hread
  have hb' : (readBytes (q / ⟨u⟩)).run e = (.ok b, e) :=
    run_readBytes (Disk.read_eq_ok.mpr ⟨t, (h.view_eq_ok hu hns).mpr ht⟩)
  rw [readText, Attempt.run_bind_ok hb']
  cases hutf : String.fromUTF8? b with
  | none =>
    rw [hutf] at htext
    cases htext
  | some s' =>
    rw [hutf] at htext
    cases htext
    rfl

end Disk.Elsewhere

namespace Configuration

variable {lookup : String → Option String} {named : Option Path} {c : Configuration}
  {ns : List String} {p : Path}

/-! ## Finding the file -/

theorem run_firstThere (ps : List Path) (d : Disk) :
    (firstThere ps).run d = (ps.find? fun p => (d.view p).toOption.isSome, d) := by
  induction ps with
  | nil => rfl
  | cons p ps ih =>
    rw [firstThere, Routine.run_bind, UpdateLock.run_look, List.find?_cons]
    dsimp only
    cases hp : (d.view p).toOption.isSome with
    | true => rfl
    | false => exact ih

/-- The path at which the file is found. -/
theorem find_eq_ok : (find lookup named).run d = (.ok p, e) ↔
    e = d ∧ (named.toList ++ if named.isNone then searched lookup else []).find?
      (fun p => (d.view p).toOption.isSome) = some p := by
  cases named with
  | some q =>
    have hlook : (Attempt.always (look q) : Attempt ConfigurationError _).run d =
        (.ok (d.view q).toOption, d) := by
      rw [Attempt.run_always, UpdateLock.run_look]
    have hrun : (find lookup (some q)).run d = _ := Attempt.run_bind_ok hlook
    rw [hrun]
    cases hq : (d.view q).toOption.isSome <;> simp [hq, Prod.ext_iff, eq_comm, and_comm]
  | none =>
    have hfirst : (Attempt.always (firstThere (searched lookup)) :
        Attempt ConfigurationError _).run d =
          (.ok ((searched lookup).find? fun p => (d.view p).toOption.isSome), d) := by
      rw [Attempt.run_always, run_firstThere]
    have hrun : (find lookup none).run d = _ := Attempt.run_bind_ok hfirst
    rw [hrun]
    cases hp : (searched lookup).find? fun p => (d.view p).toOption.isSome <;>
      simp [hp, Prod.ext_iff, eq_comm, and_comm]

theorem away_searched (hns : "sosmeta.yaml" ∉ ns) (hns' : "config.yaml" ∉ ns)
    (hp : p ∈ searched lookup) : p.Away ns := by
  rcases List.mem_cons.mp hp with rfl | hp
  · exact ⟨⟨""⟩, "sosmeta.yaml", rfl, ⟨by decide, by decide, by decide, by decide⟩, hns⟩
  · obtain ⟨q, -, rfl⟩ := List.mem_map.mp hp
    exact ⟨_, "config.yaml", rfl, ⟨by decide, by decide, by decide, by decide⟩, hns'⟩

/-- A file that was found is found again, and its path is one of those that were looked at. -/
theorem find_elsewhere (h : Elsewhere ns d e) (hnamed : ∀ p ∈ named, p.Away ns)
    (hns : "sosmeta.yaml" ∉ ns) (hns' : "config.yaml" ∉ ns)
    (hfind : (find lookup named).run d = (.ok p, m)) :
    p.Away ns ∧ (find lookup named).run e = (.ok p, e) := by
  obtain ⟨-, hp⟩ := find_eq_ok.mp hfind
  have haway : ∀ q ∈ named.toList ++ if named.isNone then searched lookup else [], q.Away ns := by
    intro q hq
    rcases List.mem_append.mp hq with hq | hq
    · exact hnamed q (Option.mem_toList.mp hq)
    · split at hq
      · exact away_searched hns hns' hq
      · cases hq
  refine ⟨haway p (List.mem_of_find?_eq_some hp), find_eq_ok.mpr ⟨rfl, ?_⟩⟩
  rw [← hp]
  exact List.find?_congr fun q hq => by rw [h.toOption_view (haway q hq)]

/-! ## Reading it -/

theorem load_eq_ok : (load lookup named).run d = (.ok c, e) ↔
    ∃ p text c', (find lookup named).run d = (.ok p, d) ∧ (readText p).run d = (.ok text, e) ∧
      parse text = .ok c' ∧ (c'.override lookup).failure = none ∧
        (c'.override lookup).configuration = c := by
  constructor
  · intro h
    obtain ⟨p, m, hp, hread⟩ := Attempt.exists_of_run_bind h
    obtain ⟨text, n, htext, hrest⟩ := Attempt.exists_of_run_bind hread
    obtain ⟨rfl, -⟩ := find_eq_ok.mp hp
    refine ⟨p, text, ?_⟩
    cases hparse : parse text with
    | error x =>
      rw [hparse] at hrest
      cases hrest
    | ok c' =>
      rw [hparse] at hrest
      dsimp only at hrest
      cases hf : (c'.override lookup).failure with
      | some x =>
        rw [hf] at hrest
        cases hrest
      | none =>
        rw [hf] at hrest
        cases hrest
        exact ⟨c', hp, Attempt.run_of_because htext, rfl, hf, rfl⟩
  · rintro ⟨p, text, c', hp, htext, hparse, hfailure, rfl⟩
    rw [load, Attempt.run_bind_ok hp, Attempt.run_bind_ok (Attempt.run_because_ok htext), hparse]
    dsimp only
    rw [hfailure]
    rfl

/-- What was loaded is loaded again, whatever happened to files of other names. -/
theorem run_load_elsewhere (h : Elsewhere ns d e) (hnamed : ∀ p ∈ named, p.Away ns)
    (hns : "sosmeta.yaml" ∉ ns) (hns' : "config.yaml" ∉ ns)
    (hload : (load lookup named).run d = (.ok c, m)) :
    (load lookup named).run e = (.ok c, e) := by
  obtain ⟨p, text, c', hp, htext, hc⟩ := load_eq_ok.mp hload
  obtain ⟨haway, hp'⟩ := find_elsewhere h hnamed hns hns' hp
  exact load_eq_ok.mpr ⟨p, text, c', hp', h.run_readText haway htext, hc⟩

/-! ## The daily time -/

/-- The text of the daily time is a time. -/
def Timed (c : Configuration) : Prop := ∃ t, Time.TimeOfDay.parse? c.updateTime.toList = some t

theorem timed_of_parse {s : String} (h : parse s = .ok c) : c.Timed := by
  unfold parse at h
  split at h
  · cases h
  · next c' _ =>
    unfold Timed
    unfold timeOfDay at h
    cases ht : Time.TimeOfDay.parse? c'.updateTime.toList with
    | none =>
      rw [ht] at h
      cases h
    | some t =>
      rw [ht] at h
      cases h
      exact ⟨t, ht⟩

theorem Timed.apply {c' : Configuration} {o : Override} {value : String} (h : c.Timed)
    (ho : o.apply c value = .ok c') : c'.Timed := by
  cases o with
  | startup =>
    simp only [Override.apply] at ho
    split at ho
    · cases ho
      exact h
    · cases ho
  | time =>
    simp only [Override.apply] at ho
    split at ho
    · next t ht =>
      cases ho
      exact ⟨t, ht⟩
    · cases ho
  | directory =>
    cases ho
    exact h

theorem Timed.overrideBy (os : List Override) (asked : List String) (h : c.Timed) :
    (overrideBy lookup os c asked).configuration.Timed := by
  induction os generalizing c asked with
  | nil => exact h
  | cons o os ih =>
    unfold Configuration.overrideBy
    dsimp only
    split
    · exact ih _ h
    · split
      · next c' hc' => exact ih _ (h.apply hc')
      · exact h

/-- A scheduler can be made for a configuration with a daily time, and its checks are not due at
once. -/
theorem Timed.scheduleSettings (h : c.Timed) : ∃ settings, c.scheduleSettings = .ok settings ∧
    c.timeOfDay = .ok settings.updateTime ∧ 0 < settings.monitor.delay.nanos := by
  obtain ⟨t, ht⟩ := h
  have htime : c.timeOfDay = .ok t := by
    unfold timeOfDay
    rw [ht]
  have hdelay : 0 < ({} : ScheduleSettings).period.nanos / 2 := by decide
  unfold Configuration.scheduleSettings
  rw [htime]
  exact ⟨_, rfl, rfl, hdelay⟩

theorem scheduleSettings_of_load (h : (load lookup named).run d = (.ok c, e)) :
    ∃ settings, c.scheduleSettings = .ok settings ∧ 0 < settings.monitor.delay.nanos := by
  obtain ⟨p, text, c', -, -, hparse, -, rfl⟩ := load_eq_ok.mp h
  have htimed : (c'.override lookup).configuration.Timed :=
    (timed_of_parse hparse).overrideBy Override.all []
  obtain ⟨settings, hsettings, -, hdelay⟩ := htimed.scheduleSettings
  exact ⟨settings, hsettings, hdelay⟩

end Configuration

end SensorCache
