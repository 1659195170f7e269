import SensorCache.Proofs.Refresh.LoneRefresh
import SensorCache.Proofs.Refresh.Memories
import SensorCache.Registry

/-!
# A refresh of all caches of a store

A refresh from an export has one of three outcomes (`Refreshes`): both caches are updated, or the
units are refused and nothing is, or only the offerings are refused. What the caches remember then
is told by what they remembered before and what the export holds, so it can be told for any number
of refreshes (`Stands`).
-/

namespace SensorCache

open Disk Time

variable {d e m y : Disk} {dir : Path} {freshness : Span} {us us' : List UnitMapping}
  {os os' : List Offering} {x : ExportDirectory} {o : RefreshOutcome}

namespace CacheRegistry

/-- The caches in a directory. -/
def inDirectory (dir : Path) (freshness : Span) : CacheRegistry :=
  ⟨dir, .inDirectory dir, .inDirectory UnitMapping dir ⟨freshness, true⟩,
    .inDirectory Offering dir ⟨freshness, false⟩⟩

/-- Units `us` were stored one batch after another and offerings `os` last, and nobody has the
lock. -/
structure Stands (r : CacheRegistry) (d : Disk) (us : List UnitMapping) (os : List Offering) :
    Prop where
  units : r.unitMappings.Remembers d us
  offerings : r.offerings.Remembers d os
  free : d.Missing r.lock.path

/-- The names of all files of the caches, but not that of the lock. -/
def fileNames : List String :=
  CacheFiles.namesOf (Entity.kind UnitMapping) ++ CacheFiles.namesOf (Entity.kind Offering)

theorem plain_of_mem {s : String} (hs : s ∈ UpdateLock.fileName :: fileNames) : Path.Plain s := by
  obtain ⟨hu, hv, -⟩ := CacheFiles.names_ofKind (PlainKind.no_slash (α := UnitMapping))
  obtain ⟨ho, hp, -⟩ := CacheFiles.names_ofKind (PlainKind.no_slash (α := Offering))
  simp only [fileNames, CacheFiles.namesOf, List.cons_append, List.nil_append, List.mem_cons,
    List.not_mem_nil, or_false] at hs
  rcases hs with rfl | rfl | rfl | rfl | rfl
  · exact plain_lockName
  · exact hu
  · exact hv
  · exact ho
  · exact hp

/-- A refresh that leads from the disk `d` to `e`: its outcome, and the units and offerings that
there are then. What is stored is what the export held, all of which was accepted. -/
inductive Refreshes (r : CacheRegistry) (x : ExportDirectory) (d e : Disk) (us : List UnitMapping)
    (os : List Offering) : RefreshOutcome → List UnitMapping → List Offering → Prop where
  | completed {U : List UnitMapping} {O : List Offering} :
      x.HoldsUnits d U → (∀ a ∈ U, Record.Accepted a) →
      x.HoldsOfferings d O → (∀ a ∈ O, Record.Accepted a) →
      Refreshes r x d e us os (.completed 2) (us ++ U) O
  | unitsRefused (message : String) :
      (∀ U, x.HoldsUnits d U → ∃ a ∈ U, ¬Record.Accepted a) →
      e.view r.unitMappings.files.snapshot = d.view r.unitMappings.files.snapshot →
      e.view r.offerings.files.snapshot = d.view r.offerings.files.snapshot →
      Refreshes r x d e us os (.aborted "unit_mappings" message) us os
  | offeringsRefused {U : List UnitMapping} (message : String) :
      x.HoldsUnits d U → (∀ a ∈ U, Record.Accepted a) →
      (∀ O, x.HoldsOfferings d O → ∃ a ∈ O, ¬Record.Accepted a) →
      e.view r.offerings.files.snapshot = d.view r.offerings.files.snapshot →
      Refreshes r x d e us os (.aborted "offerings" message) (us ++ U) os

/-- A refresh from an export that holds what is accepted is completed. -/
theorem Refreshes.of_holds {r : CacheRegistry} {U : List UnitMapping} {O : List Offering}
    (h : r.Refreshes x d e us os o us' os') (hU : x.HoldsUnits d U)
    (hUs : ∀ a ∈ U, Record.Accepted a) (hO : x.HoldsOfferings d O)
    (hOs : ∀ a ∈ O, Record.Accepted a) : o = .completed 2 ∧ us' = us ++ U ∧ os' = O := by
  cases h with
  | completed hU' _ hO' _ => exact ⟨rfl, hU'.unique hU ▸ rfl, hO'.unique hO⟩
  | unitsRefused _ hnone =>
    obtain ⟨a, ha, hbad⟩ := hnone U hU
    exact absurd (hUs a ha) hbad
  | offeringsRefused _ _ _ hnone =>
    obtain ⟨a, ha, hbad⟩ := hnone O hO
    exact absurd (hOs a ha) hbad

/-! ## What happens to files of other names -/

section Elsewhere

variable {ns : List String} {l : Place}

theorem Stands.enters (h : (inDirectory dir freshness).Stands d us os) :
    ∃ l, d.enter dir = .ok l := h.units.enters

theorem view_units (h : Elsewhere ns d e) (hns : "unit_mappings.cache" ∉ ns)
    (hl : d.enter dir = .ok l) :
    e.view (inDirectory dir freshness).unitMappings.files.snapshot =
      d.view (inDirectory dir freshness).unitMappings.files.snapshot :=
  (EntityCache.spares_of_elsewhere (α := UnitMapping) h hns hl).view

theorem view_offerings (h : Elsewhere ns d e) (hns : "offerings.cache" ∉ ns)
    (hl : d.enter dir = .ok l) :
    e.view (inDirectory dir freshness).offerings.files.snapshot =
      d.view (inDirectory dir freshness).offerings.files.snapshot :=
  (EntityCache.spares_of_elsewhere (α := Offering) h hns hl).view

/-- Before and after a refresh there may be work on the lock. -/
theorem Refreshes.elsewhere (h : (inDirectory dir freshness).Refreshes x m e us os o us' os')
    (hd : Elsewhere [UpdateLock.fileName] d m) (he : Elsewhere [UpdateLock.fileName] e y)
    (hl : d.enter dir = .ok l) (hle : e.enter dir = .ok l) :
    (inDirectory dir freshness).Refreshes x d y us os o us' os' := by
  have hunits : "unit_mappings.cache" ∉ [UpdateLock.fileName] := by decide
  have hofferings : "offerings.cache" ∉ [UpdateLock.fileName] := by decide
  have hfirst : ∀ U, x.HoldsUnits m U ↔ x.HoldsUnits d U := fun U =>
    x.holdsUnits_iff hd (by decide)
  have hsecond : ∀ O, x.HoldsOfferings m O ↔ x.HoldsOfferings d O := fun O =>
    x.holdsOfferings_iff hd (by decide)
  cases h with
  | completed hU hUs hO hOs => exact .completed ((hfirst _).mp hU) hUs ((hsecond _).mp hO) hOs
  | unitsRefused message hU hu ho =>
    refine .unitsRefused message (fun U hd => hU U ((hfirst U).mpr hd)) ?_ ?_
    · exact (view_units he hunits hle).trans (hu.trans (view_units hd hunits hl))
    · exact (view_offerings he hofferings hle).trans (ho.trans (view_offerings hd hofferings hl))
  | offeringsRefused message hU hUs hO ho =>
    refine .offeringsRefused message ((hfirst _).mp hU) hUs
      (fun O hd => hO O ((hsecond O).mpr hd)) ?_
    exact (view_offerings he hofferings hle).trans (ho.trans (view_offerings hd hofferings hl))

end Elsewhere

/-! ## The updates -/

/-- The updates of a refresh, without the lock. -/
theorem plays_targets (hu : (inDirectory dir freshness).unitMappings.Remembers d us)
    (ho : (inDirectory dir freshness).offerings.Remembers d os) (x : ExportDirectory)
    (limits : CallLimits) : ∃ e us' os',
      Scheduler.Plays limits
        (fun o => (inDirectory dir freshness).Refreshes x d e us os o us' os')
        ((inDirectory dir freshness).targets x.unitMappings x.offerings : List (Target Unit)) 0 d e ∧
      (inDirectory dir freshness).unitMappings.Remembers e us' ∧
      (inDirectory dir freshness).offerings.Remembers e os' ∧ Elsewhere fileNames d e := by
  obtain ⟨l, hl⟩ := hu.enters
  have hfirst : CacheFiles.namesOf (Entity.kind UnitMapping) ⊆ fileNames :=
    List.subset_append_left _ _
  have hsecond : CacheFiles.namesOf (Entity.kind Offering) ⊆ fileNames :=
    List.subset_append_right _ _
  obtain ⟨m, us', hunits, hum, hdm⟩ := hu.updates_units rfl x limits
  have hom := ho.elsewhere hdm (by decide)
  cases hunits with
  | refuses hU hsame hprompt =>
    refine ⟨m, us, os, .fails hprompt fun message => ?_, hum, hom, hdm.mono hfirst⟩
    exact .unitsRefused message hU hsame (view_offerings hdm (by decide) hl)
  | @stores U n hU hUs hprompt =>
    -- The units are stored, and the offerings are still to come.
    obtain ⟨e, os', hofferings, hoe, hme⟩ := hom.updates_offerings rfl x limits
    have hde : Elsewhere fileNames d e := (hdm.mono hfirst).trans (hme.mono hsecond)
    have hsame : ∀ O, x.HoldsOfferings m O ↔ x.HoldsOfferings d O := fun O =>
      x.holdsOfferings_iff hdm (by decide)
    refine ⟨e, us ++ U, os', .next (fun s hs => ⟨n, hprompt s hs⟩) ?_,
      hum.elsewhere hme (by decide), hoe, hde⟩
    cases hofferings with
    | @stores O k hO hOs hprompt' =>
      exact .next (fun s hs => ⟨k, hprompt' s hs⟩) <|
        .done (.completed hU hUs ((hsame O).mp hO) hOs)
    | refuses hO hkept hprompt' =>
      refine .fails hprompt' fun message =>
        .offeringsRefused message hU hUs (fun O hd => hO O ((hsame O).mpr hd)) ?_
      exact hkept.trans (view_offerings hdm (by decide) hl)

/-! ## With the lock -/

open UpdateLock in
/-- A refresh when nobody has the lock: what is reported, and how the caches then stand. -/
theorem Stands.finish_launched (h : (inDirectory dir freshness).Stands d us os)
    (x : ExportDirectory) (settings : ScheduleSettings) (jitter : Span) (zone : Zone)
    (now : Instant)
    {monitor : MonitorSettings} {turns : Nat} (hturns : 0 < turns)
    (hdelay : 0 < monitor.delay.nanos) :
    ∃ o us' os' y, Stage.finish turns (.refreshing
        (.launched (.new (inDirectory dir freshness).lock monitor true) () settings jitter zone
          ((inDirectory dir freshness).targets x.unitMappings x.offerings) now)) d =
            ((JobEnd.outcome o).report, y) ∧
      (inDirectory dir freshness).Refreshes x d y us os o us' os' ∧
      (inDirectory dir freshness).Stands y us' os' ∧ Elsewhere (fileName :: fileNames) d y := by
  obtain ⟨l, hl⟩ := h.enters
  have hno : d.NoDirectory (UpdateLock.inDirectory dir).path := fun u hu =>
    nomatch h.free.symm.trans hu
  -- The lock is taken,
  obtain ⟨m, hcreate, ⟨⟨l', hl'⟩, hno'⟩, hmade⟩ := Placed.create ⟨⟨l, hl⟩, hno⟩ h.free
  have htaken : Elsewhere [fileName] d m := by
    have hmake : Elsewhere [fileName] d (d.perform (.create (dir / ⟨fileName⟩))).2 :=
      elsewhere_create plain_lockName List.mem_cons_self d
    rwa [← path_inDirectory, hcreate] at hmake
  -- the caches are updated,
  obtain ⟨e, us', os', hplays, hu, ho, hupdated⟩ := plays_targets
    (h.units.elsewhere htaken (by decide)) (h.offerings.elsewhere htaken (by decide)) x
      ⟨settings.callTimeout, settings.streamingTimeout⟩
  have hkept : e.FileOf (UpdateLock.inDirectory dir).path d.clock := by
    obtain ⟨c, hc⟩ := hmade
    exact ⟨c, (hupdated.view_eq_ok plain_lockName (by decide)).mpr hc⟩
  have hle : e.enter dir = .ok l := hupdated.directories.enter_ok (htaken.directories.enter_ok hl)
  -- and it is given back.
  obtain ⟨f, hremove, -, hgone⟩ :=
    Placed.remove ⟨⟨l, hle⟩, hupdated.directories.noDirectory plain_lockName hno'⟩ hkept
  have hback : Elsewhere [fileName] e f := by
    have htake : Elsewhere [fileName] e (e.perform (.remove (dir / ⟨fileName⟩))).2 :=
      elsewhere_remove plain_lockName List.mem_cons_self e
    rwa [← path_inDirectory, hremove] at htake
  obtain ⟨o, y, ho', hfinish, hy⟩ := Stage.finish_launched jitter zone now hturns hdelay
    (enter_parent plain_lockName hl) hcreate hplays hkept hremove
  have hend : Elsewhere [fileName] e y := hback.trans (hy.mono (List.nil_subset _))
  refine ⟨o, us', os', y, hfinish, ho'.elsewhere htaken hend hl hle,
    ⟨hu.elsewhere hend (by decide), ho.elsewhere hend (by decide), ?_⟩, ?_⟩
  · exact (hy.view plain_lockName List.not_mem_nil (hback.directories.enter_ok hle)).trans hgone
  · exact ((htaken.mono (by simp)).trans (hupdated.mono (List.subset_cons_self _ _))).trans
      (hend.mono (by simp))

end CacheRegistry

end SensorCache
